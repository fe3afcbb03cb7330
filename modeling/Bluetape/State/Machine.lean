import Bluetape.Library.Run

/-!
# The state machine

`state.Machine` has a table of transitions, a current state and a mutex. `Transition` reads the
current state and finds the transition for its event; then it runs the guard, without the mutex;
then it commits, if the current state is the one that it has read. Guards are arbitrary: what one
decides is a choice of each call, and it may take as long as it likes while other calls go on.

* **What is committed is a path** (`commits_linear`): the transitions that are committed, in that
  order, lead from the initial state to the current one, each is registered for the state in which
  it is committed, and none leads out of a final state. A call that fails has changed nothing.

What a call has found in the table stays right, since the table does not change (`Planned`); so a
comparison of states is enough for this. It is not enough for a call to be alone; that is in
`Bluetape.State.Conflicts`.
-/

namespace Bluetape.StateMachine

open Lts Option List

variable {S E : Type}

/-- `ErrorKind`. -/
inductive ErrorKind where
  | invalidTransition
  | guardRejected
  | finalState
  | concurrentTransition
  | duplicateTransition
  | unknownInitialState
  deriving DecidableEq, Repr

/-- `TransitionError`; a field that is not set is `none`. -/
structure TransitionError (S E : Type) where
  kind : ErrorKind
  source : S
  event : Option E
  target : Option S
  cause : Option String
  deriving DecidableEq, Repr

/-- `Transition`: from a source to a target by an event, with a guard or not. -/
structure Transition (S E : Type) where
  source : S
  event : E
  target : S
  guarded : Bool
  deriving DecidableEq, Repr

/-- What `Transition` returns. -/
structure Result (S E : Type) where
  previous : S
  event : E
  current : S
  deriving DecidableEq, Repr

/-- What does not change of a `Machine`. -/
structure Machine (S E : Type) where
  transitions : List (Transition S E)
  finalStates : List S
  deriving DecidableEq, Repr

section New

variable [DecidableEq S] [DecidableEq E]

/-- The transition for a state and an event. -/
def find (ts : List (Transition S E)) (s : S) (e : E) : Option (Transition S E) :=
  ts.find? fun t => decide (t.source = s ∧ t.event = e)

/-- The loop of `NewMachine` over the transitions. -/
def register (registered : List (Transition S E)) :
    List (Transition S E) → Except (TransitionError S E) (List (Transition S E))
  | [] => .ok registered
  | t :: rest =>
    if (find registered t.source t.event).isSome then
      .error ⟨.duplicateTransition, t.source, some t.event, some t.target, none⟩
    else register (registered ++ [t]) rest

/-- **`NewMachine`.** -/
def newMachine (initial : S) (transitions : List (Transition S E)) (finalStates : List S) :
    Except (TransitionError S E) (Machine S E) :=
  match register [] transitions with
  | .error err => .error err
  | .ok registered =>
    if initial ∈ finalStates ∨ ∃ t ∈ registered, initial = t.source ∨ initial = t.target then
      .ok ⟨registered, finalStates⟩
    else .error ⟨.unknownInitialState, initial, none, none, none⟩

/-- `lookup`. -/
def Machine.lookup (m : Machine S E) (current : S) (event : E) :
    Except (TransitionError S E) (Transition S E) :=
  if current ∈ m.finalStates then .error ⟨.finalState, current, some event, none, none⟩
  else
    match find m.transitions current event with
    | none => .error ⟨.invalidTransition, current, some event, none, none⟩
    | some t => .ok t

end New

/-! ### Calls -/

/-- What `Transition` returns. -/
inductive Outcome (S E : Type) where
  | ok (result : Result S E)
  | cancelled
  | failed (err : TransitionError S E)
  deriving DecidableEq, Repr

/-- Where a call of `Transition` is. -/
inductive Phase (S E : Type) where
  /-- Before `lookup`. -/
  | called
  /-- In the guard, with what `lookup` has found. -/
  | guarding (source target : S) (guarded : Bool)
  | committing (source target : S)
  | returned (outcome : Outcome S E)
  deriving DecidableEq, Repr

/-- A call of `Transition`. -/
structure Call (S E : Type) where
  event : E
  phase : Phase S E
  deriving DecidableEq, Repr

/-- The current state, and the calls. -/
structure Sys (S E : Type) where
  current : S
  calls : List (Call S E)
  deriving DecidableEq, Repr

/-- No calls. -/
def Sys.new (initial : S) : Sys S E := ⟨initial, []⟩

/-- What the guard says. -/
inductive Verdict where
  | rejected (cause : String)
  /-- It accepts, or there is none; then the context is looked at. -/
  | accepted (ended : Bool)
  deriving DecidableEq, Repr

/-- What happens. -/
inductive Label (E : Type) where
  | call (event : E)
  /-- A look at the context, and `lookup`. -/
  | lookup (i : ℕ) (ended : Bool)
  | guard (i : ℕ) (verdict : Verdict)
  | commit (i : ℕ)
  deriving DecidableEq, Repr

/-- The call that moves on. -/
def Label.index : Label E → Option ℕ
  | .call _ => none
  | .lookup i _ => some i
  | .guard i _ => some i
  | .commit i => some i

/-- A call moves on. -/
def Sys.setCall (y : Sys S E) (i : ℕ) (event : E) (phase : Phase S E) : Sys S E :=
  { y with calls := y.calls.set i ⟨event, phase⟩ }

/-- After the guard. -/
def afterGuard (event : E) (source target : S) (guarded : Bool) : Verdict → Option (Phase S E)
  | .rejected cause =>
    if guarded then
      some (.returned (.failed ⟨.guardRejected, source, some event, some target, some cause⟩))
    else none
  | .accepted ended => some (if ended then .returned .cancelled else .committing source target)

section Step

variable [DecidableEq S] [DecidableEq E]

/-- The phase after `lookup`. -/
def Machine.afterLookup (m : Machine S E) (current : S) (event : E) : Phase S E :=
  match m.lookup current event with
  | .error err => .returned (.failed err)
  | .ok t => .guarding current t.target t.guarded

/-- **One step of the calls.** -/
def step (m : Machine S E) (y : Sys S E) : Label E → Option (Sys S E)
  | .call event => some { y with calls := y.calls ++ [⟨event, .called⟩] }
  | .lookup i ended =>
    match y.calls[i]? with
    | some ⟨event, .called⟩ =>
      some (y.setCall i event
        (if ended then .returned .cancelled else m.afterLookup y.current event))
    | _ => none
  | .guard i verdict =>
    match y.calls[i]? with
    | some ⟨event, .guarding source target guarded⟩ =>
      (afterGuard event source target guarded verdict).map (y.setCall i event)
    | _ => none
  | .commit i =>
    match y.calls[i]? with
    | some ⟨event, .committing source target⟩ =>
      if y.current = source then
        some { y.setCall i event (.returned (.ok ⟨source, event, target⟩)) with current := target }
      else
        some (y.setCall i event (.returned
          (.failed ⟨.concurrentTransition, source, some event, some target, none⟩)))
    | _ => none

end Step

/-- A step. -/
abbrev Ev (S E : Type) : Type := Event (Sys S E) (Label E)

/-- The transition that a step commits: what its call returns. -/
def committed (ev : Ev S E) : Option (Result S E) :=
  match ev.label with
  | .commit i =>
    match ev.after.calls[i]? with
    | some ⟨_, .returned (.ok r)⟩ => some r
    | _ => none
  | _ => none

/-- **The transitions that were committed**, newest first. -/
def commits (h : List (Ev S E)) : List (Result S E) := h.filterMap committed

/-! ### Paths -/

/-- A transition that may be committed: it is registered for a state that is not final. -/
def Machine.Allows (m : Machine S E) (r : Result S E) : Prop :=
  r.previous ∉ m.finalStates ∧
    ∃ t ∈ m.transitions, t.source = r.previous ∧ t.event = r.event ∧ t.target = r.current

/-- **A path**: transitions, newest first, that lead from one state to another. -/
inductive Path (m : Machine S E) (s : S) : List (Result S E) → S → Prop
  | nil : Path m s [] s
  | snoc {rs : List (Result S E)} {r : Result S E} (hpath : Path m s rs r.previous)
      (hallows : m.Allows r) : Path m s (r :: rs) r.current

/-- What a call plans is registered. -/
def Planned (m : Machine S E) (call : Call S E) : Prop :=
  match call.phase with
  | .guarding source target _ => m.Allows ⟨source, call.event, target⟩
  | .committing source target => m.Allows ⟨source, call.event, target⟩
  | _ => True

theorem planned_afterGuard {m : Machine S E} {e : E} {s t : S} {guarded : Bool} {v : Verdict}
    {p : Phase S E} (hallows : m.Allows ⟨s, e, t⟩) (hp : afterGuard e s t guarded v = some p) :
    Planned m ⟨e, p⟩ := by
  cases v with
  | rejected cause =>
    obtain ⟨-, ⟨⟩⟩ := ite_none_right_eq_some.mp hp
    trivial
  | accepted ended =>
    cases hp
    cases ended with
    | true => trivial
    | false => exact hallows

section Steps

variable [DecidableEq S] [DecidableEq E] {m : Machine S E} {y y' : Sys S E} {l : Label E}

theorem allows_of_lookup {s : S} {e : E} {t : Transition S E} (h : m.lookup s e = .ok t) :
    m.Allows ⟨s, e, t.target⟩ := by
  unfold Machine.lookup at h
  split_ifs at h with hfinal
  split at h
  next => exact nomatch h
  next t' hfind =>
    obtain rfl := Except.ok.inj h
    have hkey := find?_some hfind
    obtain ⟨hsource, hevent⟩ := of_decide_eq_true hkey
    exact ⟨hfinal, t', mem_of_find?_eq_some hfind, hsource, hevent, rfl⟩

theorem planned_afterLookup (s : S) (e : E) : Planned m ⟨e, m.afterLookup s e⟩ := by
  unfold Machine.afterLookup
  cases hlookup : m.lookup s e with
  | error err => trivial
  | ok t => exact allows_of_lookup hlookup

/-- The ways in which a step changes the calls and the current state. -/
inductive Move (m : Machine S E) (y : Sys S E) : Label E → Sys S E → Prop
  | call (event : E) :
      Move m y (.call event) { y with calls := y.calls ++ [⟨event, .called⟩] }
  | lookup {i : ℕ} {ended : Bool} {event : E} (hi : y.calls[i]? = some ⟨event, .called⟩) :
      Move m y (.lookup i ended)
        (y.setCall i event (if ended then .returned .cancelled else m.afterLookup y.current event))
  | guard {i : ℕ} {verdict : Verdict} {event : E} {source target : S} {guarded : Bool}
      {phase : Phase S E} (hi : y.calls[i]? = some ⟨event, .guarding source target guarded⟩)
      (hphase : afterGuard event source target guarded verdict = some phase) :
      Move m y (.guard i verdict) (y.setCall i event phase)
  | commit {i : ℕ} {event : E} {target : S}
      (hi : y.calls[i]? = some ⟨event, .committing y.current target⟩) :
      Move m y (.commit i) { y.setCall i event (.returned (.ok ⟨y.current, event, target⟩)) with
        current := target }
  | conflict {i : ℕ} {event : E} {source target : S}
      (hi : y.calls[i]? = some ⟨event, .committing source target⟩) (hne : y.current ≠ source) :
      Move m y (.commit i) (y.setCall i event (.returned
        (.failed ⟨.concurrentTransition, source, some event, some target, none⟩)))

theorem move_of_step (hs : step m y l = some y') : Move m y l y' := by
  cases l with
  | call event =>
    cases hs
    exact .call _
  | lookup i ended =>
    simp only [step] at hs
    split at hs <;> cases hs
    next hi => exact .lookup hi
  | guard i verdict =>
    simp only [step] at hs
    split at hs <;> try cases hs
    next hi =>
      obtain ⟨phase, hphase, rfl⟩ := map_eq_some_iff.mp hs
      exact .guard hi hphase
  | commit i =>
    simp only [step] at hs
    split at hs <;> try cases hs
    next hi =>
      split_ifs at hs with hcur <;> cases hs
      · cases hcur
        exact .commit hi
      · exact .conflict hi hcur

theorem committed_of_move (hm : Move m y l y') :
    (committed ⟨y, l, y'⟩ = none ∧ y'.current = y.current) ∨ ∃ i event target, l = .commit i ∧
        y.calls[i]? = some ⟨event, .committing y.current target⟩ ∧
        committed ⟨y, l, y'⟩ = some ⟨y.current, event, target⟩ ∧ y'.current = target ∧
        y'.calls = y.calls.set i ⟨event, .returned (.ok ⟨y.current, event, target⟩)⟩ := by
  cases hm with
  | call event | lookup hi | guard hi hphase => exact .inl ⟨rfl, rfl⟩
  | @commit i event target hi =>
    refine .inr ⟨i, event, target, rfl, hi, ?_, rfl, rfl⟩
    simp only [committed, Sys.setCall, getElem?_set_of_some hi]
  | @conflict i event source target hi hne =>
    refine .inl ⟨?_, rfl⟩
    simp only [committed, Sys.setCall, getElem?_set_of_some hi]

theorem planned_step (h : ∀ call ∈ y.calls, Planned m call) (hm : Move m y l y') :
    ∀ call ∈ y'.calls, Planned m call := by
  cases hm with
  | call event => exact forall_mem_concat h trivial
  | @lookup i ended event hi =>
    refine forall_mem_set h ?_
    cases ended with
    | true => trivial
    | false => exact planned_afterLookup y.current event
  | guard hi hphase =>
    exact forall_mem_set h (planned_afterGuard (h _ (mem_of_getElem? hi)) hphase)
  | commit hi | conflict hi hne => exact forall_mem_set h trivial

/-- **A path goes on with every step.** -/
theorem Path.step {s : S} {h : List (Ev S E)} (hpath : Path m s (commits h) y.current)
    (hplanned : ∀ call ∈ y.calls, Planned m call) (hm : Move m y l y') :
    Path m s (commits (⟨y, l, y'⟩ :: h)) y'.current := by
  rcases committed_of_move hm with ⟨hnone, hcur⟩ | ⟨i, event, target, -, hi, hsome, hcur, -⟩
  · rw [commits, filterMap_cons_none hnone, hcur]
    exact hpath
  · rw [commits, filterMap_cons_some hsome, hcur]
    exact .snoc hpath (hplanned _ (mem_of_getElem? hi))

theorem returned_of_move {i : ℕ} {event : E} {o : Outcome S E}
    (hi : y.calls[i]? = some ⟨event, .returned o⟩) (hm : Move m y l y') :
    y'.calls[i]? = some ⟨event, .returned o⟩ ∧ l.index ≠ some i := by
  have hset : ∀ {j : ℕ} {call call' : Call S E}, y.calls[j]? = some call →
      call.phase ≠ .returned o → (y.calls.set j call')[i]? = some ⟨event, .returned o⟩ ∧ j ≠ i := by
    intro j call call' hj hne
    have hji : j ≠ i := by
      rintro rfl
      exact hne (congrArg Call.phase (mem_unique hj hi))
    exact ⟨(getElem?_set_ne hji).trans hi, hji⟩
  cases hm with
  | call event' =>
    refine ⟨?_, nofun⟩
    exact (getElem?_append_left (List.getElem?_eq_some_iff.mp hi).1).trans hi
  | lookup hj | guard hj hphase | commit hj | conflict hj hne' =>
    obtain ⟨hsame, hne⟩ := hset hj nofun
    exact ⟨hsame, fun hl => hne (Option.some.inj hl)⟩

end Steps

/-! ### Runs -/

section Runs

variable [DecidableEq S] [DecidableEq E] {m : Machine S E} {initial : S}

/-- What the calls commit is a path. -/
structure Linear (m : Machine S E) (initial : S) (h : List (Ev S E)) (y : Sys S E) : Prop where
  path : Path m initial (commits h) y.current
  planned : ∀ call ∈ y.calls, Planned m call
  /-- Whoever has changed the current state has returned without an error. -/
  changed : ∀ ev ∈ h, ev.after.current ≠ ev.before.current →
    ∃ i event r, ev.label.index = some i ∧ y.calls[i]? = some ⟨event, .returned (.ok r)⟩

theorem linear_of_run {h : List (Ev S E)} {y : Sys S E} (hr : Run (step m) (.new initial) h y) :
    Linear m initial h y := by
  induction hr with
  | nil =>
    exact ⟨.nil, nofun, nofun⟩
  | @snoc h y y' l _ hs ih =>
    have hm := move_of_step hs
    refine ⟨ih.path.step ih.planned hm, planned_step ih.planned hm, fun ev hev hne => ?_⟩
    rcases mem_cons.mp hev with rfl | hold
    · rcases committed_of_move hm with ⟨-, hcur⟩ | ⟨i, event, target, rfl, hi, -, -, hcalls⟩
      · exact absurd hcur hne
      · refine ⟨i, event, ⟨y.current, event, target⟩, rfl, ?_⟩
        rw [hcalls]
        exact getElem?_set_of_some hi
    · obtain ⟨i, event, r, hindex, hcall⟩ := ih.changed ev hold hne
      exact ⟨i, event, r, hindex, (returned_of_move hcall hm).1⟩

theorem register_eq_ok {registered transitions ts : List (Transition S E)}
    (h : register registered transitions = .ok ts) : ts = registered ++ transitions := by
  induction transitions generalizing registered with
  | nil => exact (Except.ok.inj h).symm.trans (append_nil registered).symm
  | cons t rest ih =>
    rw [register] at h
    split_ifs at h
    rw [ih h, append_assoc, singleton_append]

theorem newMachine_eq_ok {transitions : List (Transition S E)} {finalStates : List S}
    (h : newMachine initial transitions finalStates = .ok m) : m = ⟨transitions, finalStates⟩ := by
  unfold newMachine at h
  split at h
  next => exact nomatch h
  next ts hts =>
    split_ifs at h
    cases h
    rw [register_eq_ok hts, nil_append]

/-- **The transitions that are committed form a path**, from the initial state to the current one,
along the transitions that the machine was made with and never out of a final state; and a call that
has returned an error has changed nothing. -/
theorem commits_linear {transitions : List (Transition S E)} {finalStates : List S}
    (hm : newMachine initial transitions finalStates = .ok m) {h : List (Ev S E)} {y : Sys S E}
    (hr : Run (step m) (.new initial) h y) :
    Path ⟨transitions, finalStates⟩ initial (commits h) y.current ∧
    ∀ (i : ℕ) (event : E) (o : Outcome S E), y.calls[i]? = some ⟨event, .returned o⟩ →
      (∀ r, o ≠ .ok r) → ∀ ev ∈ h, ev.label.index = some i →
        ev.after.current = ev.before.current := by
  have hlinear := linear_of_run hr
  refine ⟨newMachine_eq_ok hm ▸ hlinear.path, ?_⟩
  intro i event o hi hno ev hev hindex
  by_contra hne
  obtain ⟨j, event', r, hj, hcall⟩ := hlinear.changed ev hev hne
  obtain rfl : i = j := mem_unique hindex hj
  have heq := mem_unique hi hcall
  exact hno r (Phase.returned.inj (congrArg Call.phase heq))

/-- Of two calls that both read the first state and both pass the guard, the second fails; a call in
the final state then fails too. -/
theorem commits_linear_two :
    ∃ (h : List (Ev Bool Unit)) (y : Sys Bool Unit),
      Run (step ⟨[⟨false, (), true, true⟩], [true]⟩) (.new false) h y ∧
      commits h = [⟨false, (), true⟩] ∧
      y.calls.map Call.phase = [.returned (.ok ⟨false, (), true⟩),
        .returned (.failed ⟨.concurrentTransition, false, some (), some true, none⟩),
        .returned (.failed ⟨.finalState, true, some (), none, none⟩)] ∧
      Path ⟨[⟨false, (), true, true⟩], [true]⟩ false (commits h) y.current := by
  obtain ⟨h, y, hr, hcommits, hphases⟩ := exists_run
    (step (S := Bool) (E := Unit) ⟨[⟨false, (), true, true⟩], [true]⟩) (.new false)
    [.call (), .call (), .lookup 0 false, .lookup 1 false, .guard 1 (.accepted false),
      .guard 0 (.accepted false), .commit 0, .commit 1, .call (), .lookup 2 false]
    (fun h y => commits h = [⟨false, (), true⟩] ∧
      y.calls.map Call.phase = [.returned (.ok ⟨false, (), true⟩),
        .returned (.failed ⟨.concurrentTransition, false, some (), some true, none⟩),
        .returned (.failed ⟨.finalState, true, some (), none, none⟩)])
    (by decide +kernel)
  have hm : newMachine false [⟨false, (), true, true⟩] [true] =
      .ok ⟨[⟨false, (), true, true⟩], [true]⟩ := by decide
  exact ⟨h, y, hr, hcommits, hphases, (commits_linear hm hr).1⟩

end Runs

end Bluetape.StateMachine
