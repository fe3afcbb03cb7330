import Bluetape.State.Machine

/-!
# Conflicts of concurrent transitions

A call of `Transition` reads the current state, asks the guard, and commits if the current state is
still the one that it has read. Another call may commit while the guard decides. The comparison is
of states: it finds the other call if the machine is then in another state, and it does not if the
machine is back in the state that was read.

* **Off the cycles a conflict is always found** (`conflict_found`): a call that has read a state to
  which no registered transitions lead back succeeds if and only if nothing was committed since, and
  gets `ErrConcurrentTransition` otherwise.
* **On a cycle it need not be** (`self_loop_unnoticed`): with a transition from a state to itself, a
  call succeeds although another one has committed since it has read the state.

What is committed since a call has read a state leads from that state to the current one (`Since`):
this is the invariant, and both parts follow from it.
-/

namespace Bluetape.StateMachine

open Lts Option List

variable {S E : Type}

/-- Whether a step is the `lookup` of a call. -/
def Label.looksUp (i : ℕ) : Label E → Bool
  | .lookup j _ => decide (j = i)
  | _ => false

/-- The events since the `lookup` of a call. -/
def since (i : ℕ) (h : List (Ev S E)) : List (Ev S E) := h.takeWhile fun ev => !ev.label.looksUp i

/-- Some path leads back to the state. -/
def Cyclic (m : Machine S E) (s : S) : Prop := ∃ rs, rs ≠ [] ∧ Path m s rs s

/-- The state that a call has read, while it asks the guard and until it commits. -/
def Phase.read : Phase S E → Option S
  | .guarding source _ _ => some source
  | .committing source _ => some source
  | _ => none

/-- **The invariant**: what was committed since a call has read a state leads from there to the
current state. -/
def Since (m : Machine S E) (h : List (Ev S E)) (y : Sys S E) : Prop :=
  ∀ i call s, y.calls[i]? = some call → call.phase.read = some s →
    Path m s (commits (since i h)) y.current

theorem read_afterGuard {e : E} {s t : S} {guarded : Bool} {v : Verdict} {p : Phase S E}
    (hp : afterGuard e s t guarded v = some p) {s' : S} (hs : p.read = some s') : s' = s := by
  cases v with
  | rejected cause =>
    obtain ⟨-, ⟨⟩⟩ := ite_none_right_eq_some.mp hp
    exact nomatch hs
  | accepted ended =>
    cases hp
    cases ended with
    | true => exact nomatch hs
    | false => exact (Option.some.inj hs).symm

section Runs

variable [DecidableEq S] [DecidableEq E] {m : Machine S E} {initial : S} {y y' : Sys S E}
  {l : Label E}

theorem read_afterLookup {s s' : S} {e : E} (hs : (m.afterLookup s e).read = some s') : s' = s := by
  unfold Machine.afterLookup at hs
  split at hs
  · exact nomatch hs
  · exact (Option.some.inj hs).symm

/-- After a step that is not its `lookup`, a call has read what it had read before. -/
theorem read_of_move (hm : Move m y l y') {i : ℕ} {call' : Call S E} {s : S}
    (hi : y'.calls[i]? = some call') (hs : call'.phase.read = some s)
    (hl : l.looksUp i = false) : ∃ call, y.calls[i]? = some call ∧ call.phase.read = some s := by
  -- The call whose step it is has read nothing else; the others are not touched.
  have hset : ∀ {j : ℕ} {call₀ call₁ : Call S E}, y'.calls = y.calls.set j call₁ →
      y.calls[j]? = some call₀ → (j = i → call₁.phase.read = some s → call₀.phase.read = some s) →
      ∃ call, y.calls[i]? = some call ∧ call.phase.read = some s := by
    intro j call₀ call₁ hcalls hj hread
    rw [hcalls] at hi
    by_cases hji : j = i
    · subst hji
      obtain rfl : call₁ = call' :=
        mem_unique (getElem?_set_of_some hj) hi
      exact ⟨call₀, hj, hread rfl hs⟩
    · exact ⟨call', (getElem?_set_ne hji).symm.trans hi, hs⟩
  cases hm with
  | call event =>
    rcases mem_concat (mem_of_getElem? hi) with hold | rfl
    · rw [getElem?_append] at hi
      split_ifs at hi with hlt
      · exact ⟨call', hi, hs⟩
      · obtain rfl := mem_singleton.mp (mem_of_getElem? hi)
        exact nomatch hs
    · exact nomatch hs
  | @lookup j ended event hj =>
    refine hset rfl hj fun hji _ => ?_
    exact absurd hji (of_decide_eq_false hl)
  | guard hj hphase =>
    refine hset rfl hj fun _ hread => ?_
    rw [read_afterGuard hphase hread]
    rfl
  | commit hj | conflict hj hne => exact hset rfl hj nofun

theorem Since.step {h : List (Ev S E)} (hsince : Since m h y)
    (hplanned : ∀ call ∈ y.calls, Planned m call) (hm : Move m y l y') :
    Since m (⟨y, l, y'⟩ :: h) y' := by
  intro i call s hi hs
  cases hl : l.looksUp i with
  | false =>
    obtain ⟨call₀, hi₀, hs₀⟩ := read_of_move hm hi hs hl
    have hcons : since i (⟨y, l, y'⟩ :: h) = ⟨y, l, y'⟩ :: since i h :=
      takeWhile_cons_of_pos (congrArg not hl)
    rw [hcons]
    exact (hsince i call₀ s hi₀ hs₀).step hplanned hm
  | true =>
    have hnil : since i (⟨y, l, y'⟩ :: h) = [] :=
      takeWhile_cons_of_neg fun hp =>
        (nomatch (congrArg not hl).symm.trans hp)
    rw [hnil]
    cases hm with
    | @lookup j ended event hj =>
      obtain rfl := of_decide_eq_true hl
      obtain rfl := mem_unique (getElem?_set_of_some hj) hi
      cases ended with
      | true => exact nomatch hs
      | false =>
        rw [read_afterLookup hs]
        exact .nil
    | call event | guard hj hphase | commit hj | conflict hj hne => exact nomatch hl

theorem since_of_run {h : List (Ev S E)} (hr : Run (step m) (.new initial) h y) :
    Since m h y := by
  induction hr with
  | nil => exact nofun
  | snoc hr hs ih => exact ih.step (linear_of_run hr).planned (move_of_step hs)

theorem commit_of_move {i : ℕ} {event : E} {source target : S} (hm : Move m y (.commit i) y')
    (hi : y.calls[i]? = some ⟨event, .committing source target⟩) :
    (y.current = source ∧ y'.calls[i]? = some ⟨event, .returned (.ok ⟨source, event, target⟩)⟩) ∨
      (y.current ≠ source ∧ y'.calls[i]? = some ⟨event, .returned
        (.failed ⟨.concurrentTransition, source, some event, some target, none⟩)⟩) := by
  cases hm with
  | commit hj =>
    obtain ⟨rfl, hphase⟩ := Call.mk.inj (mem_unique hj hi)
    cases hphase
    exact .inl ⟨rfl, getElem?_set_of_some hi⟩
  | conflict hj hne =>
    obtain ⟨rfl, hphase⟩ := Call.mk.inj (mem_unique hj hi)
    cases hphase
    exact .inr ⟨hne, getElem?_set_of_some hi⟩

/-- **Off the cycles, a call succeeds if and only if nothing was committed since it has read the
state**, and otherwise it gets `ErrConcurrentTransition`. -/
theorem conflict_found {h : List (Ev S E)} (hr : Run (step m) (.new initial) h y) :
    Always (fun older ev => ∀ (i : ℕ) (event : E) (source target : S),
      ev.label = .commit i → ev.before.calls[i]? = some ⟨event, .committing source target⟩ →
      (commits (since i older) = [] →
        ev.after.calls[i]? = some ⟨event, .returned (.ok ⟨source, event, target⟩)⟩) ∧
      (¬Cyclic m source → commits (since i older) ≠ [] → ev.after.calls[i]? = some ⟨event, .returned
          (.failed ⟨.concurrentTransition, source, some event, some target, none⟩)⟩)) h := by
  refine hr.always (I := Run (step m) (.new initial)) .nil
    (fun h y l y' hr hs => .snoc hr hs) ?_
  rintro h y l y' hr hs i event source target rfl hi
  have hpath := since_of_run hr i _ source hi rfl
  rcases commit_of_move (move_of_step hs) hi with ⟨hcur, hok⟩ | ⟨hne, hfailed⟩
  · refine ⟨fun _ => hok, fun hacyclic hcommits => ?_⟩
    -- The machine is back: what was committed leads around a cycle.
    rw [hcur] at hpath
    exact absurd ⟨_, hcommits, hpath⟩ hacyclic
  · refine ⟨fun hnone => ?_, fun _ _ => hfailed⟩
    rw [hnone] at hpath
    cases hpath
    exact absurd rfl hne

end Runs

theorem not_cyclic_of_no_target {m : Machine S E} {s : S} (h : ∀ t ∈ m.transitions, t.target ≠ s) :
    ¬Cyclic m s := by
  rintro ⟨rs, hne, hpath⟩
  cases hpath with
  | nil => exact hne rfl
  | snoc _ hallows =>
    obtain ⟨-, t, ht, -, -, htarget⟩ := hallows
    exact h t ht htarget

/-- Two calls have read the first of two states, and one of them has committed: the other one finds
the conflict. -/
theorem conflict_found_two :
    ∃ (h : List (Ev Bool Unit)) (y : Sys Bool Unit),
      Run (step ⟨[⟨false, (), true, true⟩], []⟩) (.new false) h y ∧
      ∃ ev older, h = ev :: older ∧ ev.label = .commit 1 ∧
        commits (since 1 older) = [⟨false, (), true⟩] ∧
        ev.after.calls[1]? = some ⟨(), .returned
          (.failed ⟨.concurrentTransition, false, some (), some true, none⟩)⟩ := by
  obtain ⟨h, y, hr, ev, older, rfl, hlabel, hbefore, hcommits⟩ := exists_run
    (step (S := Bool) (E := Unit) ⟨[⟨false, (), true, true⟩], []⟩) (.new false)
    [.call (), .call (), .lookup 0 false, .lookup 1 false, .guard 1 (.accepted false),
      .guard 0 (.accepted false), .commit 0, .commit 1]
    (fun h _ => ∃ ev older, h = ev :: older ∧ ev.label = .commit 1 ∧
      ev.before.calls[1]? = some ⟨(), .committing false true⟩ ∧
      commits (since 1 older) = [⟨false, (), true⟩])
    (by decide +kernel)
  have hacyclic : ¬Cyclic (S := Bool) (E := Unit) ⟨[⟨false, (), true, true⟩], []⟩ false :=
    not_cyclic_of_no_target (by decide)
  have hfound := conflict_found hr older ev (suffix_refl _) 1 () false true hlabel hbefore
  refine ⟨_, y, hr, ev, older, rfl, hlabel, hcommits, hfound.2 hacyclic ?_⟩
  rw [hcommits]
  exact cons_ne_nil _ _

/-- **A transition from a state to itself is not noticed.** Two calls have read the state, and their
guards decide; the second one commits, and then the first one does as well. -/
theorem self_loop_unnoticed :
    newMachine () [⟨(), (), (), true⟩] [] = .ok ⟨[⟨(), (), (), true⟩], []⟩ ∧
    ∃ (h : List (Ev Unit Unit)) (y : Sys Unit Unit),
      Run (step ⟨[⟨(), (), (), true⟩], []⟩) (.new ()) h y ∧
      ∃ ev older, h = ev :: older ∧ ev.label = .commit 0 ∧
        commits (since 0 older) = [⟨(), (), ()⟩] ∧
        ev.after.calls[0]? = some ⟨(), .returned (.ok ⟨(), (), ()⟩)⟩ := by
  refine ⟨by decide, ?_⟩
  exact exists_run _ _
    [.call (), .call (), .lookup 0 false, .lookup 1 false, .guard 1 (.accepted false), .commit 1,
      .guard 0 (.accepted false), .commit 0] _ (by decide +kernel)

end Bluetape.StateMachine
