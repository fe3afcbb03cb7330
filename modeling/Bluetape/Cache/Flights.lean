import Bluetape.Cache.Memory

/-!
# Loading through the process-local cache

Any number of goroutines call `Get`, `Set`, `Delete`, `Clear` and `GetOrLoad` on one `cache.Memory`.
`GetOrLoad` of a key that is not there joins the flight of the key, or starts one: a goroutine that
looks again, runs the loader, stores what it returns and hands it to all who joined. Deleting a key
drops its value and the name of its flight, so that who comes later does not join the flight – but
the flight itself goes on, and stores its value when the loader returns. So a deletion can be
undone: a value from before it is back, and who starts after it has returned gets it
(`delete_undone`).

That is the only way. A value that is returned was not loaded before a deletion that had returned
when the call started (`Fresh`), in every run in which no flight stores a value (`StaleStore`) whose
loader was started before a deletion that has taken effect began (`fresh_of_no_stale_store`).

The system is one step per critical section – of the cache's mutex or of the `singleflight`
group – and per thing that the environment does: a call begins or gives up, a loader returns.
What a clock reads and whether a context is done are in the labels.
-/

namespace Bluetape.Cache

open Lts Function Option

/-! ### Calls and flights -/

inductive Failure where
  | context
  | loader
  deriving DecidableEq, Repr

inductive Phase (V : Type) where
  | entered
  | missed
  /-- The loader, started at `since`, is running. -/
  | loading (since : ℕ)
  | loaded (item : Item V)
  | failing (e : Failure)
  | finishing (result : Except Failure (Item V))
  | done (result : Except Failure (Item V))

structure Flight (K V : Type) where
  key : K
  /-- Its name, `flightKey`. -/
  name : ℕ
  /-- The `ttl` of the call that started it. -/
  ttl : ℤ
  phase : Phase V

/-- A call under way. The calls that return a value carry the log's `returned` of their key
as it was when they started, their `fence`. -/
inductive Call (K V : Type) where
  /-- A `Get`. -/
  | get (k : K) (fence : ℕ)
  /-- A `Set`. -/
  | set (k : K) (v : V) (ttl : ℤ)
  /-- A `Delete` or `Clear` that began at `begun`. -/
  | erasing (scope : Scope K) (begun : ℕ)
  | erased (scope : Scope K) (begun : ℕ)
  /-- A `GetOrLoad`, about to look the key up. -/
  | checking (k : K) (ttl : ℤ) (fence : ℕ)
  | naming (k : K) (ttl : ℤ) (fence : ℕ)
  | joining (k : K) (ttl : ℤ) (fence : ℕ) (name : ℕ)
  | waiting (k : K) (ttl : ℤ) (fence : ℕ) (name : ℕ) (flight : ℕ)

inductive Op (K V : Type) where
  | get (k : K)
  | set (k : K) (v : V) (ttl : ℤ)
  | delete (k : K)
  | clear
  | getOrLoad (k : K) (ttl : ℤ)

structure Sys (ι K V : Type) where
  memory : Memory K V
  /-- The `singleflight` group: the flight that runs under each name. -/
  group : ℕ → Option ℕ
  flights : List (Flight K V)
  calls : ι → Option (Call K V)
  log : Log K

def Sys.new (ι K V : Type) : Sys ι K V := ⟨.new, fun _ => none, [], fun _ => none, .new⟩

variable {ι K V : Type} [DecidableEq ι] [DecidableEq K]

/-! ### What a goroutine does -/

/-- The goroutine goes on with its call, or has returned from it. -/
def Sys.setCall (y : Sys ι K V) (i : ι) (c : Option (Call K V)) : Sys ι K V :=
  { y with calls := update y.calls i c }

/-- `validateTTL`: a call that fails it returns at once. -/
def validTTL (ttl : ℤ) : Bool := !decide (ttl < 0)

def Log.begin (l : Log K) : Op K V → Option (Call K V)
  | .get k => some (.get k (l.returned k))
  | .set k v ttl => if validTTL ttl then some (.set k v ttl) else none
  | .delete k => some (.erasing (.key k) l.time)
  | .clear => some (.erasing .all l.time)
  | .getOrLoad k ttl => if validTTL ttl then some (.checking k ttl (l.returned k)) else none

def Sys.begin (y : Sys ι K V) (i : ι) (op : Op K V) : Option (Sys ι K V) :=
  match y.calls i, y.log.begin op with
  | none, some c => some (y.setCall i (some c))
  | _, _ => none

def Call.mayLeave : Call K V → Bool
  | .get _ _ | .set _ _ _ | .erasing _ _ | .checking _ _ _ | .waiting _ _ _ _ _ => true
  | .erased _ _ | .naming _ _ _ | .joining _ _ _ _ => false

/-- A call returns because its context is done; a deletion has not taken effect then. -/
def Sys.leave (y : Sys ι K V) (i : ι) : Option (Sys ι K V) :=
  if (y.calls i).any Call.mayLeave then some (y.setCall i none) else none

/-- `Get`, of its own or at the start of a `GetOrLoad`, with the clock at `now`. -/
def Sys.read (y : Sys ι K V) (i : ι) (now : ℤ) : Option (Sys ι K V) :=
  match y.calls i with
  | some (.get k _) => some ({ y with memory := (y.memory.get now k).1 }.setCall i none)
  | some (.checking k ttl fence) =>
    some ({ y with memory := (y.memory.get now k).1 }.setCall i
      (if (y.memory.get now k).2.isSome then none else some (.naming k ttl fence)))
  | _ => none

/-- `Set`, with the clock at `now`. -/
def Sys.write (y : Sys ι K V) (i : ι) (now : ℤ) : Option (Sys ι K V) :=
  match y.calls i with
  | some (.set k v ttl) =>
    some ({ y with memory := y.memory.set now k ⟨v, none⟩ ttl }.setCall i none)
  | _ => none

def Sys.erase (y : Sys ι K V) (i : ι) : Option (Sys ι K V) :=
  match y.calls i with
  | some (.erasing scope begun) =>
    some ({ y with memory := y.memory.erase scope, log := y.log.erase scope begun }.setCall i
      (some (.erased scope begun)))
  | _ => none

def Sys.finish (y : Sys ι K V) (i : ι) : Option (Sys ι K V) :=
  match y.calls i with
  | some (.erased scope begun) =>
    some ({ y with log := y.log.finish scope begun }.setCall i none)
  | _ => none

/-- `flightKey`. -/
def Sys.name (y : Sys ι K V) (i : ι) : Option (Sys ι K V) :=
  match y.calls i with
  | some (.naming k ttl fence) =>
    some ({ y with
      memory := (y.memory.flightKey k).1
      log := y.log.bear (y.memory.flightKey k).2 k }.setCall i
      (some (.joining k ttl fence (y.memory.flightKey k).2)))
  | _ => none

def Sys.launch (y : Sys ι K V) (k : K) (name : ℕ) (ttl : ℤ) : Sys ι K V :=
  { y with
    group := update y.group name (some y.flights.length)
    flights := y.flights ++ [⟨k, name, ttl, .entered⟩] }

/-- `DoChan`. -/
def Sys.join (y : Sys ι K V) (i : ι) : Option (Sys ι K V) :=
  match y.calls i with
  | some (.joining k ttl fence name) =>
    match y.group name with
    | some n => some (y.setCall i (some (.waiting k ttl fence name n)))
    | none =>
      some ((y.launch k name ttl).setCall i (some (.waiting k ttl fence name y.flights.length)))
  | _ => none

def Sys.result (y : Sys ι K V) (n : ℕ) : Option (Except Failure (Item V)) :=
  (y.flights[n]?).bind fun f =>
    match f.phase with
    | .done result => some result
    | _ => none

/-- The result of the flight is received. With `retry` it is the error of another call's
context: the flight is forgotten, and the call starts again. -/
def Sys.receive (y : Sys ι K V) (i : ι) (retry : Bool) : Option (Sys ι K V) :=
  match y.calls i with
  | some (.waiting k ttl fence name n) =>
    match y.result n with
    | none => none
    | some result =>
      if retry then
        match result with
        | .error .context =>
          some ({ y with group := update y.group name none }.setCall i (some (.naming k ttl fence)))
        | _ => none
      else some (y.setCall i none)
  | _ => none

/-! ### What a flight does -/

inductive FlightAction (V : Type) where
  /-- `Get`, with the clock at `now`. -/
  | get (now : ℤ)
  | load
  | loaded (v : V)
  | loadFailed (e : Failure)
  /-- `Set`, with the clock at `now`. -/
  | store (now : ℤ)
  /-- The context is done, before the lookup, the loader or `Set`. -/
  | cancelled
  /-- `deleteFlightKey`. -/
  | forgetKey
  | finish

def Sys.setPhase (y : Sys ι K V) (n : ℕ) (f : Flight K V) (p : Phase V) : Sys ι K V :=
  { y with flights := y.flights.set n { f with phase := p } }

/-- **One step of the function that a flight runs.** -/
def Sys.fly (y : Sys ι K V) (n : ℕ) (f : Flight K V) (a : FlightAction V) :
    Option (Sys ι K V) :=
  match f.phase, a with
  | .entered, .get now =>
    some ({ y with memory := (y.memory.get now f.key).1 }.setPhase n f
      (match (y.memory.get now f.key).2 with
        | some item => .finishing (.ok item)
        | none => .missed))
  | .missed, .load => some (y.setPhase n f (.loading y.log.time))
  | .loading since, .loaded v => some (y.setPhase n f (.loaded ⟨v, some since⟩))
  | .loading _, .loadFailed e => some (y.setPhase n f (.failing e))
  | .loaded item, .store now =>
    some ({ y with memory := y.memory.set now f.key item f.ttl }.setPhase n f
      (.finishing (.ok item)))
  | .entered, .cancelled | .missed, .cancelled | .loaded _, .cancelled =>
    some (y.setPhase n f (.failing .context))
  | .failing e, .forgetKey =>
    some ({ y with memory := y.memory.deleteFlightKey f.key }.setPhase n f (.finishing (.error e)))
  | .finishing result, .finish =>
    some ({ y with
      group := if y.group f.name = some n then update y.group f.name none
        else y.group }.setPhase n f (.done result))
  | _, _ => none

/-! ### The system -/

inductive Action (ι K V : Type) where
  | begin (i : ι) (op : Op K V)
  | leave (i : ι)
  | read (i : ι) (now : ℤ)
  | write (i : ι) (now : ℤ)
  | erase (i : ι)
  | finish (i : ι)
  | name (i : ι)
  | join (i : ι)
  | receive (i : ι) (retry : Bool)
  | flight (n : ℕ) (a : FlightAction V)

def Sys.act (y : Sys ι K V) : Action ι K V → Option (Sys ι K V)
  | .begin i op => y.begin i op
  | .leave i => y.leave i
  | .read i now => y.read i now
  | .write i now => y.write i now
  | .erase i => y.erase i
  | .finish i => y.finish i
  | .name i => y.name i
  | .join i => y.join i
  | .receive i retry => y.receive i retry
  | .flight n a => (y.flights[n]?).bind fun f => y.fly n f a

def Sys.tick (y : Sys ι K V) : Sys ι K V := { y with log := y.log.tick }

/-- **One step.** -/
def step (y : Sys ι K V) (a : Action ι K V) : Option (Sys ι K V) := (y.act a).map Sys.tick

/-- The value that a `Get` or `GetOrLoad` returns in this step, with the fence of the call. -/
def reply (y : Sys ι K V) : Action ι K V → Option (ℕ × Item V)
  | .read i now =>
    match y.calls i with
    | some (.get k fence) => (y.memory.get now k).2.map fun item => (fence, item)
    | some (.checking k _ fence) => (y.memory.get now k).2.map fun item => (fence, item)
    | _ => none
  | .receive i false =>
    match y.calls i with
    | some (.waiting _ _ fence _ n) =>
      match y.result n with
      | some (.ok item) => some (fence, item)
      | _ => none
    | _ => none
  | _ => none

/-- **What is returned is not stale**: it was not loaded before the beginning of a deletion
of the key that had returned when the call started. -/
def Fresh (ev : Event (Sys ι K V) (Action ι K V)) : Prop :=
  ∀ fence item, reply ev.before ev.label = some (fence, item) → item.Since fence

instance instDecidableFresh (ev : Event (Sys ι K V) (Action ι K V)) : Decidable (Fresh ev) :=
  decidable_of_iff ((reply ev.before ev.label).all fun r => decide (r.2.Since r.1)) (by
    rw [Option.all_eq_true]
    constructor
    · exact fun h fence item hreply => of_decide_eq_true (h (fence, item) hreply)
    · exact fun h r hreply => decide_eq_true (h r.1 r.2 hreply))

def Phase.toStore : Phase V → Option (Item V)
  | .loaded item => some item
  | _ => none

/-- The value that is stored in this step by a flight, with its key. -/
def stored (y : Sys ι K V) : Action ι K V → Option (K × Item V)
  | .flight n (.store _) =>
    (y.flights[n]?).bind fun f => f.phase.toStore.map fun item => (f.key, item)
  | _ => none

variable {k : K} {item : Item V}

omit [DecidableEq ι] [DecidableEq K] in
theorem stored_eq_some {y : Sys ι K V} {a : Action ι K V} :
    stored y a = some (k, item) ↔ ∃ n now f, a = .flight n (.store now) ∧
      y.flights[n]? = some f ∧ f.phase = .loaded item ∧ f.key = k := by
  constructor
  · intro h
    unfold stored at h
    split at h
    next n now =>
      obtain ⟨f, hf, hitem⟩ := bind_eq_some_iff.mp h
      obtain ⟨item', hphase, ⟨⟩⟩ := map_eq_some_iff.mp hitem
      refine ⟨n, now, f, rfl, hf, ?_, rfl⟩
      cases hp : f.phase with
      | loaded item'' =>
        rw [hp] at hphase
        rw [Option.some.inj hphase]
      | _ =>
        rw [hp] at hphase
        exact nomatch hphase
    next => cases h
  · rintro ⟨n, now, f, rfl, hf, hphase, rfl⟩
    simp [stored, hf, hphase, Phase.toStore]

/-- **A flight stores a value from before a deletion**: its loader was started before a
deletion of the key began that has taken effect. -/
def StaleStore (ev : Event (Sys ι K V) (Action ι K V)) : Prop :=
  ∃ k item, stored ev.before ev.label = some (k, item) ∧
    ¬ item.Since (ev.before.log.erased k)

instance instDecidableStaleStore (ev : Event (Sys ι K V) (Action ι K V)) :
    Decidable (StaleStore ev) :=
  decidable_of_iff ((stored ev.before ev.label).any fun r =>
      !decide (r.2.Since (ev.before.log.erased r.1))) (by
    rw [Option.any_eq_true]
    constructor
    · rintro ⟨r, hr, hnot⟩
      exact ⟨r.1, r.2, hr, by simpa using hnot⟩
    · rintro ⟨k, item, hr, hnot⟩
      exact ⟨(k, item), hr, by simpa using hnot⟩)

/-! ### What holds of calls and flights -/

def Sys.nameOf (y : Sys ι K V) (n : ℕ) : Option ℕ := (y.flights[n]?).map Flight.name

/-- The name was made for the key, after every deletion that the fence is about. -/
def NamedSince (l : Log K) (k : K) (fence name : ℕ) : Prop :=
  ∃ e, l.births name = some (k, e) ∧ fence ≤ e

def Call.Ok (l : Log K) (nameOf : ℕ → Option ℕ) : Call K V → Prop
  | .get k fence => fence ≤ l.returned k
  | .set _ _ _ => True
  | .erasing _ begun => begun ≤ l.time
  | .erased scope begun => ∀ k, scope.covers k = true → begun ≤ l.erased k
  | .checking k _ fence => fence ≤ l.returned k
  | .naming k _ fence => fence ≤ l.returned k
  | .joining k _ fence name => fence ≤ l.returned k ∧ NamedSince l k fence name
  | .waiting k _ fence name n =>
    fence ≤ l.returned k ∧ NamedSince l k fence name ∧ nameOf n = some name

/-- What a flight has loaded, or is loading, is from after `e`. -/
def Phase.Since (e : ℕ) : Phase V → Prop
  | .entered | .missed | .failing _ => True
  | .loading since => e ≤ since
  | .loaded item => item.Since e
  | .finishing result | .done result => ∀ item, result = .ok item → item.Since e

/-- What holds of a flight: it was started under a name of its key, and what it has is from
after the name was made. -/
def Flight.Ok (l : Log K) (f : Flight K V) : Prop :=
  ∃ e, l.births f.name = some (f.key, e) ∧ f.phase.Since e

section

variable {l l' : Log K}

omit [DecidableEq K] in
theorem NamedSince.mono {k : K} {fence name : ℕ} (h : NamedSince l k fence name)
    (hle : l.Le l') : NamedSince l' k fence name := by
  obtain ⟨e, hbirth, he⟩ := h
  exact ⟨e, hle.births_eq name _ hbirth, he⟩

theorem Call.Ok.mono {nameOf nameOf' : ℕ → Option ℕ} {c : Call K V} (h : c.Ok l nameOf)
    (hle : l.Le l') (hnames : ∀ n x, nameOf n = some x → nameOf' n = some x) :
    c.Ok l' nameOf' := by
  cases c with
  | get k fence => exact le_trans h (hle.returned_le k)
  | set k v ttl => trivial
  | erasing scope begun => exact le_trans h hle.time_le
  | erased scope begun => exact fun k hk => (h k hk).trans (hle.erased_le k)
  | checking k ttl fence | naming k ttl fence => exact le_trans h (hle.returned_le k)
  | joining k ttl fence name => exact ⟨h.1.trans (hle.returned_le k), h.2.mono hle⟩
  | waiting k ttl fence name n =>
    exact ⟨h.1.trans (hle.returned_le k), h.2.1.mono hle, hnames n name h.2.2⟩

omit [DecidableEq K] in
theorem Flight.Ok.mono {f : Flight K V} (h : f.Ok l) (hle : l.Le l') : f.Ok l' := by
  obtain ⟨e, hbirth, hsince⟩ := h
  exact ⟨e, hle.births_eq _ _ hbirth, hsince⟩

end

/-- **What holds of every state**, as long as no flight stores a stale value. -/
structure Inv (y : Sys ι K V) : Prop where
  log_ok : y.log.Ok
  memory_ok : y.memory.Ok y.log
  group_ok : ∀ x n, y.group x = some n → y.nameOf n = some x
  calls_ok : ∀ i c, y.calls i = some c → c.Ok y.log y.nameOf
  flights_ok : ∀ (n : ℕ) (f : Flight K V), y.flights[n]? = some f → f.Ok y.log

variable {y y' : Sys ι K V}

omit [DecidableEq ι] in
theorem inv_new : Inv (.new ι K V) where
  log_ok := Log.ok_new
  memory_ok := Memory.ok_new
  group_ok := nofun
  calls_ok := nofun
  flights_ok := nofun

section

variable (h : Inv y)
include h

omit [DecidableEq ι] in
theorem Inv.tick : Inv y.tick where
  log_ok := h.log_ok.tick
  memory_ok := h.memory_ok.tick
  group_ok := h.group_ok
  calls_ok := fun i c hc => (h.calls_ok i c hc).mono Log.le_tick fun _ _ hn => hn
  flights_ok := fun n f hf => (h.flights_ok n f hf).mono Log.le_tick

/-- **A goroutine's step keeps it**: the log goes on, and the call it is in then is as it
should be. -/
theorem Inv.call {m : Memory K V} {l : Log K} {group : ℕ → Option ℕ} (i : ι)
    {c : Option (Call K V)} (hle : y.log.Le l) (hl : l.Ok) (hm : m.Ok l)
    (hgroup : ∀ x n, group x = some n → y.group x = some n)
    (hc : ∀ c', c = some c' → c'.Ok l y.nameOf) :
    Inv ({ y with memory := m, log := l, group := group }.setCall i c) where
  log_ok := hl
  memory_ok := hm
  group_ok := fun x n hx => h.group_ok x n (hgroup x n hx)
  calls_ok := fun j c' hj => by
    change update y.calls i c j = some c' at hj
    by_cases hji : j = i
    · rw [hji, update_self] at hj
      exact hc c' hj
    · rw [update_of_ne hji] at hj
      exact (h.calls_ok j c' hj).mono hle fun _ _ hn => hn
  flights_ok := fun n f hf => (h.flights_ok n f hf).mono hle

theorem Inv.setCall (i : ι) {c : Option (Call K V)}
    (hc : ∀ c', c = some c' → c'.Ok y.log y.nameOf) : Inv (y.setCall i c) :=
  h.call i (Log.Le.refl _) h.log_ok h.memory_ok (fun _ _ hx => hx) hc

variable {f : Flight K V}

omit h in
omit [DecidableEq ι] [DecidableEq K] in
theorem nameOf_setPhase {n : ℕ} {p : Phase V} (hf : y.flights[n]? = some f) :
    (y.setPhase n f p).nameOf = y.nameOf := by
  funext k
  simp only [Sys.nameOf, Sys.setPhase, List.getElem?_set]
  split_ifs with hk hlen
  · subst hk
    rw [hf]
    rfl
  · rw [List.getElem?_eq_none (not_lt.mp hlen)] at hf
    cases hf
  · rfl

omit [DecidableEq ι] in
/-- **A flight's step keeps it** if what it has then is from after its name. -/
theorem Inv.flight {m : Memory K V} {group : ℕ → Option ℕ} {n : ℕ} {p : Phase V}
    (hf : y.flights[n]? = some f) (hm : m.Ok y.log)
    (hgroup : ∀ x n, group x = some n → y.group x = some n)
    (hp : ∀ e, e ≤ y.log.erased f.key → f.phase.Since e → p.Since e) :
    Inv ({ y with memory := m, group := group }.setPhase n f p) where
  log_ok := h.log_ok
  memory_ok := hm
  group_ok := fun x k hx => by
    rw [nameOf_setPhase (y := { y with memory := m, group := group }) hf]
    exact h.group_ok x k (hgroup x k hx)
  calls_ok := fun i c hc => by
    rw [nameOf_setPhase (y := { y with memory := m, group := group }) hf]
    exact h.calls_ok i c hc
  flights_ok := fun k f' hk => by
    change (y.flights.set n { f with phase := p })[k]? = some f' at hk
    rw [List.getElem?_set] at hk
    split_ifs at hk with hkn
    · cases hk
      obtain ⟨e, hbirth, hsince⟩ := h.flights_ok n f hf
      exact ⟨e, hbirth, hp e (h.log_ok.birth_le_erased _ _ e hbirth) hsince⟩
    · exact h.flights_ok k f' hk

/-! ### The steps of a goroutine -/

variable {i : ι}

theorem inv_begin {op : Op K V} (hact : y.begin i op = some y') : Inv y' := by
  unfold Sys.begin at hact
  split at hact <;> cases hact
  next c _ hop =>
  refine h.setCall i ?_
  rintro c' ⟨⟩
  cases op with
  | get | delete | clear =>
    cases hop
    exact le_rfl
  | set k v ttl =>
    obtain ⟨-, ⟨⟩⟩ := ite_none_right_eq_some.mp hop
    trivial
  | getOrLoad k ttl =>
    obtain ⟨-, ⟨⟩⟩ := ite_none_right_eq_some.mp hop
    exact le_rfl

theorem inv_leave (hact : y.leave i = some y') : Inv y' := by
  unfold Sys.leave at hact
  split_ifs at hact
  cases hact
  exact h.setCall i nofun

theorem inv_read {now : ℤ} (hact : y.read i now = some y') : Inv y' := by
  unfold Sys.read at hact
  split at hact
  next k fence hcall =>
    cases hact
    exact h.call i (Log.Le.refl _) h.log_ok (h.memory_ok.get now k).1 (fun _ _ hx => hx) nofun
  next k ttl fence hcall =>
    cases hact
    refine h.call i (Log.Le.refl _) h.log_ok (h.memory_ok.get now k).1 (fun _ _ hx => hx)
      fun c hc => ?_
    split_ifs at hc
    cases hc
    have hfence : fence ≤ y.log.returned k := h.calls_ok i _ hcall
    exact hfence
  next => cases hact

theorem inv_write {now : ℤ} (hact : y.write i now = some y') : Inv y' := by
  unfold Sys.write at hact
  split at hact
  next k v ttl hcall =>
    cases hact
    -- what a caller sets comes from no loader
    exact h.call i (Log.Le.refl _) h.log_ok (h.memory_ok.set nofun) (fun _ _ hx => hx) nofun
  next => cases hact

theorem inv_erase (hact : y.erase i = some y') : Inv y' := by
  unfold Sys.erase at hact
  split at hact
  next scope begun hcall =>
    cases hact
    refine h.call i Log.le_erase (h.log_ok.erase (h.calls_ok i _ hcall)) h.memory_ok.erase
      (fun _ _ hx => hx) fun c hc => ?_
    cases hc
    exact fun k hk => Log.begun_le_erase hk
  next => cases hact

theorem inv_finish (hact : y.finish i = some y') : Inv y' := by
  unfold Sys.finish at hact
  split at hact
  next scope begun hcall =>
    cases hact
    exact h.call i Log.le_finish (h.log_ok.finish (h.calls_ok i _ hcall)) h.memory_ok.finish
      (fun _ _ hx => hx) nofun
  next => cases hact

theorem inv_name (hact : y.name i = some y') : Inv y' := by
  unfold Sys.name at hact
  split at hact
  next k ttl fence hcall =>
    cases hact
    obtain ⟨hm, hl, hle, hbirth⟩ := h.memory_ok.flightKey (k := k) h.log_ok
    refine h.call i hle hl hm (fun _ _ hx => hx) fun c hc => ?_
    cases hc
    -- the name is from after every deletion that has taken effect, so from after the fence
    have hfence : fence ≤ y.log.returned k := h.calls_ok i _ hcall
    exact ⟨hfence.trans (hle.returned_le k), y.log.erased k, hbirth,
      hfence.trans (h.log_ok.returned_le_erased k)⟩
  next => cases hact

end

variable {ttl : ℤ}

omit [DecidableEq ι] [DecidableEq K] in
theorem nameOf_launch_of_some {name n x : ℕ} (h : y.nameOf n = some x) :
    (y.launch k name ttl).nameOf n = some x := by
  obtain ⟨f, hf, rfl⟩ := map_eq_some_iff.mp h
  rw [Sys.nameOf, Sys.launch, List.getElem?_append_left (List.getElem?_eq_some_iff.mp hf).1, hf]
  rfl

omit [DecidableEq ι] [DecidableEq K] in
theorem nameOf_launch_self {name : ℕ} :
    (y.launch k name ttl).nameOf y.flights.length = some name := by
  simp [Sys.nameOf, Sys.launch]

omit [DecidableEq ι] in
theorem Inv.launch (h : Inv y) {name e : ℕ} (hbirth : y.log.births name = some (k, e)) :
    Inv (y.launch k name ttl) where
  log_ok := h.log_ok
  memory_ok := h.memory_ok
  group_ok := fun x n hx => by
    rcases update_eq_some hx with ⟨rfl, rfl⟩ | ⟨-, hx'⟩
    · exact nameOf_launch_self
    · exact nameOf_launch_of_some (h.group_ok x n hx')
  calls_ok := fun i c hc =>
    (h.calls_ok i c hc).mono (Log.Le.refl _) fun _ _ hn => nameOf_launch_of_some hn
  flights_ok := forall_getElem?_concat h.flights_ok ⟨e, hbirth, trivial⟩

theorem inv_join (h : Inv y) (hact : y.join i = some y') : Inv y' := by
  unfold Sys.join at hact
  split at hact
  · next name hcall =>
    obtain ⟨hfence, hnamed⟩ := h.calls_ok i _ hcall
    split at hact <;> cases hact
    · next n hgroup =>
      refine h.setCall i ?_
      rintro c ⟨⟩
      exact ⟨hfence, hnamed, h.group_ok name n hgroup⟩
    · obtain ⟨e, hbirth, -⟩ := id hnamed
      refine (h.launch hbirth).setCall i ?_
      rintro c ⟨⟩
      exact ⟨hfence, hnamed, nameOf_launch_self⟩
  · cases hact

theorem inv_receive (h : Inv y) {retry : Bool} (hact : y.receive i retry = some y') : Inv y' := by
  unfold Sys.receive at hact
  split at hact
  · next hcall =>
    split at hact
    · cases hact
    · split at hact
      · split at hact <;> cases hact
        refine h.call i (Log.Le.refl _) h.log_ok h.memory_ok
          (fun _ _ hx => (update_none_eq_some hx).2) fun c hc => ?_
        cases hc
        exact (h.calls_ok i _ hcall).1
      · cases hact
        exact h.setCall i nofun
  · cases hact

/-! ### The steps of a flight -/

omit [DecidableEq ι] in
theorem inv_fly (h : Inv y) {n : ℕ} (hf : y.flights[n]? = some f) {a : FlightAction V}
    (hstore : ∀ now item, a = .store now → f.phase = .loaded item → item.Since (y.log.erased f.key))
    (hact : y.fly n f a = some y') : Inv y' := by
  unfold Sys.fly at hact
  -- one case for each line of `fly`
  split at hact <;> cases hact
  · next now hphase =>
    obtain ⟨hm, hread⟩ := h.memory_ok.get now f.key
    refine h.flight hf hm (fun _ _ hx => hx) fun e he _ => ?_
    cases hitem : (y.memory.get now f.key).2 with
    | none => trivial
    | some item =>
      rintro item' ⟨⟩
      exact (hread item hitem).mono he
  · exact h.flight hf h.memory_ok (fun _ _ hx => hx)
      fun e he _ => he.trans (h.log_ok.erased_le_time f.key)
  · next hphase =>
    refine h.flight hf h.memory_ok (fun _ _ hx => hx) fun e _ hsince => ?_
    rintro s ⟨⟩
    rw [hphase] at hsince
    exact hsince
  · exact h.flight hf h.memory_ok (fun _ _ hx => hx) fun _ _ _ => trivial
  · next item now hphase =>
    refine h.flight hf (h.memory_ok.set (hstore now item rfl hphase)) (fun _ _ hx => hx)
      fun e _ hsince => ?_
    rintro item' ⟨⟩
    rw [hphase] at hsince
    exact hsince
  · exact h.flight hf h.memory_ok (fun _ _ hx => hx) fun _ _ _ => trivial
  · exact h.flight hf h.memory_ok (fun _ _ hx => hx) fun _ _ _ => trivial
  · exact h.flight hf h.memory_ok (fun _ _ hx => hx) fun _ _ _ => trivial
  · exact h.flight hf h.memory_ok.deleteFlightKey (fun _ _ hx => hx) nofun
  · next result hphase =>
    refine h.flight hf h.memory_ok (fun x k hx => ?_) fun e _ hsince => ?_
    · split_ifs at hx
      · exact (update_none_eq_some hx).2
      · exact hx
    · rw [hphase] at hsince
      exact hsince

/-! ### Whole runs -/

theorem inv_step (h : Inv y) {a : Action ι K V} (hstep : step y a = some y')
    (hstale : ¬ StaleStore ⟨y, a, y'⟩) : Inv y' := by
  obtain ⟨z, hact, rfl⟩ := map_eq_some_iff.mp hstep
  refine Inv.tick ?_
  cases a with
  | begin i op => exact inv_begin h hact
  | leave i => exact inv_leave h hact
  | read i now => exact inv_read h hact
  | write i now => exact inv_write h hact
  | erase i => exact inv_erase h hact
  | finish i => exact inv_finish h hact
  | name i => exact inv_name h hact
  | join i => exact inv_join h hact
  | receive i retry => exact inv_receive h hact
  | flight n a =>
    obtain ⟨f, hf, hfly⟩ := bind_eq_some_iff.mp hact
    refine inv_fly h hf (fun now item ha hphase => ?_) hfly
    by_contra hnot
    exact hstale ⟨f.key, item, stored_eq_some.mpr ⟨n, now, f, by rw [ha], hf, hphase, rfl⟩, hnot⟩

omit [DecidableEq ι] in
/-- What a flight hands to a call that waits for it is from after the call's fence. -/
theorem Inv.since_result (h : Inv y) {fence name n : ℕ}
    (hcall : y.calls i = some (.waiting k ttl fence name n))
    (hresult : y.result n = some (.ok item)) : item.Since fence := by
  obtain ⟨-, ⟨e, hbirth, hfence⟩, hname⟩ := h.calls_ok i _ hcall
  obtain ⟨f, hf, hdone⟩ := bind_eq_some_iff.mp hresult
  obtain ⟨e', hbirth', hsince⟩ := h.flights_ok n f hf
  rw [Sys.nameOf, hf, Option.map_some] at hname
  rw [Option.some.inj hname, hbirth] at hbirth'
  cases hbirth'
  split at hdone
  next result hphase =>
    cases hdone
    rw [hphase] at hsince
    exact (hsince item rfl).mono hfence
  next => cases hdone

omit [DecidableEq ι] in
theorem Inv.since_read (h : Inv y) {fence : ℕ} {now : ℤ} (hfence : fence ≤ y.log.returned k)
    (hread : (y.memory.get now k).2 = some item) : item.Since fence :=
  ((h.memory_ok.get now k).2 item hread).mono (hfence.trans (h.log_ok.returned_le_erased k))

omit [DecidableEq ι] in
/-- **What is returned is not stale**, in a state where nothing is. -/
theorem Inv.fresh (h : Inv y) (a : Action ι K V) (y' : Sys ι K V) : Fresh ⟨y, a, y'⟩ := by
  intro fence item hreply
  dsimp only at hreply
  unfold reply at hreply
  split at hreply
  · next i now =>
    split at hreply
    · next hcall =>
      obtain ⟨item', hread, ⟨⟩⟩ := map_eq_some_iff.mp hreply
      exact h.since_read (h.calls_ok i _ hcall) hread
    · next hcall =>
      obtain ⟨item', hread, ⟨⟩⟩ := map_eq_some_iff.mp hreply
      exact h.since_read (h.calls_ok i _ hcall) hread
    · cases hreply
  · split at hreply
    · next hcall =>
      split at hreply <;> cases hreply
      next hresult => exact h.since_result hcall hresult
    · cases hreply
  · cases hreply

/-- **No deletion is undone if no flight stores a value from before one**: whatever a `Get`
or `GetOrLoad` returns was not produced by a loader that was started before a deletion of
the key that had returned when the call started. -/
theorem fresh_of_no_stale_store {h : List (Event (Sys ι K V) (Action ι K V))}
    (hr : Run step (.new ι K V) h y) (hstale : ∀ ev ∈ h, ¬ StaleStore ev) :
    ∀ ev ∈ h, Fresh ev := by
  have hall : Inv y ∧ ∀ ev ∈ h, Fresh ev :=
    hr.invariant_of (P := fun h y => Inv y ∧ ∀ ev ∈ h, Fresh ev)
      (always_iff_forall_mem.mpr hstale) ⟨inv_new, by simp⟩
      fun _ _ _ _ hinv hstep hnot =>
        ⟨inv_step hinv.1 hstep hnot, List.forall_mem_cons.mpr ⟨hinv.1.fresh _ _, hinv.2⟩⟩
  exact hall.2

/-! ### A load, a deletion, and another load -/

/-- A goroutine loads a key: from the call to the result, through the flight `n`. -/
def loadThrough (i : Fin 2) (n v : ℕ) : List (Action (Fin 2) Unit ℕ) :=
  [.begin i (.getOrLoad () 0), .read i 0, .name i, .join i, .flight n (.get 0), .flight n .load,
    .flight n (.loaded v), .flight n (.store 0), .flight n .finish, .receive i false]

/-- After a load and a deletion, the key is loaded again, and what is returned is not from
before the deletion. -/
theorem fresh_of_no_stale_store_reloaded :
    ∃ h y, Run step (.new (Fin 2) Unit ℕ) h y ∧ (∀ ev ∈ h, ¬ StaleStore ev) ∧ (∀ ev ∈ h, Fresh ev) ∧
      ∃ ev ∈ h, ∃ r ∈ reply ev.before ev.label, 0 < r.1 ∧ r.2.value = 8 := by
  obtain ⟨h, y, hr, hstale, hreply⟩ := exists_run step (.new (Fin 2) Unit ℕ)
    (loadThrough 0 0 7 ++ [.begin 1 (.delete ()), .erase 1, .finish 1] ++ loadThrough 0 1 8)
    (fun h _ => (∀ ev ∈ h, ¬ StaleStore ev) ∧
      ∃ ev ∈ h, ∃ r ∈ reply ev.before ev.label, 0 < r.1 ∧ r.2.value = 8)
    (by decide +kernel)
  exact ⟨h, y, hr, hstale, fresh_of_no_stale_store hr hstale, hreply⟩

/-- **A deletion undone.** A loader is running when the key is deleted; it returns, and its
value is stored; a `Get` that starts after the deletion has returned gets it. -/
theorem delete_undone : ∃ h y, Run step (.new (Fin 2) Unit ℕ) h y ∧ ¬ ∀ ev ∈ h, Fresh ev := by
  exact exists_run _ _
    [.begin 0 (.getOrLoad () 0), .read 0 0, .name 0, .join 0, .flight 0 (.get 0), .flight 0 .load,
      .begin 1 (.delete ()), .erase 1, .finish 1, .flight 0 (.loaded 7), .flight 0 (.store 0),
      .begin 1 (.get ()), .read 1 0] _ (by decide +kernel)

end Bluetape.Cache
