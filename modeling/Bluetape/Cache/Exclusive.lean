import Bluetape.Cache.Flights

/-!
# One loader per key

`GetOrLoad` is meant to run one loader per key at a time, and leaves that to the `singleflight`
group: a second function is not started under a name that is in use. But the name is not the key. It
is asked for under the mutex, and the group is joined later; between the two the flight of that name
can fail, drop the name and leave the group, and another goroutine can make the next name and start
a flight under it. Who still holds the first name then starts a second one beside it
(`two_loaders`).

As long as this does not happen – no flight is started under a name that is not that of the key any
more, and no name is dropped or forgotten while the loader of its flight has yet to end (`Detaches`)
– there is one loader per key (`exclusive_of_no_detach`): a flight whose loader has not ended is the
one that is found under the name of its key (`Attached`), so no other is started.
-/

namespace Bluetape.Cache

open Lts Option List

variable {ι K V : Type}

/-! ### Loaders that run, and those that will -/

def Phase.isLoading : Phase V → Bool
  | .loading _ => true
  | _ => false

def Phase.pending : Phase V → Bool
  | .entered | .missed | .loading _ => true
  | _ => false

theorem Phase.pending_of_isLoading {p : Phase V} (h : p.isLoading = true) : p.pending = true := by
  cases p <;> first | rfl | exact nomatch h

/-- **At most one loader per key is running.** -/
def Sys.Exclusive (y : Sys ι K V) : Prop :=
  ∀ (n m : ℕ) (f g : Flight K V), y.flights[n]? = some f → y.flights[m]? = some g →
    f.phase.isLoading = true → g.phase.isLoading = true → f.key = g.key → n = m

/-- A flight whose loader has not ended is the one that is found under the name of its key. -/
def Attached (y : Sys ι K V) : Prop :=
  ∀ (n : ℕ) (f : Flight K V), y.flights[n]? = some f → f.phase.pending = true →
    y.memory.flightKeys f.key = some f.name ∧ y.group f.name = some n

theorem Attached.exclusive {y : Sys ι K V} (h : Attached y) : y.Exclusive := by
  intro n m f g hf hg hloadf hloadg hkey
  obtain ⟨hnamef, hgroupf⟩ := h n f hf (Phase.pending_of_isLoading hloadf)
  obtain ⟨hnameg, hgroupg⟩ := h m g hg (Phase.pending_of_isLoading hloadg)
  have hname : f.name = g.name := mem_unique hnamef (hkey ▸ hnameg)
  exact mem_unique hgroupf (hname ▸ hgroupg)

/-! ### How a flight is cut off -/

/-- The call, if it is about to start a flight: the group has none under the name it holds. -/
def starting (y : Sys ι K V) : Action ι K V → Option (K × ℕ)
  | .join i =>
    match y.calls i with
    | some (.joining k _ _ name) => if (y.group name).isNone then some (k, name) else none
    | _ => none
  | _ => none

/-- The step is over a name that a flight still needs: it is dropped for the key – by a `Get`
that finds an expired value, by a flight that fails, by a deletion – or forgotten in the
group, by a call that tries again. -/
def Orphans (ev : Event (Sys ι K V) (Action ι K V)) (p : Flight K V × ℕ) : Prop :=
  (ev.before.memory.flightKeys p.1.key = some p.1.name ∧
      ev.after.memory.flightKeys p.1.key ≠ some p.1.name) ∨
    (ev.before.group p.1.name = some p.2 ∧ ev.after.group p.1.name ≠ some p.2)
  deriving Decidable

/-- **A flight is cut off from its key**: while its loader has yet to end, its name is dropped
or forgotten; or it is started under a name that is not that of the key any more. -/
def Detaches (ev : Event (Sys ι K V) (Action ι K V)) : Prop :=
  (∃ p ∈ ev.before.flights.zipIdx, p.1.phase.pending = true ∧ Orphans ev p) ∨
    ∃ r ∈ starting ev.before ev.label, ev.before.memory.flightKeys r.1 ≠ some r.2
  deriving Decidable

variable [DecidableEq ι] [DecidableEq K] {y y' : Sys ι K V}

/-! ### Where flights come from -/

/-- What a step leaves of the flights: each is one that was there, and its loader has not
begun anew. -/
def Inherits (y y' : Sys ι K V) : Prop :=
  ∀ (n : ℕ) (f : Flight K V), y'.flights[n]? = some f → f.phase.pending = true →
    ∃ g, y.flights[n]? = some g ∧ g.phase.pending = true ∧ g.key = f.key ∧ g.name = f.name

omit [DecidableEq ι] [DecidableEq K] in
theorem inherits_of_flights_eq (h : y'.flights = y.flights) : Inherits y y' :=
  fun n f hf hp => ⟨f, by rw [← h]; exact hf, hp, rfl, rfl⟩

omit [DecidableEq ι] [DecidableEq K] in
theorem inherits_setPhase {n : ℕ} {f : Flight K V} {p : Phase V} (hf : y.flights[n]? = some f)
    (hp : p.pending = true → f.phase.pending = true)
    (h : y'.flights = y.flights.set n { f with phase := p }) : Inherits y y' := by
  intro m g hg hpending
  rw [h, getElem?_set] at hg
  split_ifs at hg with hnm
  · subst hnm
    cases hg
    exact ⟨f, hf, hp hpending, rfl, rfl⟩
  · exact ⟨g, hg, hpending, rfl, rfl⟩

omit [DecidableEq ι] in
theorem inherits_fly {n : ℕ} {f : Flight K V} {a : FlightAction V} (hf : y.flights[n]? = some f)
    (hact : y.fly n f a = some y') : Inherits y y' := by
  unfold Sys.fly at hact
  split at hact
  next now hphase =>
    cases hact
    exact inherits_setPhase hf (fun _ => by rw [hphase]; rfl) rfl
  next hphase =>
    cases hact
    exact inherits_setPhase hf (fun _ => by rw [hphase]; rfl) rfl
  all_goals cases hact
  all_goals exact inherits_setPhase hf (fun h => absurd h (by simp [Phase.pending])) rfl

/-- A flight is started. -/
structure Starts (y : Sys ι K V) (a : Action ι K V) (y' : Sys ι K V) (k : K) (name : ℕ)
    (ttl : ℤ) : Prop where
  starting_eq : starting y a = some (k, name)
  flights_eq : y'.flights = y.flights ++ [⟨k, name, ttl, .entered⟩]
  memory_eq : y'.memory = y.memory
  group_eq : y'.group = Function.update y.group name (some y.flights.length)

omit [DecidableEq K] in
/-- **Joining starts a flight only when the group has none under the name.** -/
theorem inherits_or_starts_join {i : ι} (hact : y.join i = some y') :
    Inherits y y' ∨ ∃ k name ttl, Starts y (.join i) y' k name ttl := by
  unfold Sys.join at hact
  split at hact
  next k ttl fence name hcall =>
    cases hgroup : y.group name with
    | some n =>
      simp only [hgroup] at hact
      cases hact
      exact .inl (inherits_of_flights_eq rfl)
    | none =>
      simp only [hgroup] at hact
      cases hact
      exact .inr ⟨k, name, ttl, by simp [starting, hcall, hgroup], rfl, rfl, rfl⟩
  next => cases hact

variable {a : Action ι K V}

theorem flights_eq_of_act (hact : y.act a = some y') (hjoin : ∀ i, a ≠ .join i)
    (hflight : ∀ n b, a ≠ .flight n b) : y'.flights = y.flights := by
  cases a with
  | join i => exact absurd rfl (hjoin i)
  | flight n b => exact absurd rfl (hflight n b)
  | begin i op =>
    change y.begin i op = some y' at hact
    revert hact
    fun_cases Sys.begin y i op <;> rintro ⟨⟩
    rfl
  | leave i =>
    obtain ⟨-, ⟨⟩⟩ := ite_none_right_eq_some.mp hact
    rfl
  | receive i retry =>
    change y.receive i retry = some y' at hact
    revert hact
    fun_cases Sys.receive y i retry <;> rintro ⟨⟩
    all_goals rfl
  | _ =>
    simp only [Sys.act, Sys.read, Sys.write, Sys.erase, Sys.finish, Sys.name] at hact
    split at hact <;> first
      | (cases hact; rfl)
      | cases hact

/-- **What a step does to the flights**: they are those that were there, or a call has started
one. -/
theorem inherits_or_starts (hstep : step y a = some y') :
    Inherits y y' ∨ ∃ k name ttl, Starts y a y' k name ttl := by
  obtain ⟨z, hact, rfl⟩ := map_eq_some_iff.mp hstep
  -- the log's clock is no part of what is said
  have hz : Inherits y z ∨ ∃ k name ttl, Starts y a z k name ttl := by
    by_cases hjoin : ∃ i, a = .join i
    · obtain ⟨i, rfl⟩ := hjoin
      exact inherits_or_starts_join hact
    by_cases hflight : ∃ n b, a = .flight n b
    · obtain ⟨n, b, rfl⟩ := hflight
      obtain ⟨f, hf, hfly⟩ := bind_eq_some_iff.mp hact
      exact .inl (inherits_fly hf hfly)
    · exact .inl (inherits_of_flights_eq (flights_eq_of_act hact
        (fun i hi => hjoin ⟨i, hi⟩) fun n b hb => hflight ⟨n, b, hb⟩))
  rcases hz with hz | ⟨k, name, ttl, hz⟩
  · exact .inl hz
  · exact .inr ⟨k, name, ttl, ⟨hz.starting_eq, hz.flights_eq, hz.memory_eq, hz.group_eq⟩⟩

/-! ### Whole runs -/

/-- **A step that cuts no flight off keeps every flight attached.** -/
theorem Attached.step (h : Attached y) (hstep : step y a = some y') (hnot : ¬ Detaches ⟨y, a, y'⟩) :
    Attached y' := by
  -- a flight that was pending keeps its name and its place in the group
  have hkeep : ∀ (n : ℕ) (g : Flight K V), y.flights[n]? = some g → g.phase.pending = true →
      y'.memory.flightKeys g.key = some g.name ∧ y'.group g.name = some n := by
    intro n g hg hp
    obtain ⟨hname, hgroup⟩ := h n g hg hp
    constructor
    · by_contra hne
      exact hnot (.inl ⟨(g, n), mk_mem_zipIdx_iff_getElem?.mpr hg, hp, .inl ⟨hname, hne⟩⟩)
    · by_contra hne
      exact hnot (.inl ⟨(g, n), mk_mem_zipIdx_iff_getElem?.mpr hg, hp, .inr ⟨hgroup, hne⟩⟩)
  intro n f hf hp
  rcases inherits_or_starts hstep with hinh | ⟨k, name, ttl, hstarts⟩
  · obtain ⟨g, hg, hpg, hkey, hname⟩ := hinh n f hf hp
    rw [← hkey, ← hname]
    exact hkeep n g hg hpg
  · rw [hstarts.flights_eq, getElem?_append] at hf
    split_ifs at hf with hn
    · exact hkeep n f hf hp
    · obtain rfl := mem_singleton.mp (mem_of_getElem? hf)
      have hlen : n = y.flights.length := by
        have hlt := (List.getElem?_eq_some_iff.mp hf).1
        rw [length_singleton] at hlt
        omega
      constructor
      · rw [hstarts.memory_eq]
        by_contra hne
        exact hnot (.inr ⟨(k, name), hstarts.starting_eq, hne⟩)
      · rw [hstarts.group_eq, hlen]
        exact Function.update_self _ _ _

omit [DecidableEq ι] [DecidableEq K] in
theorem attached_new : Attached (.new ι K V) := nofun

/-- **At most one loader per key is running**, in every run in which no flight is cut off from
its key. -/
theorem exclusive_of_no_detach {h : List (Event (Sys ι K V) (Action ι K V))}
    (hr : Run step (.new ι K V) h y) (hnot : ∀ ev ∈ h, ¬ Detaches ev) : y.Exclusive := by
  have hattached : Attached y :=
    hr.invariant_of_mem hnot attached_new fun _ _ _ hinv hstep hev => hinv.step hstep hev
  exact hattached.exclusive

/-- Two goroutines load the same key: the second joins the flight of the first. -/
theorem exclusive_of_no_detach_joined :
    ∃ h y, Run step (.new (Fin 2) Unit ℕ) h y ∧ (∀ ev ∈ h, ¬ Detaches ev) ∧ y.Exclusive ∧
      (∃ f ∈ y.flights, f.phase.isLoading = true) := by
  obtain ⟨h, y, hr, hnot, hload⟩ := exists_run step (.new (Fin 2) Unit ℕ)
    [.begin 0 (.getOrLoad () 0), .begin 1 (.getOrLoad () 0), .read 0 0, .read 1 0, .name 0,
      .name 1, .join 0, .flight 0 (.get 0), .flight 0 .load, .join 1]
    (fun h (y : Sys (Fin 2) Unit ℕ) => (∀ ev ∈ h, ¬ Detaches ev) ∧
      ∃ f ∈ y.flights, f.phase.isLoading = true) (by decide +kernel)
  exact ⟨h, y, hr, hnot, exclusive_of_no_detach hr hnot, hload⟩

/-! ### A second loader -/

def Action.deletes : Action ι K V → Bool
  | .begin _ (.delete _) | .begin _ .clear => true
  | _ => false

/-- **Two loaders of one key at once.** Goroutine `1` asks for the name of the flight that
goroutine `0` has started; the loader fails, and the flight drops its name and leaves the
group; goroutine `2` starts the next flight, under a new name; goroutine `1` joins, finds no
flight under the name it holds, and starts another. -/
theorem two_loaders :
    ∃ h y, Run step (.new (Fin 3) Unit ℕ) h y ∧ (∀ ev ∈ h, ev.label.deletes = false) ∧
      ¬ y.Exclusive := by
  obtain ⟨h, y, hr, hdel, ⟨f, hf, hloadf⟩, g, hg, hloadg⟩ := exists_run step (.new (Fin 3) Unit ℕ)
    [.begin 0 (.getOrLoad () 0), .read 0 0, .name 0, .join 0, .flight 0 (.get 0), .flight 0 .load,
      .begin 1 (.getOrLoad () 0), .read 1 0, .name 1,
      .flight 0 (.loadFailed .loader), .flight 0 .forgetKey, .flight 0 .finish,
      .begin 2 (.getOrLoad () 0), .read 2 0, .name 2, .join 2, .flight 1 (.get 0), .flight 1 .load,
      .join 1, .flight 2 (.get 0), .flight 2 .load]
    (fun h (y : Sys (Fin 3) Unit ℕ) => (∀ ev ∈ h, ev.label.deletes = false) ∧
      (∃ f : Flight Unit ℕ, f ∈ y.flights[1]? ∧ f.phase.isLoading = true) ∧
      ∃ g : Flight Unit ℕ, g ∈ y.flights[2]? ∧ g.phase.isLoading = true) (by decide +kernel)
  refine ⟨h, y, hr, hdel, fun hex => ?_⟩
  exact nomatch hex 1 2 f g hf hg hloadf hloadg rfl

end Bluetape.Cache
