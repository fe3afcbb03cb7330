import Mathlib.Tactic.Common

/-!
# The state of the local tier

`localState` decides who may touch the local tier of a `TieredCache`, and when. Operations
hold leases: a healthy one to read and fill the tier, a maintenance one to delete from it.
Who wants to clear the tier begins a repair, which closes the tier to new leases, moves to
the next generation and waits until all leases have been given back. If something about the
tier cannot be told any more it is blocked, which also moves to the next generation, and only
an explicit repair opens it again.

Every method is a function on the fields under the mutex, one per critical section. A method
that waits is one section per attempt, and has no result as long as it has to wait.
-/

namespace Bluetape.RedisValue

/-- The phases of the tier. -/
inductive LocalPhase where
  | healthy
  | blocking
  | blocked
  | repairing
  deriving DecidableEq, Repr

inductive RepairOrigin where
  | fromHealthy
  | fromBlocked
  deriving DecidableEq, Repr

inductive RepairKind where
  | mandatory
  | explicit
  deriving DecidableEq, Repr

/-- `localDisposition`: what has become of the tier since a generation. -/
inductive Disposition where
  | current
  | newerGeneration
  | blocked
  deriving DecidableEq, Repr

/-- `localState`, without the channel that wakes who waits. -/
structure LocalState where
  phase : LocalPhase
  origin : RepairOrigin
  generation : ℕ
  active : ℕ
  epoch : ℕ
  deriving DecidableEq, Repr

/-- The lease of a repair. -/
structure RepairLease where
  epoch : ℕ
  origin : RepairOrigin
  kind : RepairKind
  deriving DecidableEq, Repr

/-- What `tryAcquireHealthy` returns. -/
inductive TryLease where
  | lease (generation : ℕ)
  | wait
  | blocked
  deriving DecidableEq, Repr

/-- What the first part of `beginRepairAtGeneration` returns. -/
inductive RepairStart where
  /-- The repair has begun; with `drained`, no lease is out and it need not wait. -/
  | begun (lease : RepairLease) (drained : Bool)
  | moved (disposition : Disposition)
  deriving DecidableEq, Repr

namespace LocalState

/-- `newLocalState`. -/
def new : LocalState := ⟨.healthy, .fromHealthy, 0, 0, 0⟩

/-- `tryAcquireHealthy`. -/
def tryAcquireHealthy (s : LocalState) : LocalState × TryLease :=
  if s.phase = .healthy then ({ s with active := s.active + 1 }, .lease s.generation)
  else if s.phase = .repairing ∧ s.origin = .fromHealthy then (s, .wait)
  else (s, .blocked)

/-- An attempt of `acquireMaintenance`. -/
def acquireMaintenance (s : LocalState) : Option LocalState :=
  if s.phase = .healthy ∨ s.phase = .blocked then some { s with active := s.active + 1 } else none

/-- `issueTicket`, for a lease of a generation that has not been given back. -/
def issueTicket (s : LocalState) (generation : ℕ) : Bool :=
  decide (s.phase = .healthy ∧ s.generation = generation)

/-- `release` of either lease; `none` is the panic. -/
def release (s : LocalState) : Option LocalState :=
  if 0 < s.active then some { s with active := s.active - 1 } else none

/-- `classifyLocked`. -/
def classify (s : LocalState) (generation : ℕ) : Disposition :=
  if s.phase = .healthy ∧ s.generation = generation then .current
  else if s.phase = .healthy then .newerGeneration
  else if s.phase = .repairing ∧ s.origin = .fromHealthy then .newerGeneration
  else .blocked

/-- An attempt of `beginRepairAtGeneration`, up to where it waits for the leases. -/
def beginRepair (s : LocalState) (kind : RepairKind) (expected : Option ℕ) :
    Option (LocalState × RepairStart) :=
  if s.phase = .repairing then none
  else if expected.any (fun g => decide (s.generation ≠ g)) then
    some (s, .moved (s.classify (expected.getD 0)))
  else
    let origin := if s.phase = .blocked ∨ s.phase = .blocking then .fromBlocked else .fromHealthy
    some ({ s with
        phase := .repairing, origin := origin, generation := s.generation + 1,
        epoch := s.epoch + 1 },
      .begun ⟨s.epoch + 1, origin, kind⟩ (decide (s.active = 0)))

/-- The repair is going on, and no later one. -/
def Current (s : LocalState) (lease : RepairLease) : Prop :=
  s.phase = .repairing ∧ s.epoch = lease.epoch
  deriving Decidable

/-- An attempt of `beginRepairAtGeneration` to go on: it waits while the repair is going on
and leases are out, and succeeds if the repair is still going on then. -/
def awaitDrained (s : LocalState) (lease : RepairLease) : Option Bool :=
  if s.Current lease then if 0 < s.active then none else some true else some false

/-- The context ends while `beginRepairAtGeneration` waits for the leases. -/
def abandonRepair (s : LocalState) (lease : RepairLease) : LocalState :=
  if s.Current lease then { s with phase := .blocked, origin := .fromBlocked } else s

/-- `finishRepair`. -/
def finishRepair (s : LocalState) (lease : RepairLease) (failed : Bool) : LocalState × Bool :=
  if s.Current lease then
    if !failed && (decide (lease.origin = .fromHealthy) || decide (lease.kind = .explicit)) then
      ({ s with phase := .healthy, origin := .fromHealthy }, true)
    else ({ s with phase := .blocked, origin := .fromBlocked }, false)
  else (s, false)

/-- `block`. -/
def block (s : LocalState) : LocalState :=
  if s.phase = .blocking ∨ s.phase = .blocked then s
  else { s with
    phase := .blocked, origin := .fromBlocked, generation := s.generation + 1,
    epoch := s.epoch + 1 }

/-! ### What the methods can do -/

variable {s s' : LocalState}

theorem tryAcquireHealthy_cases (s : LocalState) :
    (s.phase = .healthy ∧ s.tryAcquireHealthy =
        ({ s with active := s.active + 1 }, .lease s.generation)) ∨
      (s.phase = .repairing ∧ s.tryAcquireHealthy = (s, .wait)) ∨
      s.tryAcquireHealthy = (s, .blocked) := by
  unfold tryAcquireHealthy
  by_cases hphase : s.phase = .healthy
  · exact .inl ⟨hphase, if_pos hphase⟩
  · rw [if_neg hphase]
    by_cases hrepair : s.phase = .repairing ∧ s.origin = .fromHealthy
    · exact .inr (.inl ⟨hrepair.1, if_pos hrepair⟩)
    · exact .inr (.inr (if_neg hrepair))

theorem acquireMaintenance_eq_some (h : s.acquireMaintenance = some s') :
    s.phase ≠ .repairing ∧ s' = { s with active := s.active + 1 } := by
  unfold acquireMaintenance at h
  split_ifs at h with hphase
  refine ⟨fun hrepair => ?_, (Option.some.inj h).symm⟩
  rw [hrepair] at hphase
  exact nomatch hphase

theorem release_eq_some (h : s.release = some s') :
    0 < s.active ∧ s' = { s with active := s.active - 1 } := by
  unfold release at h
  split_ifs at h with hactive
  exact ⟨hactive, (Option.some.inj h).symm⟩

theorem beginRepair_eq_some {kind : RepairKind} {expected : Option ℕ}
    {r : LocalState × RepairStart} (h : s.beginRepair kind expected = some r) :
    s.phase ≠ .repairing ∧
      ((∃ g, expected = some g ∧ s.generation ≠ g ∧ r = (s, .moved (s.classify g))) ∨
        ∃ origin, r = (⟨.repairing, origin, s.generation + 1, s.active, s.epoch + 1⟩,
          .begun ⟨s.epoch + 1, origin, kind⟩ (decide (s.active = 0)))) := by
  unfold beginRepair at h
  by_cases hphase : s.phase = .repairing
  · rw [if_pos hphase] at h
    cases h
  rw [if_neg hphase] at h
  refine ⟨hphase, ?_⟩
  by_cases hmoved : expected.any (fun g => decide (s.generation ≠ g)) = true
  · rw [if_pos hmoved] at h
    cases expected with
    | none => cases hmoved
    | some g => exact .inl ⟨g, rfl, of_decide_eq_true hmoved, (Option.some.inj h).symm⟩
  · rw [if_neg hmoved] at h
    exact .inr ⟨_, (Option.some.inj h).symm⟩

variable {lease : RepairLease}

/-- A repair that begins has an epoch of its own, and remembers that the tier was not healthy. -/
theorem beginRepair_begun {kind : RepairKind} {expected : Option ℕ} {drained : Bool}
    (h : s.beginRepair kind expected = some (s', .begun lease drained)) :
    s.phase ≠ .repairing ∧ (s.phase ≠ .healthy → lease.origin = .fromBlocked) ∧
      lease.epoch = s.epoch + 1 ∧ drained = decide (s.active = 0) ∧
      s' = ⟨.repairing, lease.origin, s.generation + 1, s.active, s.epoch + 1⟩ := by
  unfold beginRepair at h
  split_ifs at h with hrepairing hmoved hblocked
  · exact nomatch congrArg Prod.snd (Option.some.inj h)
  · obtain ⟨rfl, hstart⟩ := Prod.mk.inj (Option.some.inj h)
    cases hstart
    exact ⟨hrepairing, fun _ => rfl, rfl, rfl, rfl⟩
  · obtain ⟨rfl, hstart⟩ := Prod.mk.inj (Option.some.inj h)
    cases hstart
    refine ⟨hrepairing, fun hhealthy => ?_, rfl, rfl, rfl⟩
    cases hphase : s.phase with
    | healthy => exact absurd hphase hhealthy
    | blocking => exact absurd (.inr hphase) hblocked
    | blocked => exact absurd (.inl hphase) hblocked
    | repairing => exact absurd hphase hrepairing

theorem awaitDrained_eq_some {ok : Bool} (h : s.awaitDrained lease = some ok) :
    ok = true → s.active = 0 := by
  unfold awaitDrained at h
  split_ifs at h with hcur hactive
  · exact fun _ => Nat.eq_zero_of_not_pos hactive
  · cases h
    exact nofun

theorem finishRepair_cases (s : LocalState) (lease : RepairLease) (failed : Bool) :
    (s.Current lease ∧ failed = false ∧ s.finishRepair lease failed =
        ({ s with phase := .healthy, origin := .fromHealthy }, true)) ∨
      s.finishRepair lease failed = (s.abandonRepair lease, false) := by
  unfold finishRepair abandonRepair
  by_cases hcur : s.Current lease
  · split_ifs with hok
    · exact .inl ⟨hcur, by simpa using (Bool.and_eq_true_iff.mp hok).1, rfl⟩
    · exact .inr rfl
  · rw [if_neg hcur, if_neg hcur]
    exact .inr rfl

theorem finishRepair_healed {failed : Bool} (h : (s.finishRepair lease failed).2 = true) :
    lease.origin = .fromHealthy ∨ lease.kind = .explicit := by
  unfold finishRepair at h
  split_ifs at h with hcur hok
  obtain ⟨-, hor⟩ := Bool.and_eq_true_iff.mp hok
  exact (Bool.or_eq_true_iff.mp hor).imp of_decide_eq_true of_decide_eq_true

theorem block_cases (s : LocalState) :
    s.block = s ∨ (s.phase ≠ .blocked ∧
      s.block = ⟨.blocked, .fromBlocked, s.generation + 1, s.active, s.epoch + 1⟩) := by
  unfold block
  split_ifs with hphase
  · exact .inl rfl
  · exact .inr ⟨fun h => hphase (.inr h), rfl⟩

theorem abandonRepair_generation (s : LocalState) (lease : RepairLease) :
    (s.abandonRepair lease).generation = s.generation := by
  unfold abandonRepair
  split_ifs <;> rfl

end LocalState

end Bluetape.RedisValue
