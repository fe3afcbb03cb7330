import Bluetape.Library.Run
import Bluetape.RedisValue.LocalState

/-!
# Runs of the local state

Any number of goroutines on one `localState`: leases are acquired, released and asked for tickets,
repairs begin, wait, are given up and end, and the tier is blocked, in any order. A call that waits
tries again whenever it likes, which is more often than the code does, where it waits for a channel;
and its context may end while it waits. A lease stays with who acquired it, also when it has been
given back, and so does the lease that `beginRepair` returned – the empty one if it failed – so that
it may be finished late, or twice.

The mutex is dropped while a repair waits for the leases. What holds everything together is the
epoch: every repair and every block has its own, so that **a repair that is not the latest one is
never current again** (`Inv`). What follows is `phases_sound`.
-/

namespace Bluetape.RedisValue.Local

open Lts List LocalState

/-- The two kinds of lease. -/
inductive LeaseKind where
  /-- A `localLease`, with its generation. -/
  | healthy (generation : ℕ)
  /-- A `maintenanceLease`. -/
  | maintenance
  deriving DecidableEq, Repr

/-- A lease. -/
structure Lease where
  kind : LeaseKind
  released : Bool
  deriving DecidableEq, Repr

/-- Where a call of `beginRepairAtGeneration` is. -/
inductive RepairCall where
  | waiting (kind : RepairKind) (expected : Option ℕ)
  | draining (lease : RepairLease)
  | returned (lease : RepairLease)
  deriving DecidableEq, Repr

/-- The empty lease. -/
def noLease : RepairLease := ⟨0, .fromHealthy, .mandatory⟩

/-- The state, all leases and all calls that want to repair. -/
structure Sys where
  state : LocalState
  leases : List Lease
  repairs : List RepairCall
  deriving DecidableEq, Repr

/-- At the beginning. -/
def Sys.new : Sys := ⟨.new, [], []⟩

/-- One step; leases and repairs are named by their positions. -/
inductive Label where
  /-- An attempt of `acquireHealthy`. -/
  | acquireHealthy
  /-- An attempt of `acquireMaintenance`. -/
  | acquireMaintenance
  | issueTicket (n : ℕ)
  | release (n : ℕ)
  /-- A call of `beginRepairAtGeneration`. -/
  | beginRepair (kind : RepairKind) (expected : Option ℕ)
  | attempt (r : ℕ)
  | awaitDrained (r : ℕ)
  | endContext (r : ℕ)
  /-- `finishRepair`, with or without an error. -/
  | finishRepair (r : ℕ) (failed : Bool)
  | block
  deriving DecidableEq, Repr

namespace Sys

variable (y : Sys)

/-- A lease is acquired. -/
def addLease (s : LocalState) (kind : LeaseKind) : Sys :=
  { y with state := s, leases := y.leases ++ [⟨kind, false⟩] }

/-- A call moves on. -/
def setRepair (s : LocalState) (r : ℕ) (call : RepairCall) : Sys :=
  { y with state := s, repairs := y.repairs.set r call }

end Sys

/-- **One step of the goroutines.** -/
def step (y : Sys) : Label → Option Sys
  | .acquireHealthy =>
    match y.state.tryAcquireHealthy with
    | (s, .lease generation) => some (y.addLease s (.healthy generation))
    | _ => some y
  | .acquireMaintenance =>
    match y.state.acquireMaintenance with
    | some s => some (y.addLease s .maintenance)
    | none => some y
  -- the ticket is a value for the caller
  | .issueTicket n => (y.leases[n]?).map fun _ => y
  | .release n =>
    (y.leases[n]?).bind fun lease =>
      if lease.released then some y
      else y.state.release.map fun s =>
        { y with state := s, leases := y.leases.set n { lease with released := true } }
  | .beginRepair kind expected =>
    some { y with repairs := y.repairs ++ [.waiting kind expected] }
  | .attempt r =>
    match y.repairs[r]? with
    | some (.waiting kind expected) =>
      match y.state.beginRepair kind expected with
      | none => some y
      | some (s, .moved _) => some (y.setRepair s r (.returned noLease))
      | some (s, .begun lease drained) =>
        some (y.setRepair s r (if drained then .returned lease else .draining lease))
    | _ => none
  | .awaitDrained r =>
    match y.repairs[r]? with
    | some (.draining lease) =>
      (y.state.awaitDrained lease).map fun ok =>
        y.setRepair y.state r (.returned (if ok then lease else noLease))
    | _ => none
  | .endContext r =>
    match y.repairs[r]? with
    | some (.waiting _ _) => some (y.setRepair y.state r (.returned noLease))
    | some (.draining lease) =>
      some (y.setRepair (y.state.abandonRepair lease) r (.returned noLease))
    | _ => none
  | .finishRepair r failed =>
    match y.repairs[r]? with
    | some (.returned lease) => some { y with state := (y.state.finishRepair lease failed).1 }
    | _ => none
  | .block => some { y with state := y.state.block }

/-- A step. -/
abbrev Ev : Type := Event Sys Label

/-- The repair begins. -/
def Begins (ev : Ev) (lease : RepairLease) : Prop :=
  ∃ r kind expected s drained, ev.label = .attempt r ∧
    ev.before.repairs[r]? = some (.waiting kind expected) ∧
    ev.before.state.beginRepair kind expected = some (s, .begun lease drained)

/-- It ends without an error. -/
def Finishes (ev : Ev) (lease : RepairLease) : Prop :=
  ∃ r, ev.label = .finishRepair r false ∧ ev.before.repairs[r]? = some (.returned lease) ∧
    ev.before.state.Current lease

/-! ### What a step can do -/

/-- The ways in which a step changes the state, the leases and the repairs. -/
inductive Move (y : Sys) : Label → Sys → Prop where
  | same (l : Label) : Move y l y
  | acquire (l : Label) (kind : LeaseKind) (hphase : y.state.phase ≠ .repairing) :
      Move y l (y.addLease { y.state with active := y.state.active + 1 } kind)
  | release {n : ℕ} {lease : Lease} (hlease : y.leases[n]? = some lease)
      (hout : lease.released = false) :
      Move y (.release n) { y with
        state := { y.state with active := y.state.active - 1 }
        leases := y.leases.set n { lease with released := true } }
  | call (kind : RepairKind) (expected : Option ℕ) :
      Move y (.beginRepair kind expected)
        { y with repairs := y.repairs ++ [.waiting kind expected] }
  | begin {r : ℕ} {kind : RepairKind} {expected : Option ℕ} {s : LocalState}
      {lease : RepairLease} {drained : Bool}
      (hr : y.repairs[r]? = some (.waiting kind expected))
      (hb : y.state.beginRepair kind expected = some (s, .begun lease drained)) :
      Move y (.attempt r)
        (y.setRepair s r (if drained then .returned lease else .draining lease))
  | fail (l : Label) (r : ℕ) : Move y l (y.setRepair y.state r (.returned noLease))
  | drained {r : ℕ} {lease : RepairLease} (hr : y.repairs[r]? = some (.draining lease))
      (hactive : y.state.active = 0) :
      Move y (.awaitDrained r) (y.setRepair y.state r (.returned lease))
  | abandon {r : ℕ} {lease : RepairLease} (hr : y.repairs[r]? = some (.draining lease)) :
      Move y (.endContext r)
        (y.setRepair (y.state.abandonRepair lease) r (.returned noLease))
  | finish {r : ℕ} {lease : RepairLease} (failed : Bool)
      (hr : y.repairs[r]? = some (.returned lease)) :
      Move y (.finishRepair r failed)
        { y with state := (y.state.finishRepair lease failed).1 }
  | block : Move y .block { y with state := y.state.block }

theorem move_of_step {y y' : Sys} {l : Label} (hs : step y l = some y') : Move y l y' := by
  unfold step at hs
  split at hs
  · split at hs <;> cases hs
    next heq =>
      rcases y.state.tryAcquireHealthy_cases with ⟨hphase, hlease⟩ | ⟨-, hwait⟩ | hblocked
      · cases heq.symm.trans hlease
        refine .acquire _ _ fun hrep => ?_
        exact LocalPhase.noConfusion (hphase.symm.trans hrep)
      · cases heq.symm.trans hwait
      · cases heq.symm.trans hblocked
    · exact .same _
  · split at hs <;> cases hs
    next hm =>
      obtain ⟨hphase, rfl⟩ := acquireMaintenance_eq_some hm
      exact .acquire _ _ hphase
    · exact .same _
  · obtain ⟨-, -, rfl⟩ := Option.map_eq_some_iff.mp hs
    exact .same _
  · obtain ⟨lease, hlease, hs⟩ := Option.bind_eq_some_iff.mp hs
    split_ifs at hs with hreleased
    · cases hs
      exact .same _
    · obtain ⟨s, hrelease, rfl⟩ := Option.map_eq_some_iff.mp hs
      obtain ⟨-, rfl⟩ := release_eq_some hrelease
      exact .release hlease (Bool.eq_false_iff.mpr hreleased)
  · cases hs
    exact .call _ _
  · split at hs <;> try cases hs
    next hr =>
      split at hs <;> cases hs
      · exact .same _
      next hb =>
        rcases (beginRepair_eq_some hb).2 with ⟨g, -, -, heq⟩ | ⟨origin, heq⟩
        · obtain rfl := congrArg Prod.fst heq
          exact .fail _ _
        · exact nomatch congrArg Prod.snd heq
      next hb => exact .begin hr hb
  · split at hs <;> try cases hs
    next hr =>
      obtain ⟨ok, hok, rfl⟩ := Option.map_eq_some_iff.mp hs
      cases ok with
      | true => exact .drained hr (awaitDrained_eq_some hok rfl)
      | false => exact .fail _ _
  · split at hs <;> cases hs
    · exact .fail _ _
    next hr => exact .abandon hr
  · split at hs <;> cases hs
    next hr => exact .finish _ hr
  · cases hs
    exact .block

/-! ### The invariant -/

/-- A call has got a lease, whether it has returned it or not. -/
def Sys.Issued (y : Sys) (lease : RepairLease) : Prop :=
  .draining lease ∈ y.repairs ∨ .returned lease ∈ y.repairs

/-- **The invariant.** -/
structure Inv (y : Sys) : Prop where
  active : y.state.active = y.leases.countP fun lease => !lease.released
  epoch_pos : y.state.phase = .repairing → 0 < y.state.epoch
  epoch_le : ∀ lease, y.Issued lease → lease.epoch ≤ y.state.epoch
  /-- While a repair that was returned is current, no lease is out. -/
  drained : ∀ lease, .returned lease ∈ y.repairs → y.state.Current lease → y.state.active = 0

theorem inv_new : Inv .new where
  active := rfl
  epoch_pos h := nomatch h
  epoch_le _ h := h.elim nofun nofun
  drained _ h := nomatch h

section Steps

variable {y y' : Sys} {l : Label}

theorem Inv.not_current_noLease (h : Inv y) : ¬y.state.Current noLease := fun hcur =>
  absurd hcur.2 (h.epoch_pos hcur.1).ne'

variable {s : LocalState}

theorem mem_repairs_set {r : ℕ} {call call' : RepairCall}
    (h : call ∈ (y.setRepair s r call').repairs) : call ∈ y.repairs ∨ call = call' :=
  mem_or_eq_of_mem_set h

variable {lease : RepairLease}

theorem issued_setRepair {r : ℕ} {call : RepairCall} (h : (y.setRepair s r call).Issued lease) :
    y.Issued lease ∨ call = .draining lease ∨ call = .returned lease := by
  rcases h with hmem | hmem
  · exact (mem_repairs_set hmem).imp .inl fun h => .inl h.symm
  · exact (mem_repairs_set hmem).imp .inr fun h => .inr h.symm

theorem issued_returned {r : ℕ} {lease' : RepairLease}
    (h : (y.setRepair s r (.returned lease')).Issued lease) : y.Issued lease ∨ lease = lease' := by
  rcases issued_setRepair h with hold | hnew | hnew
  · exact .inl hold
  · exact nomatch hnew
  · exact .inr (RepairCall.returned.inj hnew).symm

theorem issued_call {kind : RepairKind} {expected : Option ℕ}
    (h : Sys.Issued { y with repairs := y.repairs ++ [.waiting kind expected] } lease) :
    y.Issued lease := by
  rcases h with hmem | hmem
  · exact .inl ((mem_concat hmem).resolve_right nofun)
  · exact .inr ((mem_concat hmem).resolve_right nofun)

theorem Inv.returned (h : Inv y) (r : ℕ) (hle : lease.epoch ≤ y.state.epoch)
    (hdrained : y.state.Current lease → y.state.active = 0) :
    Inv (y.setRepair y.state r (.returned lease)) where
  active := h.active
  epoch_pos := h.epoch_pos
  epoch_le lease' hissued := by
    rcases issued_returned hissued with hold | rfl
    · exact h.epoch_le lease' hold
    · exact hle
  drained lease' hmem hcur := by
    rcases mem_repairs_set hmem with hold | hnew
    · exact h.drained lease' hold hcur
    · cases hnew
      exact hdrained hcur

theorem Inv.fail (h : Inv y) (r : ℕ) : Inv (y.setRepair y.state r (.returned noLease)) :=
  h.returned r (Nat.zero_le _) fun hcur => absurd hcur h.not_current_noLease

theorem Inv.settle (h : Inv y) (hphase : s.phase ≠ .repairing) (hactive : s.active = y.state.active)
    (hepoch : y.state.epoch ≤ s.epoch) : Inv { y with state := s } where
  active := hactive.trans h.active
  epoch_pos hrep := absurd hrep hphase
  epoch_le lease hissued := (h.epoch_le lease hissued).trans hepoch
  drained _ _ hcur := absurd hcur.1 hphase

theorem abandonRepair_cases (s : LocalState) (lease : RepairLease) :
    s.abandonRepair lease = s ∨
      s.abandonRepair lease = { s with phase := .blocked, origin := .fromBlocked } := by
  unfold abandonRepair
  split_ifs
  · exact .inr rfl
  · exact .inl rfl

theorem Inv.abandon (h : Inv y) (lease : RepairLease) :
    Inv { y with state := y.state.abandonRepair lease } := by
  rcases abandonRepair_cases y.state lease with heq | heq
  · rw [heq]
    exact h
  · rw [heq]
    exact h.settle nofun rfl le_rfl

/-- A repair begins: its epoch is new, and it is returned only if no lease is out. -/
theorem Inv.begin (h : Inv y) {r : ℕ} {kind : RepairKind} {expected : Option ℕ} {drained : Bool}
    (hb : y.state.beginRepair kind expected = some (s, .begun lease drained)) :
    Inv (y.setRepair s r (if drained then .returned lease else .draining lease)) := by
  obtain ⟨-, -, hepoch, hdrained, rfl⟩ := beginRepair_begun hb
  refine ⟨h.active, fun _ => Nat.succ_pos _, fun lease' hissued => ?_, fun lease' hmem hcur => ?_⟩
  · rcases issued_setRepair hissued with hold | hnew | hnew
    · exact (h.epoch_le lease' hold).trans (Nat.le_succ _)
    · split_ifs at hnew
      exact RepairCall.draining.inj hnew ▸ hepoch.le
    · split_ifs at hnew
      exact RepairCall.returned.inj hnew ▸ hepoch.le
  · rcases mem_repairs_set hmem with hold | hnew
    · -- an older lease has an older epoch
      have hle := h.epoch_le lease' (.inr hold)
      have heq : y.state.epoch + 1 = lease'.epoch := hcur.2
      omega
    · split_ifs at hnew with hd
      exact of_decide_eq_true (hdrained.symm.trans hd)

/-- **Every step keeps the invariant.** -/
theorem Inv.step (h : Inv y) (hm : Move y l y') : Inv y' := by
  cases hm with
  | same => exact h
  | acquire l kind hphase =>
    refine ⟨?_, h.epoch_pos, h.epoch_le, fun lease _ hcur => absurd hcur.1 hphase⟩
    change y.state.active + 1 = (y.leases ++ [_]).countP _
    rw [countP_append, h.active]
    rfl
  | @release n lease hlease hout =>
    have hcount := countP_set_add (fun lease : Lease => !lease.released) hlease
      { lease with released := true }
    simp only [hout, Bool.not_false, if_true, Bool.not_true, Bool.false_eq_true, if_false,
      Nat.add_zero] at hcount
    refine ⟨?_, h.epoch_pos, h.epoch_le, fun lease' hmem hcur => ?_⟩
    · change y.state.active - 1 = (y.leases.set n _).countP _
      rw [h.active]
      omega
    · rw [h.drained lease' hmem hcur]
  | call kind expected =>
    exact ⟨h.active, h.epoch_pos, fun lease hissued => h.epoch_le lease (issued_call hissued),
      fun lease hmem => h.drained lease ((mem_concat hmem).resolve_right nofun)⟩
  | begin hr hb => exact h.begin hb
  | fail l r => exact h.fail r
  | @drained r lease hr hactive =>
    exact h.returned r (h.epoch_le lease (.inl (mem_of_getElem? hr))) fun _ => hactive
  | @abandon r lease hr => exact (h.abandon lease).fail r
  | @finish r lease failed hr =>
    rcases y.state.finishRepair_cases lease failed with ⟨-, -, heq⟩ | heq
    · rw [heq]
      exact h.settle nofun rfl le_rfl
    · rw [heq]
      exact h.abandon lease
  | block =>
    rcases y.state.block_cases with heq | ⟨-, heq⟩
    · rw [heq]
      exact h
    · rw [heq]
      exact h.settle nofun rfl (Nat.le_succ _)

theorem generation_le_of_move (hm : Move y l y') : y.state.generation ≤ y'.state.generation := by
  cases hm with
  | begin hr hb =>
    obtain ⟨-, -, -, -, rfl⟩ := beginRepair_begun hb
    exact Nat.le_succ _
  | @abandon r lease hr => exact (y.state.abandonRepair_generation lease).ge
  | @finish r lease failed hr =>
    rcases y.state.finishRepair_cases lease failed with ⟨-, -, heq⟩ | heq
    · rw [heq]
    · rw [heq]
      exact (y.state.abandonRepair_generation lease).ge
  | block =>
    rcases y.state.block_cases with heq | ⟨-, heq⟩
    · rw [heq]
    · rw [heq]
      exact Nat.le_succ _
  | _ => exact le_rfl

/-! ### From blocked to healthy -/

/-- **An explicit repair began and was then finished without an error**, in a history, newest event
first. -/
def Healed (h : List Ev) : Prop :=
  ∃ lease later fin earlier, h = later ++ fin :: earlier ∧ Finishes fin lease ∧
    lease.kind = .explicit ∧ ∃ ev ∈ earlier, Begins ev lease

variable {h : List Ev}

theorem Healed.cons (hh : Healed h) (ev : Ev) : Healed (ev :: h) := by
  obtain ⟨lease, later, fin, earlier, rfl, hrest⟩ := hh
  exact ⟨lease, ev :: later, fin, earlier, rfl, hrest⟩

/-- **What has become of a tier that was blocked**: it has been healed, or it is not healthy; and if
a repair is going on it began since, as one of a blocked tier, and has its epoch for itself. -/
def Recovering (h : List Ev) (y : Sys) : Prop :=
  Healed h ∨ (y.state.phase ≠ .healthy ∧ (y.state.phase = .repairing → ∃ lease : RepairLease,
    (∃ ev ∈ h, Begins ev lease) ∧ lease.origin = .fromBlocked ∧
    ∀ lease', y.Issued lease' → lease'.epoch = y.state.epoch → lease' = lease))

theorem recovering_of_blocked (hphase : y.state.phase = .blocked) : Recovering [] y :=
  .inr (by rw [hphase]; exact ⟨nofun, nofun⟩)

/-- A step that leaves phase and epoch alone and hands out no lease that could be current. -/
theorem recovering_of_same {ev : Ev} (hR : Recovering h y) (hphase : y'.state.phase = y.state.phase)
    (hepoch : y'.state.epoch = y.state.epoch)
    (hissued : ∀ lease, y'.Issued lease → lease.epoch = y.state.epoch →
      y.state.phase = .repairing → y.Issued lease) :
    Recovering (ev :: h) y' := by
  rcases hR with hh | ⟨hne, hrep⟩
  · exact .inl (hh.cons ev)
  · refine .inr ⟨hphase ▸ hne, fun hrep' => ?_⟩
    obtain ⟨lease, hbegan, horigin, huniq⟩ := hrep (hphase ▸ hrep')
    refine ⟨lease, exists_mem_cons_of_exists hbegan, horigin, fun lease' hlease' heq => ?_⟩
    exact huniq lease' (hissued lease' hlease' (heq.trans hepoch) (hphase ▸ hrep'))
      (heq.trans hepoch)

theorem recovering_of_blocks {ev : Ev} (hR : Recovering h y) (hphase : y'.state.phase = .blocked) :
    Recovering (ev :: h) y' := by
  rcases hR with hh | -
  · exact .inl (hh.cons ev)
  · exact .inr (by rw [hphase]; exact ⟨nofun, nofun⟩)

theorem Recovering.abandon {ev : Ev} (hR : Recovering h y) (lease : RepairLease) :
    Recovering (ev :: h) { y with state := y.state.abandonRepair lease } := by
  rcases abandonRepair_cases y.state lease with heq | heq
  · rw [heq]
    exact recovering_of_same hR rfl rfl fun _ hissued _ _ => hissued
  · rw [heq]
    exact recovering_of_blocks hR rfl

/-- **Every step of a tier that was blocked.** -/
theorem Recovering.step (hI : Inv y) (hR : Recovering h y) (hm : Move y l y') :
    Recovering (⟨y, l, y'⟩ :: h) y' := by
  -- the empty lease has no epoch of a repair
  have hempty : ∀ {s : LocalState} {r : ℕ} (lease : RepairLease),
      (y.setRepair s r (.returned noLease)).Issued lease → lease.epoch = y.state.epoch →
      y.state.phase = .repairing → y.Issued lease := by
    intro s r lease hissued heq hrep
    rcases issued_returned hissued with hold | rfl
    · exact hold
    · exact absurd heq.symm (hI.epoch_pos hrep).ne'
  cases hm with
  | same => exact recovering_of_same hR rfl rfl fun _ hissued _ _ => hissued
  | acquire l kind hphase => exact recovering_of_same hR rfl rfl fun _ hissued _ _ => hissued
  | release hlease hout => exact recovering_of_same hR rfl rfl fun _ hissued _ _ => hissued
  | call kind expected =>
    exact recovering_of_same hR rfl rfl fun _ hissued _ _ => issued_call hissued
  | @begin r kind expected s lease drained hr hb =>
    rcases hR with hh | ⟨hne, -⟩
    · exact .inl (hh.cons _)
    obtain ⟨-, horigin, hepoch, -, rfl⟩ := beginRepair_begun hb
    refine .inr ⟨nofun, fun _ => ⟨lease, ⟨_, mem_cons_self, ?_⟩,
      horigin hne, fun lease' hissued heq => ?_⟩⟩
    · exact ⟨r, kind, expected, _, drained, rfl, hr, hb⟩
    · change lease'.epoch = y.state.epoch + 1 at heq
      rcases issued_setRepair hissued with hold | hnew | hnew
      · have := hI.epoch_le lease' hold
        omega
      · split_ifs at hnew
        exact (RepairCall.draining.inj hnew).symm
      · split_ifs at hnew
        exact (RepairCall.returned.inj hnew).symm
  | fail l r => exact recovering_of_same hR rfl rfl hempty
  | @drained r lease hr hactive =>
    refine recovering_of_same hR rfl rfl fun lease' hissued _ _ => ?_
    rcases issued_returned hissued with hold | rfl
    · exact hold
    · exact .inl (mem_of_getElem? hr)
  | @abandon r lease hr =>
    rcases abandonRepair_cases y.state lease with heq | heq
    · rw [heq]
      exact recovering_of_same hR rfl rfl hempty
    · rw [heq]
      exact recovering_of_blocks hR rfl
  | @finish r lease failed hr =>
    rcases y.state.finishRepair_cases lease failed with ⟨hcur, rfl, heq⟩ | heq
    · rcases hR with hh | ⟨-, hrep⟩
      · exact .inl (hh.cons _)
      -- the repair that is current is the one that began since
      obtain ⟨lease', hbegan, horigin, huniq⟩ := hrep hcur.1
      obtain rfl := huniq lease (.inr (mem_of_getElem? hr)) hcur.2.symm
      have hkind : lease.kind = .explicit := by
        rcases finishRepair_healed (congrArg Prod.snd heq) with hhealthy | hkind
        · exact nomatch hhealthy.symm.trans horigin
        · exact hkind
      exact .inl ⟨lease, [], _, h, rfl, ⟨r, rfl, hr, hcur⟩, hkind, hbegan⟩
    · rw [heq]
      exact hR.abandon lease
  | block =>
    rcases y.state.block_cases with heq | ⟨-, heq⟩
    · rw [heq]
      exact recovering_of_same hR rfl rfl fun _ hissued _ _ => hissued
    · rw [heq]
      exact recovering_of_blocks hR rfl

end Steps

/-! ### Runs -/

/-- What the history shows. -/
structure Shows (h : List Ev) (y : Sys) : Prop where
  inv : Inv y
  generation : ∀ ev ∈ h, ev.before.state.generation ≤ y.state.generation
  recovering : ∀ later ev earlier, h = later ++ ev :: earlier →
    ev.before.state.phase = .blocked → Recovering (later ++ [ev]) y

theorem Shows.step {h : List Ev} {y y' : Sys} {l : Label} (hS : Shows h y)
    (hs : step y l = some y') : Shows (⟨y, l, y'⟩ :: h) y' := by
  have hm := move_of_step hs
  have hgen := generation_le_of_move hm
  refine ⟨hS.inv.step hm, forall_mem_cons.mpr ⟨hgen, fun ev hev =>
    (hS.generation ev hev).trans hgen⟩, fun later ev earlier heq hblocked => ?_⟩
  cases later with
  | nil =>
    cases heq
    exact (recovering_of_blocked hblocked).step hS.inv hm
  | cons ev' later =>
    obtain ⟨rfl, hrest⟩ := List.cons.inj heq
    exact (hS.recovering later ev earlier hrest hblocked).step hS.inv hm

theorem shows_of_run {h : List Ev} {y : Sys} (hr : Run step .new h y) : Shows h y := by
  induction hr with
  | nil =>
    refine ⟨inv_new, fun ev hev => (nomatch hev), fun later ev earlier heq => ?_⟩
    exact absurd heq.symm (append_ne_nil_of_right_ne_nil _ (cons_ne_nil _ _))
  | snoc _ hs ih => exact ih.step hs

/-- **The phases are sound.** While a repair lease that was returned is current no lease is out; the
leases that are out are counted, and giving one back does not fail; the generation never falls; and
a tier that was blocked is healthy again only after an explicit repair began and was finished
without an error. -/
theorem phases_sound {h : List Ev} {y : Sys} (hr : Run step .new h y) :
    (∀ lease, .returned lease ∈ y.repairs → y.state.Current lease →
      ∀ l ∈ y.leases, l.released = true) ∧
    (y.state.active = y.leases.countP (fun l => !l.released) ∧
      ∀ l ∈ y.leases, l.released = false → y.state.release.isSome = true) ∧
    (∀ ev ∈ h, ev.before.state.generation ≤ y.state.generation) ∧
    ∀ later ev earlier, h = later ++ ev :: earlier → ev.before.state.phase = .blocked →
      y.state.phase = .healthy → Healed (later ++ [ev]) := by
  have hS := shows_of_run hr
  refine ⟨fun lease hmem hcur l hl => ?_, ⟨hS.inv.active, fun l hl hout => ?_⟩, hS.generation,
    fun later ev earlier heq hblocked hhealthy => ?_⟩
  · have hzero := hS.inv.active.symm.trans (hS.inv.drained lease hmem hcur)
    simpa using countP_eq_zero.mp hzero l hl
  · have hpos : 0 < y.state.active := by
      rw [hS.inv.active]
      exact countP_pos_iff.mpr ⟨l, hl, by rw [hout]; rfl⟩
    rw [release, if_pos hpos]
    rfl
  · rcases hS.recovering later ev earlier heq hblocked with hh | ⟨hne, -⟩
    · exact hh
    · exact absurd hhealthy hne

/-- A lease is out when the tier is blocked; an explicit repair waits for it, and heals the tier. -/
theorem phases_sound_repaired :
    ∃ h y, Run step .new h y ∧ y.state.phase = .healthy ∧
      (∃ ev ∈ h, ev.before.state.phase = .blocked) ∧ ∃ h', Healed h' := by
  obtain ⟨h, y, hr, hhealthy, ev, hev, hblocked⟩ := exists_run step .new
    [.acquireHealthy, .block, .beginRepair .explicit none, .attempt 0, .release 0, .awaitDrained 0,
      .finishRepair 0 false]
    (fun h y => y.state.phase = .healthy ∧ ∃ ev ∈ h, ev.before.state.phase = .blocked)
    (by decide +kernel)
  obtain ⟨later, earlier, heq⟩ := append_of_mem hev
  exact ⟨h, y, hr, hhealthy, ⟨ev, hev, hblocked⟩, later ++ [ev],
    (phases_sound hr).2.2.2 later ev earlier heq hblocked hhealthy⟩

end Bluetape.RedisValue.Local
