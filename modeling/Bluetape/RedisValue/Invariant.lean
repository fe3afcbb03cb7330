import Bluetape.RedisValue.Tiered

/-!
# What the operations of a tiered cache have in hand

Any number of operations work on one `TieredCache` at once. What each of them has in hand – the
token of a key, a lease, a ticket, a value that it has fetched, a repair that has come some way – is
kept in its **ghost** (`Ghost`). Which actions an operation may do with what it has in hand is
`Ghost.Allowed`, and how an action changes that is `Ghost.after`; the two together are a protocol
(`protocol`).

What then holds at all times (`Inv`) says how old the values in the local tier, and those on the way
to it, can be. The generation of the local state moves when a repair begins; when the repair has
succeeded the tier has been cleared with no lease out, and that the generation had moved to where it
is by then is what makes the tier healthy again.

* An operation that has fetched a value under a ticket holds the token of the key, and has held it
  from before it fetched the value; and if the generation is still the one of the ticket, then it
  has not moved since the value was fetched. So a value that is about to be stored, under a lease of
  the same generation, was fetched after the last successful repair began (`Ghost.Ok`).
* A repair that has waited for the leases, and is still the one that is going on, has none out, and
  once it has cleared the tier the tier stays empty.

What one action of one operation does to the ghosts of all others is said once (`Advance`,
`Ghost.Ok.advance`), so that each action is looked at only for the ghost of the operation that does
it (`Ghost.Ok.act`). The result is `Inv.act`.
-/

namespace Bluetape.RedisValue

open Lts Function List LocalState

variable {K V : Type}

/-! ### Ghosts -/

inductive Lease where
  | none
  /-- A `localLease`. -/
  | healthy (generation : ℕ)
  /-- A `maintenanceLease`. -/
  | maintenance
  deriving DecidableEq, Repr

def Lease.out : Lease → Bool
  | .none => false
  | _ => true

inductive Stage where
  | none
  | begun (lease : RepairLease)
  | drained (lease : RepairLease)
  | cleared (lease : RepairLease)
  deriving DecidableEq, Repr

def Stage.lease : Stage → Option RepairLease
  | .none => .none
  | .begun l | .drained l | .cleared l => some l

/-- **What an operation has in hand.** -/
structure Ghost (K : Type) where
  began : ℕ
  writes : Bool
  /-- The coordinator it refers to, and whether it holds the token. -/
  holder : Holder K
  visited : Option K
  lease : Lease
  ticket : Option ℕ
  /-- A value it has fetched, or is loading: the key, and since when. -/
  fetched : Option (K × ℕ)
  stage : Stage
  healed : Bool
  sampled : Option ℕ
  unlinked : Option ℕ
  lapsed : Bool
  /-- It has found, in place of a repair of its own, that the generation has moved. -/
  passed : Bool

def Ghost.new (began : ℕ) (writes : Bool) : Ghost K where
  began := began
  writes := writes
  holder := ⟨none, false⟩
  visited := none
  lease := .none
  ticket := none
  fetched := none
  stage := .none
  healed := false
  sampled := none
  unlinked := none
  lapsed := false
  passed := false

namespace Ghost

/-- The item may be stored: it is the value that was fetched, or one of its own. -/
def Stores (g : Ghost K) (k : K) (item : Item V) : Prop :=
  (item.fetchedAt = none ∧ g.writes = true) ∨ ∃ t, item.fetchedAt = some t ∧ g.fetched = some (k, t)

/-- **Which actions are allowed** with what is in hand. -/
def Allowed (g : Ghost K) : Act K V → Prop
  | .acquireHealthy | .tryAcquireHealthy | .acquireMaintenance => g.lease = .none
  | .issueTicket γ => g.lease = .healthy γ ∧ (g.fetched = none ∨ g.ticket = some γ)
  | .release => g.lease ≠ .none
  | .acquire _ => g.holder = ⟨none, false⟩
  | .releaseRef k c => g.holder = ⟨some (k, c), false⟩
  | .takeToken k c => g.holder = ⟨some (k, c), false⟩ ∧ g.fetched = none
  | .putToken c => ∃ k, g.holder = ⟨some (k, c), true⟩
  | .remoteGet k | .loadBegin k =>
    g.lease = .none ∧ g.ticket ≠ none ∧ ∃ c, g.holder = ⟨some (k, c), true⟩
  | .tierSet k item _ => (∃ γ, g.lease = .healthy γ ∧ g.ticket = some γ) ∧ g.Stores k item
  | .beginRepair _ expected => ∀ γ, expected = some γ → g.sampled = some γ
  | .awaitDrained lease => g.stage = .begun lease
  | .finishRepair lease failed => failed = true ∨ g.stage = .cleared lease
  | .generationValue => g.sampled = none ∧ g.unlinked = none
  | .unlink _ => g.sampled ≠ none ∧ g.stage = .none ∧ g.healed = false ∧ g.passed = false
  | _ => True

/-- **How an action changes what is in hand**, at a time and in a shared state. -/
def after (t : ℕ) (s : Shared K V) (g : Ghost K) : (a : Act K V) → Ans a → Ghost K
  | .acquireHealthy, .lease γ => { g with lease := .healthy γ }
  | .tryAcquireHealthy, .lease γ => { g with lease := .healthy γ }
  | .acquireMaintenance, true => { g with lease := .maintenance }
  | .issueTicket γ, true => { g with ticket := some γ }
  | .release, _ => { g with lease := .none }
  | .acquire k, c => { g with holder := { g.holder with coordinator := some (k, c) } }
  | .releaseRef _ _, _ => { g with holder := { g.holder with coordinator := none } }
  | .takeToken k _, true => { g with holder := { g.holder with token := true }, visited := some k }
  | .putToken _, _ => { g with holder := { g.holder with token := false }, fetched := none }
  | .remoteGet k, .ok _ => { g with fetched := some (k, t) }
  | .loadBegin k, since => { g with fetched := some (k, since) }
  | .beginRepair _ _, some (.begun lease drained) =>
    { g with stage := if drained then .drained lease else .begun lease }
  | .beginRepair _ _, some (.moved .newerGeneration) => { g with passed := true }
  | .awaitDrained lease, .ok => { g with stage := .drained lease }
  | .tierClear, true =>
    match g.stage with
    | .drained lease => { g with stage := .cleared lease }
    | _ => g
  | .finishRepair _ _, true => { g with healed := true }
  | .generationValue, γ => { g with sampled := some γ }
  | .unlink _, _ =>
    { g with
      unlinked := some t
      lapsed := g.lapsed || decide (g.sampled ≠ some s.state.generation) }
  | _, _ => g

end Ghost

def Possible (t : ℕ) : (a : Act K V) → Ans a → Prop
  | .remoteGet _, .ok item => item.fetchedAt = some t
  | .loadEnd _ since, .ok item => item.fetchedAt = some since
  | .beginRepair _ expected, some (.moved _) => expected ≠ none
  | _, _ => True

/-- **What an operation may do.** -/
def protocol : Conc.Protocol (Act K V) Ans (Shared K V) (Ghost K) where
  allowed := Ghost.Allowed
  move := fun t s g a x g' => Possible t a x ∧ g' = g.after t s a x

variable [DecidableEq K]

theorem Did.possible {now : ℕ} {s s' : Shared K V} {a : Act K V} {x : Ans a}
    (h : Did now s a x s') : Possible now a x := by
  cases h with
  | fetched | loaded => rfl
  | beginMoved => exact nofun
  | _ => trivial

omit [DecidableEq K]

/-! ### What is invariant -/

/-- **What is in hand agrees with the shared state**, before a step at a time. -/
structure Ghost.Ok (now : ℕ) (s : Shared K V) (g : Ghost K) : Prop where
  began_lt : g.began < now
  ticket_le : ∀ γ, g.ticket = some γ → γ ≤ s.state.generation
  lease_le : ∀ γ, g.lease = .healthy γ → γ ≤ s.state.generation
  /-- A value that has been fetched: the token was taken before, and the generation has not
  moved since unless it has left that of the ticket. -/
  fetched_ok : ∀ k t, g.fetched = some (k, t) → (∃ c, g.holder = ⟨some (k, c), true⟩) ∧
    s.taken k ≤ t ∧ ∃ γ, g.ticket = some γ ∧ (s.state.generation = γ → s.moved ≤ t)
  /-- A value that may be stored is no older than the last successful repair. -/
  storing : ∀ γ k t, g.lease = .healthy γ → g.ticket = some γ → g.fetched = some (k, t) →
    s.healed ≤ t
  visited_ok : ∀ k, g.visited = some k → g.began ≤ s.taken k
  repair_ok : ∀ l, g.stage.lease = some l → l.epoch ≤ s.state.epoch ∧ g.began ≤ s.moved ∧
    ∀ d, g.unlinked = some d → d ≤ s.moved
  drained_ok : ∀ l, g.stage = .drained l → s.state.Current l → s.state.active = 0
  cleared_ok : ∀ l, g.stage = .cleared l → s.state.Current l →
    s.state.active = 0 ∧ ∀ k, s.tier k = none
  healed_ok : g.healed = true → g.began ≤ s.healed ∧ ∀ d, g.unlinked = some d → d ≤ s.healed
  unlinked_ok : ∀ d, g.unlinked = some d → g.began < d ∧ d < now
  sampled_ok : ∀ γ, g.sampled = some γ → γ ≤ s.state.generation ∧
    (g.lapsed = false → s.state.generation ≠ γ → ∀ d, g.unlinked = some d → d ≤ s.moved)
  passed_ok : g.passed = true → g.lapsed = false → ∀ d, g.unlinked = some d → d ≤ s.healed

/-- **What holds at all times.** -/
structure Inv (now : ℕ) (s : Shared K V) (gs : List (Ghost K)) : Prop where
  registry_ok : s.registry.Ok (gs.map Ghost.holder)
  active_eq : gs.countP (fun g => g.lease.out) = s.state.active
  moved_le : s.moved ≤ now
  taken_le : ∀ k, s.taken k ≤ now
  healed_le : s.healed ≤ s.moved
  healthy : s.state.phase = .healthy → s.healed = s.moved
  /-- What the local tier holds is no older than the last successful repair. -/
  tier_ok : ∀ k item, s.tier k = some item → ∀ t, item.fetchedAt = some t → s.healed ≤ t
  tier_set : ∀ k item, s.tier k = some item → item.fetchedAt = none →
    s.healed = 0 ∨ ∃ g ∈ gs, g.writes = true
  ghost_ok : ∀ g ∈ gs, g.Ok now s

theorem inv_new (tier : K → Option (Item V)) (remote : K → Option V) :
    Inv 0 (.new tier remote) [] where
  registry_ok := Registry.ok_new
  active_eq := rfl
  moved_le := Nat.le_refl 0
  taken_le := fun _ => Nat.le_refl 0
  healed_le := Nat.le_refl 0
  healthy := fun _ => rfl
  tier_ok := fun _ _ _ _ _ => Nat.zero_le _
  tier_set := fun _ _ _ _ => .inl rfl
  ghost_ok := fun _ hmem => nomatch hmem

theorem Inv.active_pos {now : ℕ} {s : Shared K V} {gs : List (Ghost K)} {g : Ghost K}
    (h : Inv now s gs) (hg : g ∈ gs) (hlease : g.lease ≠ .none) : s.state.active ≠ 0 := by
  rw [← h.active_eq]
  refine Nat.pos_iff_ne_zero.mp (countP_pos_iff.mpr ⟨g, hg, ?_⟩)
  cases hl : g.lease with
  | none => exact absurd hl hlease
  | _ => rfl

/-! ### What a step does to the ghosts of others -/

/-- **What a step can do that concerns other operations.** The generation stays, or moves now;
the last successful repair stays, or no lease is out; a repair that is going on was going on
before, and has no lease out, and the tier empty, if it had. -/
structure Advance (now : ℕ) (s s' : Shared K V) : Prop where
  generation : (s'.state.generation = s.state.generation ∧ s'.moved = s.moved) ∨
    (s.state.generation < s'.state.generation ∧ s'.moved = now)
  epoch_le : s.state.epoch ≤ s'.state.epoch
  healed : s'.healed = s.healed ∨ (s.state.active = 0 ∧ s'.healed = s.moved)
  current : ∀ l : RepairLease, l.epoch ≤ s.state.epoch → s'.state.Current l → s.state.Current l
  drained : ∀ l : RepairLease, s'.state.Current l → s.state.active = 0 → s'.state.active = 0
  cleared : ∀ l : RepairLease, s'.state.Current l → s.state.active = 0 → (∀ k, s.tier k = none) →
    ∀ k, s'.tier k = none
  taken : ∀ k, s'.taken k = s.taken k ∨ s'.taken k = now

section

variable {now : ℕ} {s s' : Shared K V} {g : Ghost K} {gs : List (Ghost K)}

theorem Advance.of_state_eq (hstate : s'.state = s.state) (hmoved : s'.moved = s.moved)
    (hhealed : s'.healed = s.healed) (htaken : ∀ k, s'.taken k = s.taken k ∨ s'.taken k = now)
    (htier : s.state.active = 0 → ∀ k, s.tier k = none → s'.tier k = none) : Advance now s s' where
  generation := .inl ⟨by rw [hstate], hmoved⟩
  epoch_le := by rw [hstate]
  healed := .inl hhealed
  current := fun _ _ hcur => hstate ▸ hcur
  drained := fun _ _ hactive => by rw [hstate, hactive]
  cleared := fun _ _ hactive hempty k => htier hactive k (hempty k)
  taken := htaken

theorem Advance.refl (s : Shared K V) : Advance now s s :=
  .of_state_eq rfl rfl rfl (fun _ => .inl rfl) fun _ _ hk => hk

variable {state : LocalState}

theorem Advance.of_generation_eq (hgen : state.generation = s.state.generation)
    (hepoch : state.epoch = s.state.epoch)
    (hcur : ∀ l, state.Current l → s.state.Current l ∧ (s.state.active = 0 → state.active = 0)) :
    Advance now s { s with state := state } where
  generation := .inl ⟨hgen, rfl⟩
  epoch_le := hepoch.ge
  healed := .inl rfl
  current := fun l _ h => (hcur l h).1
  drained := fun l h => (hcur l h).2
  cleared := fun _ _ _ hempty => hempty
  taken := fun _ => .inl rfl

theorem Advance.of_generation_succ (hgen : state.generation = s.state.generation + 1)
    (hepoch : state.epoch = s.state.epoch + 1) (hactive : state.active = s.state.active) :
    Advance now s { s with state := state, moved := now } where
  generation := .inr ⟨by rw [hgen]; exact Nat.lt_succ_self _, rfl⟩
  epoch_le := by rw [hepoch]; exact Nat.le_succ _
  healed := .inl rfl
  -- a repair that was begun before is none of the new epoch
  current := fun l hl hcur => absurd (hcur.2.symm.trans hepoch) (by omega)
  drained := fun _ _ h => hactive.trans h
  cleared := fun _ _ _ hempty => hempty
  taken := fun _ => .inl rfl

theorem not_current_of_abandon {l l' : RepairLease} (h : (state.abandonRepair l).Current l') :
    state.Current l' ∧ (state.active = 0 → (state.abandonRepair l).active = 0) := by
  unfold abandonRepair at h ⊢
  split_ifs at h ⊢ with hcur
  · exact nomatch h.1
  · exact ⟨h, fun hactive => hactive⟩

theorem advance_abandon (l : RepairLease) :
    Advance now s { s with state := s.state.abandonRepair l } := by
  refine .of_generation_eq (abandonRepair_generation _ _) ?_ fun _ => not_current_of_abandon
  unfold abandonRepair
  split_ifs <;> rfl

theorem advance_lease (hphase : s.state.phase ≠ .repairing) :
    Advance now s { s with state := { s.state with active := s.state.active + 1 } } :=
  .of_generation_eq rfl rfl fun _ hcur => absurd hcur.1 hphase

/-- **What every action does to others**, provided that values are stored under a lease, and
that a repair succeeds with none out. -/
theorem Did.advance [DecidableEq K] {a : Act K V} {x : Ans a} (h : Did now s a x s')
    (hstore : ∀ k item ttl, a = .tierSet k item ttl → s.state.active ≠ 0)
    (hheal : ∀ l, a = .finishRepair l false → s.state.Current l → s.state.active = 0) :
    Advance now s s' := by
  cases h with
  | acquireHealthy hphase | tryLease hphase =>
    exact advance_lease fun hrepair => nomatch hphase.symm.trans hrepair
  | maintenance hphase => exact advance_lease hphase
  | release hactive =>
    exact .of_generation_eq rfl rfl fun _ hcur => ⟨hcur, fun h => by simp [h]⟩
  | begun | blocked => exact .of_generation_succ rfl rfl rfl
  | drainEnded l | notHealed l => exact advance_abandon l
  | healed l hcur =>
    exact ⟨.inl ⟨rfl, rfl⟩, Nat.le_refl _, .inr ⟨hheal l rfl hcur, rfl⟩,
      fun _ _ h => (nomatch h.1), fun _ h => (nomatch h.1),
      fun _ h => (nomatch h.1), fun _ => .inl rfl⟩
  | takeToken k =>
    refine .of_state_eq rfl rfl rfl (fun k' => ?_) fun _ _ hk => hk
    by_cases hk : k' = k
    · subst hk
      exact .inr (update_self _ _ _)
    · exact .inl (update_of_ne hk _ _)
  | tierSet k item ttl | tierSetFailed k item ttl applied =>
    exact .of_state_eq rfl rfl rfl (fun _ => .inl rfl) fun h =>
      absurd h (hstore k item ttl rfl)
  | tierDelete k =>
    refine .of_state_eq rfl rfl rfl (fun _ => .inl rfl) fun _ k' hk => ?_
    change update s.tier k none k' = none
    rw [update_apply, hk, ite_self]
  | tierDeleteFailed k applied =>
    refine .of_state_eq rfl rfl rfl (fun _ => .inl rfl) fun _ k' hk => ?_
    cases applied with
    | true =>
      change update s.tier k none k' = none
      rw [update_apply, hk, ite_self]
    | false => exact hk
  | tierClear => exact .of_state_eq rfl rfl rfl (fun _ => .inl rfl) fun _ _ _ => rfl
  | tierClearFailed applied =>
    refine .of_state_eq rfl rfl rfl (fun _ => .inl rfl) fun _ _ hk => ?_
    cases applied with
    | true => rfl
    | false => exact hk
  | _ => exact .of_state_eq rfl rfl rfl (fun _ => .inl rfl) fun _ _ hk => hk

theorem Advance.generation_le (h : Advance now s s') :
    s.state.generation ≤ s'.state.generation := by
  rcases h.generation with ⟨hgen, -⟩ | ⟨hlt, -⟩
  · exact hgen.ge
  · exact hlt.le

theorem Advance.le_moved (h : Advance now s s') {t : ℕ} (hs : t ≤ s.moved) (hnow : t ≤ now) :
    t ≤ s'.moved := by
  rcases h.generation with ⟨-, hmoved⟩ | ⟨-, hmoved⟩
  · exact hmoved ▸ hs
  · exact hmoved ▸ hnow

theorem Advance.le_healed (h : Advance now s s') (hle : s.healed ≤ s.moved) {t : ℕ}
    (hs : t ≤ s.healed) : t ≤ s'.healed := by
  rcases h.healed with hhealed | ⟨-, hhealed⟩
  · exact hhealed ▸ hs
  · exact hhealed ▸ hs.trans hle

/-- **What is in hand survives the steps of others**: a step that does not take the token of
one's own key, and that has no lease out if the last successful repair changes. -/
theorem Ghost.Ok.advance (h : g.Ok now s) (ha : Advance now s s') (hle : s.healed ≤ s.moved)
    (htoken : ∀ k c, g.holder = ⟨some (k, c), true⟩ → s'.taken k = s.taken k)
    (hlease : g.lease ≠ .none → s.state.active ≠ 0) : g.Ok (now + 1) s' where
  began_lt := Nat.lt_succ_of_lt h.began_lt
  ticket_le := fun γ hγ => (h.ticket_le γ hγ).trans ha.generation_le
  lease_le := fun γ hγ => (h.lease_le γ hγ).trans ha.generation_le
  fetched_ok := fun k t hkt => by
    obtain ⟨⟨c, hc⟩, htaken, γ, hγ, hmoved⟩ := h.fetched_ok k t hkt
    refine ⟨⟨c, hc⟩, by rw [htoken k c hc]; exact htaken, γ, hγ, fun hgen => ?_⟩
    rcases ha.generation with ⟨heq, hm⟩ | ⟨hlt, -⟩
    · rw [hm]
      exact hmoved (heq.symm.trans hgen)
    · exact absurd (h.ticket_le γ hγ) (by omega)
  storing := fun γ k t hl hγ hkt => by
    rcases ha.healed with hhealed | ⟨hactive, -⟩
    · rw [hhealed]
      exact h.storing γ k t hl hγ hkt
    · exact absurd hactive (hlease (by rw [hl]; simp))
  visited_ok := fun k hk => by
    rcases ha.taken k with heq | heq
    · rw [heq]
      exact h.visited_ok k hk
    · rw [heq]
      exact h.began_lt.le
  repair_ok := fun l hl => by
    obtain ⟨hepoch, hbegan, hunlinked⟩ := h.repair_ok l hl
    exact ⟨hepoch.trans ha.epoch_le, ha.le_moved hbegan h.began_lt.le, fun d hd =>
      ha.le_moved (hunlinked d hd) (h.unlinked_ok d hd).2.le⟩
  drained_ok := fun l hl hcur => by
    have hold := ha.current l (h.repair_ok l (by rw [hl]; rfl)).1 hcur
    exact ha.drained l hcur (h.drained_ok l hl hold)
  cleared_ok := fun l hl hcur => by
    have hold := ha.current l (h.repair_ok l (by rw [hl]; rfl)).1 hcur
    obtain ⟨hactive, hempty⟩ := h.cleared_ok l hl hold
    exact ⟨ha.drained l hcur hactive, ha.cleared l hcur hactive hempty⟩
  healed_ok := fun hh => by
    obtain ⟨hbegan, hunlinked⟩ := h.healed_ok hh
    exact ⟨ha.le_healed hle hbegan, fun d hd => ha.le_healed hle (hunlinked d hd)⟩
  unlinked_ok := fun d hd => ⟨(h.unlinked_ok d hd).1, Nat.lt_succ_of_lt (h.unlinked_ok d hd).2⟩
  sampled_ok := fun γ hγ => by
    obtain ⟨hgen, hunlinked⟩ := h.sampled_ok γ hγ
    refine ⟨hgen.trans ha.generation_le, fun hlapsed hne d hd => ?_⟩
    rcases ha.generation with ⟨heq, hm⟩ | ⟨-, hm⟩
    · rw [hm]
      exact hunlinked hlapsed (heq ▸ hne) d hd
    · rw [hm]
      exact (h.unlinked_ok d hd).2.le
  passed_ok := fun hp hlapsed d hd => ha.le_healed hle (h.passed_ok hp hlapsed d hd)

end

/-! ### What a step does to one's own ghost -/

section

variable [DecidableEq K] {now : ℕ} {s s' : Shared K V} {g : Ghost K} {gs : List (Ghost K)}
  {a : Act K V} {x : Ans a}

theorem Did.taken_eq (h : Did now s a x s') (ha : ∀ k c, a ≠ .takeToken k c) :
    s'.taken = s.taken := by
  cases h with
  | takeToken k c => exact absurd rfl (ha k c)
  | _ => rfl

theorem Inv.advance (h : Inv now s gs) (hg : g ∈ gs) (ha : g.Allowed a) (hd : Did now s a x s') :
    Advance now s s' := by
  refine hd.advance (fun k item ttl heq => ?_) fun l heq hcur => ?_
  · subst heq
    obtain ⟨⟨γ, hγ, -⟩, -⟩ := ha
    exact h.active_pos hg (by rw [hγ]; simp)
  · subst heq
    have hstage : g.stage = .cleared l := ha.resolve_left (by simp)
    exact ((h.ghost_ok g hg).cleared_ok l hstage hcur).1

theorem Inv.ghost_advance (h : Inv now s gs) (hg : g ∈ gs) (ha : g.Allowed a)
    (hd : Did now s a x s') : g.Ok (now + 1) s' := by
  refine (h.ghost_ok g hg).advance (h.advance hg ha hd) h.healed_le (fun k c hc => ?_)
    (h.active_pos hg)
  refine congrFun (hd.taken_eq fun k' c' heq => ?_) k
  subst heq
  exact nomatch hc.symm.trans ha.1

/-- **What is in hand after an action agrees with the shared state.** -/
theorem Ghost.Ok.act (h : Inv now s gs) (hg : g ∈ gs) (ha : g.Allowed a)
    (hd : Did now s a x s') : (g.after now s a x).Ok (now + 1) s' := by
  have hok : g.Ok (now + 1) s' := h.ghost_advance hg ha hd
  have hbefore := h.ghost_ok g hg
  cases hd with
  | acquireHealthy hphase | tryLease hphase =>
    refine { hok with lease_le := fun γ hγ => ?_, storing := fun γ k t hl hγ hkt => ?_ }
    · cases hγ
      exact Nat.le_refl _
    · -- the generation of the ticket is that of the lease, so it has not moved since the fetch
      cases hl
      obtain ⟨-, -, γ', hγ', hmoved⟩ := hbefore.fetched_ok k t hkt
      obtain rfl := Option.mem_unique hγ hγ'
      exact (h.healthy hphase).le.trans (hmoved rfl)
  | maintenance | release =>
    exact { hok with
      lease_le := nofun
      storing := nofun }
  | issueTicket γ =>
    cases hx : s.state.issueTicket γ with
    | false => exact hok
    | true =>
      obtain ⟨hlease, hfetched⟩ := ha
      refine { hok with
        ticket_le := fun γ' hγ' => ?_, fetched_ok := fun k t hkt => ?_,
        storing := fun γ' k t hl hγ' hkt => ?_ }
      · cases hγ'
        exact hok.lease_le γ hlease
      · rcases hfetched with hnone | hticket
        · exact nomatch hnone.symm.trans hkt
        · obtain ⟨hc, htaken, γ', hγ', hmoved⟩ := hok.fetched_ok k t hkt
          exact ⟨hc, htaken, γ', hticket.symm.trans hγ', hmoved⟩
      · rcases hfetched with hnone | hticket
        · exact nomatch hnone.symm.trans hkt
        · exact hok.storing γ' k t hl (hticket.trans hγ') hkt
  | generationValue =>
    refine { hok with sampled_ok := fun γ hγ => ?_ }
    cases hγ
    exact ⟨Nat.le_refl _, fun _ hne => absurd rfl hne⟩
  | beginMoved kind γ hphase hne =>
    cases hx : s.state.classify γ with
    | newerGeneration =>
      refine { hok with passed_ok := fun _ hlapsed d hd => ?_ }
      -- no repair is going on, so the tier is healthy
      have hhealthy : s.state.phase = .healthy := by
        unfold classify at hx
        split_ifs at hx with _ h₂ h₃
        · exact h₂
        · exact absurd h₃.1 hphase
      rw [h.healthy hhealthy]
      exact (hbefore.sampled_ok γ (ha γ rfl)).2 hlapsed hne d hd
    | _ => exact hok
  | begun kind expected origin hphase =>
    refine { hok with
      repair_ok := fun l hl => ?_, drained_ok := fun l hl hcur => ?_,
      cleared_ok := fun l hl => ?_ }
    · have hl' : l = ⟨s.state.epoch + 1, origin, kind⟩ := by
        by_cases hactive : s.state.active = 0 <;>
          simpa [Ghost.after, hactive, Stage.lease, eq_comm] using hl
      rw [hl']
      exact ⟨Nat.le_refl _, hbefore.began_lt.le, fun d hd => (hbefore.unlinked_ok d hd).2.le⟩
    · by_cases hactive : s.state.active = 0
      · exact hactive
      · simp [Ghost.after, hactive] at hl
    · by_cases hactive : s.state.active = 0 <;> simp [Ghost.after, hactive] at hl
  | drained l hactive =>
    have hstage : g.stage = .begun l := ha
    refine { hok with
      repair_ok := fun l' hl' => hok.repair_ok l' (by rw [hstage]; exact hl')
      drained_ok := fun _ _ _ => hactive
      cleared_ok := nofun }
  | healed l hcur =>
    refine { hok with healed_ok := fun _ => ?_ }
    have hstage : g.stage = .cleared l := ha.resolve_left (by simp)
    obtain ⟨-, hbegan, hunlinked⟩ := hbefore.repair_ok l (by rw [hstage]; rfl)
    exact ⟨hbegan, hunlinked⟩
  | acquire | releaseRef =>
    refine { hok with fetched_ok := fun k t hkt => ?_ }
    obtain ⟨⟨c, hc⟩, -⟩ := hok.fetched_ok k t hkt
    exact nomatch hc.symm.trans ha
  | takeToken k c =>
    refine { hok with
      fetched_ok := fun _ _ hkt => nomatch ha.2.symm.trans hkt
      visited_ok := fun k' hk' => ?_ }
    cases hk'
    change g.began ≤ update s.taken k now k
    rw [update_self]
    exact hbefore.began_lt.le
  | putToken =>
    exact { hok with
      fetched_ok := nofun
      storing := nofun }
  | tierClear =>
    cases hstage : g.stage with
    | drained l =>
      have hafter : g.after now s .tierClear true = { g with stage := .cleared l } := by
        simp [Ghost.after, hstage]
      rw [hafter]
      exact { hok with
        repair_ok := fun l' hl' => hok.repair_ok l' (by rw [hstage]; exact hl')
        drained_ok := nofun
        cleared_ok := fun l' hl' hcur => by
          cases hl'
          exact ⟨hok.drained_ok l hstage hcur, fun _ => rfl⟩ }
    | _ =>
      have hafter : g.after now s .tierClear true = g := by simp [Ghost.after, hstage]
      rw [hafter]
      exact hok
  | fetched k v | loadBegin k =>
    obtain ⟨hlease, hticket, hc⟩ := ha
    obtain ⟨γ, hγ⟩ := Option.ne_none_iff_exists'.mp hticket
    refine { hok with
      fetched_ok := fun k' t hkt => ?_
      storing := fun _ _ _ hl => (nomatch hlease.symm.trans hl) }
    cases hkt
    exact ⟨hc, h.taken_le k, γ, hγ, fun _ => h.moved_le⟩
  | unlink keys e remote =>
    obtain ⟨hsampled, hstage, hhealed, hpassed⟩ := ha
    refine { hok with
      repair_ok := fun l hl => absurd hl (by simp [Ghost.after, hstage, Stage.lease])
      healed_ok := fun hh => nomatch hhealed.symm.trans hh
      passed_ok := fun hp => nomatch hpassed.symm.trans hp
      unlinked_ok := fun d hd => ?_
      sampled_ok := fun γ hγ => ⟨(hok.sampled_ok γ hγ).1, fun hlapsed hne => ?_⟩ }
    · cases hd
      exact ⟨hbefore.began_lt, Nat.lt_succ_self _⟩
    · have hsame : g.sampled = some s.state.generation := by
        simpa [Ghost.after] using (Bool.or_eq_false_iff.mp hlapsed).2
      exact absurd (Option.mem_unique hsame hγ) hne
  | _ => exact hok

end

/-! ### What a step does to the rest -/

section

variable [DecidableEq K] {now : ℕ} {s s' : Shared K V} {g g' : Ghost K} {gs : List (Ghost K)}
  {a : Act K V} {x : Ans a} {i : ℕ}

omit [DecidableEq K] in
theorem registry_ok_set {r : Registry K (Result K V)} (hok : r.Ok (gs.map Ghost.holder))
    (hg : gs[i]? = some g) (h : g'.holder = g.holder) :
    r.Ok ((gs.set i g').map Ghost.holder) := by
  obtain ⟨hlt, rfl⟩ := List.getElem?_eq_some_iff.mp hg
  rw [map_set, h, ← getElem_map Ghost.holder (h := by simpa using hlt), set_getElem_self]
  exact hok

/-- **Tokens and references are as the registry has them**, after a step too. -/
theorem Inv.registry_act (h : Inv now s gs) (hg : gs[i]? = some g) (ha : g.Allowed a)
    (hd : Did now s a x s') :
    s'.registry.Ok ((gs.set i (g.after now s a x)).map Ghost.holder) := by
  have hi : (gs.map Ghost.holder)[i]? = some g.holder := by
    rw [getElem?_map, hg]
    rfl
  cases hd with
  | acquire k =>
    have hholder : g.holder = ⟨none, false⟩ := ha
    rw [map_set]
    exact h.registry_ok.acquire hi (by rw [hholder]) (by rw [hholder]) rfl
  | releaseRef k c r hr =>
    have hholder : g.holder = ⟨some (k, c), false⟩ := ha
    rw [map_set]
    exact h.registry_ok.release hi (by rw [hholder]) (by rw [hholder]) hr
  | takeToken k c r hr =>
    have hholder : g.holder = ⟨some (k, c), false⟩ := ha.1
    rw [map_set]
    exact h.registry_ok.takeToken hi (by rw [hholder]) (by rw [hholder]) hr
  | putToken c r hr =>
    obtain ⟨k, hholder⟩ := ha
    rw [map_set]
    exact h.registry_ok.putToken hi (by rw [hholder]) (by rw [hholder]) hr
  | enlist c r hr => exact registry_ok_set (h.registry_ok.enlist hr) hg rfl
  | delist c r hr => exact registry_ok_set (h.registry_ok.delist hr) hg rfl
  | joinFlight c f leader r hr => exact registry_ok_set (h.registry_ok.joinFlight hr) hg rfl
  | publishFlight c f result r hr => exact registry_ok_set (h.registry_ok.publishFlight hr) hg rfl
  | issueTicket γ =>
    refine registry_ok_set h.registry_ok hg ?_
    cases hx : s.state.issueTicket γ <;> rfl
  | beginMoved kind γ =>
    refine registry_ok_set h.registry_ok hg ?_
    cases hx : s.state.classify γ <;> rfl
  | tierClear =>
    refine registry_ok_set h.registry_ok hg ?_
    simp only [Ghost.after]
    split <;> rfl
  | _ => exact registry_ok_set h.registry_ok hg rfl

omit [DecidableEq K] in
theorem countP_lease_set {n : ℕ} (hn : gs.countP (fun g => g.lease.out) = n)
    (hg : gs[i]? = some g) (h : g'.lease = g.lease) :
    (gs.set i g').countP (fun g => g.lease.out) = n := by
  have hset := countP_set_add (fun g : Ghost K => g.lease.out) hg g'
  rw [h, hn] at hset
  exact Nat.add_right_cancel hset

omit [DecidableEq K] in
theorem countP_lease_take {n : ℕ} (hn : gs.countP (fun g => g.lease.out) = n)
    (hg : gs[i]? = some g) (h : g.lease = .none) (h' : g'.lease.out = true) :
    (gs.set i g').countP (fun g => g.lease.out) = n + 1 := by
  have hset := countP_set_add (fun g : Ghost K => g.lease.out) hg g'
  have hout : g.lease.out = false := by rw [h]; rfl
  simpa [h', hn, hout] using hset

/-- **The leases that are out**, after a step. -/
theorem Inv.active_act (h : Inv now s gs) (hg : gs[i]? = some g) (ha : g.Allowed a)
    (hd : Did now s a x s') :
    (gs.set i (g.after now s a x)).countP (fun g => g.lease.out) = s'.state.active := by
  cases hd with
  | acquireHealthy | tryLease | maintenance =>
    exact countP_lease_take h.active_eq hg ha rfl
  | release hactive =>
    have hset := countP_set_add (fun g : Ghost K => g.lease.out) hg { g with lease := .none }
    have hout : g.lease.out = true := by
      cases hl : g.lease with
      | none => exact absurd hl ha
      | _ => rfl
    rw [h.active_eq, hout] at hset
    simp only [Ghost.after]
    simp only [Lease.out, if_true, Bool.false_eq_true, if_false] at hset ⊢
    omega
  | drainEnded l | notHealed l =>
    refine countP_lease_set (h.active_eq.trans ?_) hg rfl
    unfold abandonRepair
    split_ifs <;> rfl
  | issueTicket γ =>
    refine countP_lease_set h.active_eq hg ?_
    cases hx : s.state.issueTicket γ <;> rfl
  | beginMoved kind γ =>
    refine countP_lease_set h.active_eq hg ?_
    cases hx : s.state.classify γ <;> rfl
  | tierClear =>
    refine countP_lease_set h.active_eq hg ?_
    simp only [Ghost.after]
    split <;> rfl
  | _ => exact countP_lease_set h.active_eq hg rfl

theorem Did.tier_eq (hd : Did now s a x s') {k : K} {item : Item V}
    (hk : s'.tier k = some item) : s.tier k = some item ∨ ∃ ttl, a = .tierSet k item ttl := by
  cases hd with
  | tierSet k' item' ttl =>
    rcases update_eq_some hk with ⟨rfl, rfl⟩ | ⟨-, hold⟩
    · exact .inr ⟨ttl, rfl⟩
    · exact .inl hold
  | tierSetFailed k' item' ttl applied =>
    cases applied with
    | false => exact .inl hk
    | true =>
      rcases update_eq_some hk with ⟨rfl, rfl⟩ | ⟨-, hold⟩
      · exact .inr ⟨ttl, rfl⟩
      · exact .inl hold
  | tierDelete k' =>
    change update s.tier k' none k = some item at hk
    rw [update_apply] at hk
    split_ifs at hk
    exact .inl hk
  | tierDeleteFailed k' applied =>
    cases applied with
    | false => exact .inl hk
    | true =>
      change update s.tier k' none k = some item at hk
      rw [update_apply] at hk
      split_ifs at hk
      exact .inl hk
  | tierClear => cases hk
  | tierClearFailed applied =>
    cases applied with
    | false => exact .inl hk
    | true => cases hk
  | _ => exact .inl hk

theorem Did.healed_eq (hd : Did now s a x s') :
    s'.healed = s.healed ∨
      ∃ l, a = .finishRepair l false ∧ s.state.Current l ∧ s'.tier = s.tier := by
  cases hd with
  | healed l hcur => exact .inr ⟨l, rfl, hcur, rfl⟩
  | _ => exact .inl rfl

/-- The local tier is healthy after a step because it was, or because a repair has succeeded. -/
theorem Did.healthy (hd : Did now s a x s') (h : s.state.phase = .healthy → s.healed = s.moved) :
    s'.state.phase = .healthy → s'.healed = s'.moved := by
  cases hd with
  | begun | blocked => exact nofun
  | healed => exact fun _ => rfl
  | drainEnded l | notHealed l =>
    intro hphase
    unfold abandonRepair at hphase
    split_ifs at hphase
    exact h hphase
  | _ => exact h

omit [DecidableEq K] in
theorem Advance.times (h : Advance now s s') (hmoved : s.moved ≤ now) (hle : s.healed ≤ s.moved) :
    s'.moved ≤ now ∧ s'.healed ≤ s'.moved := by
  rcases h.generation with ⟨-, hm⟩ | ⟨-, hm⟩ <;> rcases h.healed with hh | ⟨-, hh⟩ <;>
    rw [hm, hh] <;> omega

omit [DecidableEq K] in
theorem Ghost.after_writes (g : Ghost K) (a : Act K V) (x : Ans a) :
    (g.after now s a x).writes = g.writes := by
  unfold Ghost.after
  split <;> first | rfl | (split <;> rfl)

/-- **The token of a key is not taken while another operation holds it.** -/
theorem Inv.taken_eq_of_ne (h : Inv now s gs) (hg : gs[i]? = some g) {j : ℕ} {g₀ : Ghost K}
    (hij : i ≠ j) (hj : gs[j]? = some g₀) (ha : g.Allowed a) (hd : Did now s a x s') {k : K} {c : ℕ}
    (hc : g₀.holder = ⟨some (k, c), true⟩) : s'.taken k = s.taken k := by
  by_cases htake : ∃ c', a = .takeToken k c'
  · obtain ⟨c', rfl⟩ := htake
    cases hd with
    | takeEnded => rfl
    | takeToken k c' r hr =>
      -- both would hold it afterwards
      have hholder : g.holder = ⟨some (k, c'), false⟩ := ha.1
      have hregistry := h.registry_act hg ha (.takeToken k c' r hr)
      have hi' : ((gs.set i (g.after now s (.takeToken k c') true)).map Ghost.holder)[i]? =
          some { g.holder with token := true } := by
        rw [getElem?_map, getElem?_set_of_some hg]
        rfl
      have hj' : ((gs.set i (g.after now s (.takeToken k c') true)).map Ghost.holder)[j]? =
          some g₀.holder := by
        rw [getElem?_map, getElem?_set_ne hij, hj]
        rfl
      exact absurd (hregistry.unique hi' hj' (by rw [hholder]) (by rw [hc]) rfl (by rw [hc])) hij
  · cases hd with
    | takeToken k' c' =>
      refine update_of_ne (fun hkk => htake ⟨c', ?_⟩) _ _
      rw [hkk]
    | _ => rfl

/-- **An action that is allowed keeps the invariant.** -/
theorem Inv.act (h : Inv now s gs) (hg : gs[i]? = some g) (ha : g.Allowed a)
    (hd : Did now s a x s') : Inv (now + 1) s' (gs.set i (g.after now s a x)) := by
  have hmem : g ∈ gs := mem_of_getElem? hg
  have hadv := h.advance hmem ha hd
  obtain ⟨hmoved, hhealed⟩ := hadv.times h.moved_le h.healed_le
  -- a repair that succeeds has left the tier empty
  have hsame : ∀ k item, s'.tier k = some item → s'.healed = s.healed := by
    refine fun k item hk => hd.healed_eq.resolve_right ?_
    rintro ⟨l, rfl, hcur, htier⟩
    rw [htier, ((h.ghost_ok g hmem).cleared_ok l (ha.resolve_left (by simp)) hcur).2 k] at hk
    cases hk
  refine ⟨h.registry_act hg ha hd, h.active_act hg ha hd, hmoved.trans (Nat.le_succ _), fun k => ?_,
    hhealed, hd.healthy h.healthy, fun k item hk t ht => ?_, fun k item hk hnone => ?_,
    fun g₀ hg₀ => ?_⟩
  · rcases hadv.taken k with heq | heq
    · rw [heq]
      exact (h.taken_le k).trans (Nat.le_succ _)
    · rw [heq]
      exact Nat.le_succ _
  · rw [hsame k item hk]
    rcases hd.tier_eq hk with hold | ⟨ttl, rfl⟩
    · exact h.tier_ok k item hold t ht
    · obtain ⟨⟨γ, hlease, hticket⟩, ⟨hnone, -⟩ | ⟨t', ht', hfetched⟩⟩ := ha
      · exact nomatch hnone.symm.trans ht
      · obtain rfl := Option.mem_unique ht ht'
        exact (h.ghost_ok g hmem).storing γ k t hlease hticket hfetched
  · rw [hsame k item hk]
    rcases hd.tier_eq hk with hold | ⟨ttl, rfl⟩
    · exact (h.tier_set k item hold hnone).imp_right
        (exists_mem_set hg (Ghost.after_writes g a x).trans)
    · obtain ⟨-, ⟨-, hwrites⟩ | ⟨t', ht', -⟩⟩ := ha
      · exact .inr (exists_mem_set hg (Ghost.after_writes g _ x).trans ⟨g, hmem, hwrites⟩)
      · exact nomatch hnone.symm.trans ht'
  · obtain ⟨j, hj⟩ := mem_iff_getElem?.mp hg₀
    rcases getElem?_set_cases hj with ⟨rfl, rfl⟩ | ⟨hji, hj'⟩
    · exact Ghost.Ok.act h hmem ha hd
    · refine (h.ghost_ok g₀ (mem_of_getElem? hj')).advance hadv h.healed_le (fun k c hc => ?_)
        (h.active_pos (mem_of_getElem? hj'))
      exact h.taken_eq_of_ne hg hji.symm hj' ha hd hc

end

end Bluetape.RedisValue
