import Bluetape.Leader.DynamoSteps

/-!
# When a DynamoDB leader is alone

An elector of DynamoDB learns that its lease is lost when a renewal fails: after a tick, a renewal
and a probe have used up their budgets. The lease counts from the moment at which the call that
wrote it was issued. Nothing in the elector compares the two.

* **The budgets must fit into the lease** (`Config.Roomy`). `New` accepts an interval just below the
  lease, and then a renewal that takes its time outlasts the lease (`slow_renewal_overlaps`). The
  defaults do fit.
* **A renewal must not be confirmed by an older lease.** When a renewal fails, the elector asks for
  the item, and goes on if the lease is still its own – also if that is the lease of an earlier
  renewal, which may run out long before the next tick. So with the default options a leader whose
  renewals fail stays one beyond its lease (`unrenewed_leader_overlaps`).

With both, at most one elector reports to be the leader (`leadership_exclusive`): every step of an
elector leaves it in one of its modes, and takes no lease from another (`Sound.act`).
-/

namespace Bluetape.Leader.Dynamo

open Go Lts Function Option

variable {ι : Type}

section Parts

variable {cfg : ι → Config} {i : ι} {now : ℤ} {item item' : Option (Item ι)} {e : Elector ι}

/-! ### Steps -/

def Elector.confirmsStale [DecidableEq ι] (i : ι) (now : ℤ) (e : Elector ι) : Action → Bool
  | .workerReturn w r => e.isLeader && (e.workers[w]?).any (·.phase.confirmsStale i now r)
  | _ => false

/-- **Every step leaves an elector in one of its modes, and takes no lease from another.** -/
theorem Sound.act [DecidableEq ι] (hroomy : (cfg i).Roomy) (hitem : ItemOk cfg item)
    (h : Sound (cfg i) i now item e) {a : Action} {e' : Elector ι}
    (hs : e.step (cfg i) i now item a = some (e', item'))
    (hfresh : e.confirmsStale i now a = false) : Keeps cfg i now item item' e' := by
  cases a with
  | beginCampaign =>
    simp only [Elector.step] at hs
    split at hs <;> cases hs
    next hf => exact (h.beginCampaign hf).keeps hitem
  | campaignEffect =>
    obtain ⟨p, hp, hs⟩ := bind_eq_some_iff.mp hs
    obtain ⟨⟨p', it'⟩, hx, ⟨⟩⟩ := map_eq_some_iff.mp hs
    exact h.campaignEffect hitem hp hx
  | campaignReturn r =>
    obtain ⟨p, hp, hs⟩ := bind_eq_some_iff.mp hs
    obtain ⟨p', hp', ⟨⟩⟩ := map_eq_some_iff.mp hs
    exact (h.campaignReturn hp hp').keeps hitem
  | startRenewal =>
    simp only [Elector.step] at hs
    split at hs <;> cases hs
    next hp => exact (h.startRenewal hroomy hp).keeps hitem
  | checkContext ended =>
    simp only [Elector.step] at hs
    split at hs <;> cases hs
    next hp =>
      have hcampaigning := h.base.campaigning (hp ▸ some_ne_none _)
      refine (h.setCampaign hp rfl (fun _ => hcampaigning) ?_).keeps hitem
      rintro p' ⟨rfl⟩
      cases ended <;> rfl
  | campaignMark =>
    simp only [Elector.step] at hs
    split at hs <;> cases hs
    next hp =>
      have hcampaigning := h.base.campaigning (hp ▸ some_ne_none _)
      refine (h.markCleanupPending (fun _ => hcampaigning) ?_).keeps hitem
      rintro p' ⟨rfl⟩
      rfl
  | wake ended =>
    simp only [Elector.step] at hs
    split at hs <;> try cases hs
    next hp =>
      obtain ⟨hm, hclear⟩ := h.seeking hp rfl
      split_ifs at hs <;> cases hs
      · exact (hm.ending h.base hp rfl hclear).keeps hitem
      · have hput : SeekOk (cfg i) i now item (.putting (issue now (cfg i).attemptBudget)) :=
          WriteOk.of_clear hclear
        exact (hm.setCampaign h.base hp rfl hput).keeps hitem
  | endCampaign =>
    simp only [Elector.step] at hs
    split at hs <;> cases hs
    next hp => exact (h.setCampaign hp rfl (fun hne => absurd rfl hne) nofun).keeps hitem
  | clearOwnership =>
    obtain ⟨f, hf, ⟨⟩⟩ := map_eq_some_iff.mp hs
    exact (h.clearOwnership hf).keeps hitem
  | cancel m =>
    simp only [Elector.step] at hs
    split at hs <;> cases hs
    next g done hr =>
      have hset : Sound (cfg i) i now item (e.setResign m ⟨g, done, .cancelling⟩ .waiting) :=
        h.setResign hr trivial
      have hm := h.cleaning_of_resign hr
      refine Sound.keeps ⟨hset.base.cancelWorker done, ?_⟩ hitem
      exact .inr (.inr (.inr ⟨hm.owned, hm.cleanup, hm.campaign⟩))
  | join m ended =>
    simp only [Elector.step] at hs
    split at hs <;> try cases hs
    next g done hr =>
      obtain ⟨hjoin, ⟨⟩⟩ := ite_none_right_eq_some.mp hs
      refine (h.setResign hr ?_).keeps hitem
      cases ended with
      | true => exact nofun
      | false =>
        obtain ⟨-, hdone, -⟩ := h.base.resigns _ (List.mem_of_getElem? hr)
        obtain rfl : done = e.flags.done := hdone
        exact ⟨h.base.quiet_of_joinable hjoin, fun hne => absurd rfl hne⟩
  | giveUp m =>
    simp only [Elector.step] at hs
    split at hs <;> cases hs
    next hr =>
      refine (h.setResign hr ?_).keeps hitem
      exact nofun
  | resignEffect m =>
    obtain ⟨r, hr, hs⟩ := bind_eq_some_iff.mp hs
    obtain ⟨⟨p', it'⟩, hx, ⟨⟩⟩ := map_eq_some_iff.mp hs
    exact h.resignEffect hitem hr hx
  | resignReturn m ret =>
    obtain ⟨r, hr, hs⟩ := bind_eq_some_iff.mp hs
    obtain ⟨p', hp', ⟨⟩⟩ := map_eq_some_iff.mp hs
    obtain ⟨-, -, hok⟩ := h.base.resigns r (List.mem_of_getElem? hr)
    exact (h.setResign hr (hok.resignReturn hp')).keeps hitem
  | resignMark m =>
    simp only [Elector.step] at hs
    split at hs <;> cases hs
    next g done hr =>
      have hset : Sound (cfg i) i now item
          (e.setResign m ⟨g, done, .marking⟩ (.finishing false)) :=
        h.setResign hr nofun
      exact (hset.markCleanupPending hset.base.campaigning
        (h.cleaning_of_resign hr).campaign).keeps hitem
  | finishResign m =>
    simp only [Elector.step] at hs
    split at hs <;> cases hs
    next hr => exact (h.finishResign hr).keeps hitem
  | fire w =>
    obtain ⟨k, hk, hs⟩ := bind_eq_some_iff.mp hs
    obtain ⟨⟨hnext, hlive⟩, ⟨⟩⟩ := ite_none_right_eq_some.mp hs
    exact (h.fire hk hnext hlive).keeps hitem
  | receive w =>
    simp only [Elector.step] at hs
    split at hs <;> cases hs
    next hk => exact (h.receive hk).keeps hitem
  | quit w =>
    simp only [Elector.step] at hs
    split at hs <;> cases hs
    next hk => exact (h.quit hk).keeps hitem
  | workerEffect w =>
    obtain ⟨k, hk, hs⟩ := bind_eq_some_iff.mp hs
    obtain ⟨⟨p', it'⟩, hx, ⟨⟩⟩ := map_eq_some_iff.mp hs
    exact h.workerEffect hroomy hitem hk hx
  | workerReturn w ret =>
    obtain ⟨k, hk, hs⟩ := bind_eq_some_iff.mp hs
    obtain ⟨p', hp', ⟨⟩⟩ := map_eq_some_iff.mp hs
    refine (h.workerReturn hroomy hk hp' fun hleader => ?_).keeps hitem
    rwa [Elector.confirmsStale, hleader, hk, Option.any_some, Bool.true_and] at hfresh
  | lose w =>
    simp only [Elector.step] at hs
    split at hs <;> cases hs
    next hk => exact (h.lose hk).keeps hitem

end Parts

/-! ### Runs -/

theorem sound_new (c : Config) (i : ι) (now : ℤ) {item : Option (Item ι)}
    (hclear : Clear i now item) : Sound c i now item .new where
  base := {
    campaigning := fun hne => absurd rfl hne
    live := fun _ _ hk => (nomatch hk)
    resigning := rfl
    resigns := fun _ hr => nomatch hr
    resolved := fun hres => (nomatch hres) }
  mode := .inl {
    owned := rfl
    cleanup := rfl
    campaign := fun _ hp => (nomatch hp)
    resigns := rfl
    quiet := fun _ hk => nomatch hk
    clear := hclear }

/-- **The invariant**: the item is a lease, and every elector is in one of its modes. -/
structure Inv (cfg : ι → Config) (y : Sys ι) : Prop where
  item : ItemOk cfg y.item
  sound : ∀ i, Sound (cfg i) i y.now y.item (y.electors i)
  active : ∀ i, i ∉ y.active → y.electors i = .new

theorem inv_new (cfg : ι → Config) (now : ℤ) : Inv cfg (.new now) where
  item _ hit := nomatch hit
  sound i := sound_new (cfg i) i now nofun
  active _ _ := rfl

theorem Inv.expire {cfg : ι → Config} (hroomy : ∀ i, (cfg i).Roomy) {y y' : Sys ι}
    (h : Inv cfg y) (hs : y.expire = some y') : Inv cfg y' := by
  unfold Sys.expire at hs
  split at hs
  next it hit =>
    obtain ⟨httl, ⟨⟩⟩ := ite_none_right_eq_some.mp hs
    have hexpired : it.lease ≤ unixMilli y.now := by
      rw [h.item it hit] at httl ⊢
      exact unixMilli_mono ((le_ttlSeconds _).trans httl)
    refine ⟨nofun, fun i => ?_, h.active⟩
    refine (h.sound i).foreign (hroomy i) h.item (.inr ⟨nofun, ?_⟩)
    intro it' hit' _
    obtain rfl := mem_unique hit hit'
    exact hexpired
  next => exact nomatch hs

theorem Inv.pass {cfg : ι → Config} {y y' : Sys ι} (h : Inv cfg y) {d : ℕ}
    (hs : y.pass d = some y') : Inv cfg y' := by
  obtain ⟨hwaits, ⟨⟩⟩ := ite_none_right_eq_some.mp hs
  refine ⟨h.item, fun i => (h.sound i).pass ?_ ?_, h.active⟩
  · exact le_add_of_nonneg_right (Int.natCast_nonneg d)
  by_cases hi : i ∈ y.active
  · exact List.all_eq_true.mp hwaits i hi
  · rw [h.active i hi]
    rfl

section Runs

variable [DecidableEq ι] {cfg : ι → Config}

theorem Inv.act (hroomy : ∀ i, (cfg i).Roomy) {y y' : Sys ι} (h : Inv cfg y) {i : ι} {a : Action}
    (hs : step cfg y (.act i a) = some y')
    (hfresh : (y.electors i).confirmsStale i y.now a = false) : Inv cfg y' := by
  obtain ⟨⟨e', item'⟩, hstep, rfl⟩ := map_eq_some_iff.mp hs
  obtain ⟨hsound, hitem, hforeign⟩ := (h.sound i).act (hroomy i) h.item hstep hfresh
  refine ⟨hitem, fun j => ?_, fun j hj => ?_⟩
  · change Sound (cfg j) j y.now item' (update y.electors i e' j)
    by_cases hji : j = i
    · subst hji
      rw [update_self]
      exact hsound
    · rw [update_of_ne hji]
      exact (h.sound j).foreign (hroomy j) h.item (hforeign j hji)
  · obtain ⟨hji, hj⟩ := not_or.mp (mt List.mem_cons.mpr hj)
    change update y.electors i e' j = .new
    rw [update_of_ne hji]
    exact h.active j hj

/-- **An event in which a leader takes an older lease for its renewal.** -/
def confirmsStale (ev : Ev ι) : Bool :=
  match ev.label with
  | .act i a => (ev.before.electors i).confirmsStale i ev.before.now a
  | _ => false

theorem Inv.step (hroomy : ∀ i, (cfg i).Roomy) {y y' : Sys ι} {l : Label ι} (h : Inv cfg y)
    (hs : step cfg y l = some y') (hfresh : confirmsStale ⟨y, l, y'⟩ = false) : Inv cfg y' := by
  cases l with
  | act i a => exact h.act hroomy hs hfresh
  | expire => exact h.expire hroomy hs
  | pass d => exact h.pass hs

end Runs

/-- **Leadership is exclusive** when the budgets fit into the lease and no leader takes an older
lease for its renewal. -/
theorem leadership_exclusive [DecidableEq ι] (cfg : ι → Config) (hroomy : ∀ i, (cfg i).Roomy)
    (now : ℤ) {h : List (Ev ι)} {y : Sys ι} (hr : Run (step cfg) (.new now) h y)
    (hfresh : ∀ ev ∈ h, confirmsStale ev = false) (i j : ι)
    (hi : (y.electors i).isLeader = true) (hj : (y.electors j).isLeader = true) : i = j := by
  have hinv : Inv cfg y :=
    hr.invariant_of_mem hfresh (inv_new cfg now) fun _ _ _ hinv hs hc => hinv.step hroomy hs hc
  obtain ⟨-, -, it, -, -, -, hit, rfl, -⟩ := ((hinv.sound i).leading hi).worker
  obtain ⟨-, -, it', -, -, -, hit', rfl, -⟩ := ((hinv.sound j).leading hj).worker
  rw [mem_unique hit hit']

/-! ### Two electors -/

namespace Pair

/-- The options of a group, with a lease and an interval; zero stands for the default. -/
def options (lease renewInterval : ℤ) : Options := ⟨"group", "member", lease, renewInterval, ""⟩

theorem second_pos : 0 < second := by decide

theorem accepted_defaults : newOptions (options 0 0) = .ok (options 0 0).withDefaults := by
  decide +kernel

theorem accepted_long :
    newOptions (options (10 * second) (9 * second)) =
      .ok (options (10 * second) (9 * second)).withDefaults := by
  decide +kernel

def defaults : Config := ⟨(options 0 0).withDefaults, ⟨_, accepted_defaults⟩, second, second_pos⟩

def long : Config :=
  ⟨(options (10 * second) (9 * second)).withDefaults, ⟨_, accepted_long⟩, second, second_pos⟩

def fine : Return := ⟨false, false, false⟩

/-- An elector puts the item and becomes the leader, all at one moment. -/
def lead (i : Bool) : List (Label Bool) :=
  [.act i .beginCampaign, .act i .campaignEffect, .act i (.campaignReturn fine),
    .act i .startRenewal, .act i (.checkContext false), .act i .endCampaign]

/-- An elector finds the item there, takes it over and becomes the leader. -/
def takeOver (i : Bool) : List (Label Bool) :=
  [.act i .beginCampaign, .act i .campaignEffect, .act i (.campaignReturn fine),
    .act i .campaignEffect, .act i (.campaignReturn fine), .act i .startRenewal]

/-- A renewal fails at once, and the probe finds the lease that is there. -/
def failedRenewal (i : Bool) : List (Label Bool) :=
  [.act i (.fire 0), .act i (.receive 0), .act i (.workerReturn 0 ⟨true, false, false⟩),
    .act i (.workerEffect 0), .act i (.workerReturn 0 fine)]

def renewal (i : Bool) : List (Label Bool) :=
  [.act i (.fire 0), .act i (.receive 0), .act i (.workerEffect 0),
    .act i (.workerReturn 0 fine)]

end Pair

open Pair

/-- A leader renews its lease, while another campaigns in vain. -/
theorem leadership_exclusive_renewed :
    ∃ h y, Run (step fun _ : Bool => defaults) (.new 0) h y ∧
      (y.electors true).isLeader = true ∧ ∀ j, (y.electors j).isLeader = true → true = j := by
  obtain ⟨h, y, hr, hfresh, hleader⟩ := exists_run (step fun _ : Bool => defaults) (.new 0)
    (lead true ++ [.pass 3000000000] ++ renewal true ++ [.pass 1000000000] ++
      (takeOver false).take 5)
    (fun h y => (∀ ev ∈ h, confirmsStale ev = false) ∧ (y.electors true).isLeader = true)
    (by decide +kernel)
  exact ⟨h, y, hr, hleader, fun j hj => leadership_exclusive (fun _ => defaults)
    (fun _ => by decide +kernel) 0 hr hfresh true j hleader hj⟩

/-- **A leader stays one beyond its lease.** With the default options the renewals after three, six
and nine seconds fail, and each time the probe finds the lease that was written in the beginning. It
runs out after ten seconds, and another elector takes it over, two seconds before the next tick. -/
theorem unrenewed_leader_overlaps :
    defaults.Roomy ∧ ∃ h y, Run (step fun _ : Bool => defaults) (.new 0) h y ∧
      (y.electors true).isLeader = true ∧ (y.electors false).isLeader = true := by
  refine ⟨by decide +kernel, exists_run _ _ ?_ _ ?_⟩
  · exact lead true ++ [.pass 3000000000] ++ failedRenewal true ++ [.pass 3000000000] ++
      failedRenewal true ++ [.pass 3000000000] ++ failedRenewal true ++ [.pass 1000000000] ++
      takeOver false
  · decide +kernel

/-- **A renewal outlasts the lease.** With an interval of nine seconds a renewal may take up to
fourteen seconds from the beginning, and the lease runs out after ten; no probe is involved. -/
theorem slow_renewal_overlaps :
    ∃ h y, Run (step fun _ : Bool => long) (.new 0) h y ∧
      (∀ ev ∈ h, confirmsStale ev = false) ∧
      (y.electors true).isLeader = true ∧ (y.electors false).isLeader = true := by
  exact exists_run _ _
    (lead true ++ [.pass 9000000000, .act true (.fire 0), .act true (.receive 0),
      .pass 1000000000] ++ takeOver false) _
    (by decide +kernel)

end Bluetape.Leader.Dynamo
