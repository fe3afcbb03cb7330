import Bluetape.Leader.DynamoElector

/-!
# What keeps a DynamoDB leader alone

What has to be arranged is this. While an elector is the leader, the item is its own, and whatever
its worker is in – waiting for the tick, a renewal, a probe – is over a millisecond before the lease
is (`Covered`); that millisecond is what the rounding of the lease may take. And no other call of
the elector touches the item meanwhile, since a campaign begins only when the worker has returned
and no resign is under way (`Base`).

An elector is in one of four modes (`Sound`). Here it is shown that it stays in its mode when other
electors move (`Sound.foreign`) and when time passes (`Sound.pass`). For this the budgets must fit
into the lease (`Config.Roomy`).
-/

namespace Bluetape.Leader.Dynamo

open Go

/-! ### Budgets -/

namespace Config

variable (cfg : Config)

/-- The checks of `New`. -/
theorem bounds : millisecond ≤ cfg.lease ∧ millisecond ≤ cfg.renewInterval ∧
    cfg.renewInterval < cfg.lease := by
  obtain ⟨raw, h⟩ := cfg.accepted
  unfold newOptions at h
  split at h
  next => cases h
  next o _ =>
    split_ifs at h with hbad
    cases h
    unfold lease renewInterval
    omega

theorem attemptBudget_nonneg : 0 ≤ cfg.attemptBudget := by
  have h := cfg.bounds
  simp only [attemptBudget, millisecond, second] at h ⊢
  split_ifs <;> omega

theorem renewalBudget_nonneg : 0 ≤ cfg.renewalBudget := by
  have h := cfg.bounds
  simp only [renewalBudget, millisecond] at h ⊢
  split_ifs <;> omega

/-- How long a renewal and its probe take. -/
def worst : ℤ := cfg.renewalBudget + cfg.attemptBudget

/-- **The budgets fit into the lease**: from the write that is probed, over the first tick, to the
end of the first renewal; and from a renewal, over one that has waited for it, to the end of that
one. A millisecond is left. -/
def Roomy : Prop :=
  2 * cfg.attemptBudget + cfg.renewInterval + cfg.worst + millisecond ≤ cfg.lease ∧
    2 * cfg.worst + millisecond ≤ cfg.lease
  deriving Decidable

theorem Roomy.two_attempts (h : cfg.Roomy) : 2 * cfg.attemptBudget + millisecond ≤ cfg.lease := by
  have h1 := h.1
  have hr := cfg.renewalBudget_nonneg
  have hb := cfg.bounds
  unfold worst millisecond at *
  omega

end Config

/-! ### The lease and the time -/

theorem unixMilli_mono {t t' : ℤ} (h : t ≤ t') : unixMilli t ≤ unixMilli t' := by
  simp only [unixMilli, millisecond]
  omega

theorem unixMilli_lt_of_add_le {t deadline : ℤ} (h : t + millisecond ≤ deadline) :
    unixMilli t < unixMilli deadline := by
  simp only [unixMilli, millisecond] at h ⊢
  omega

theorem le_ttlSeconds (deadline : ℤ) : deadline ≤ ttlSeconds deadline * second := by
  simp only [ttlSeconds, second]
  split_ifs <;> omega

variable {ι : Type}

/-- It has a lease of its owner. -/
def ItemOk (cfg : ι → Config) (item : Option (Item ι)) : Prop :=
  ∀ it, item = some it → it = leaseItem (cfg it.owner) it.owner it.issued

theorem ItemOk.leaseItem (cfg : ι → Config) (i : ι) (issued : ℤ) :
    ItemOk cfg (some (leaseItem (cfg i) i issued)) := by
  rintro it ⟨rfl⟩
  rfl

/-- The elector has no active lease. -/
def Clear (i : ι) (now : ℤ) (item : Option (Item ι)) : Prop :=
  ∀ it, item = some it → it.owner = i → it.lease ≤ unixMilli now

/-- The elector has written the item, with a call that was issued then. -/
def Own (i : ι) (item : Option (Item ι)) (issued : ℤ) : Prop :=
  ∃ it, item = some it ∧ it.owner = i ∧ it.issued = issued

/-- A probe has read what is there. -/
def Same (i : ι) (item : Option (Item ι)) (reply : Option (Option (Item ι))) : Prop :=
  ∀ snap, reply = some snap → ∀ it, item = some it → it.owner = i → snap = some it

/-- **The lease is over a millisecond later at the earliest**: it cannot be taken over. -/
theorem lease_of_own {cfg : ι → Config} {i : ι} {now issued : ℤ} {item : Option (Item ι)}
    (hitem : ItemOk cfg item) (hown : Own i item issued)
    (hle : now + millisecond ≤ issued + (cfg i).lease) :
    ∃ it, item = some it ∧ it.owner = i ∧ unixMilli now < it.lease := by
  obtain ⟨it, hit, rfl, rfl⟩ := hown
  refine ⟨it, hit, rfl, ?_⟩
  rw [hitem it hit]
  exact unixMilli_lt_of_add_le hle

/-! ### What other electors and time do -/

/-- Time has passed, and no lease was taken. -/
def Later (i : ι) (now : ℤ) (item : Option (Item ι)) (now' : ℤ) (item' : Option (Item ι)) : Prop :=
  now ≤ now' ∧ (item' = item ∨ ∀ it, item' = some it → it.owner ≠ i)

/-- The item is as it was, or it has become another's and the elector's lease was not active. -/
def Foreign (i : ι) (now : ℤ) (item item' : Option (Item ι)) : Prop :=
  item' = item ∨ ((∀ it, item' = some it → it.owner ≠ i) ∧ Clear i now item)

theorem Foreign.later {i : ι} {now : ℤ} {item item' : Option (Item ι)}
    (h : Foreign i now item item') : Later i now item now item' :=
  ⟨le_rfl, h.imp id And.left⟩

section Later

variable {i : ι} {now now' : ℤ} {item item' : Option (Item ι)}

theorem Clear.later (h : Clear i now item) (hl : Later i now item now' item') :
    Clear i now' item' := by
  intro it hit howner
  rcases hl.2 with rfl | hne
  · exact (h it hit howner).trans (unixMilli_mono hl.1)
  · exact absurd howner (hne it hit)

theorem Same.later {reply : Option (Option (Item ι))} (h : Same i item reply)
    (hl : Later i now item now' item') : Same i item' reply := by
  intro snap hsnap it hit howner
  rcases hl.2 with rfl | hne
  · exact h snap hsnap it hit howner
  · exact absurd howner (hne it hit)

theorem Same.read (i : ι) (item : Option (Item ι)) : Same i item (some item) := by
  rintro snap ⟨rfl⟩ it hit -
  exact hit

theorem Own.foreign {cfg : ι → Config} {issued : ℤ} (hitem : ItemOk cfg item)
    (hown : Own i item issued) (hle : now + millisecond ≤ issued + (cfg i).lease)
    (hf : Foreign i now item item') : item' = item := by
  rcases hf with heq | ⟨-, hclear⟩
  · exact heq
  · obtain ⟨it, hit, howner, hlt⟩ := lease_of_own hitem hown hle
    exact absurd (hclear it hit howner) (not_le.mpr hlt)

end Later

/-! ### What holds whatever the elector is -/

section Base

variable (i : ι) (now : ℤ) (item : Option (Item ι))

/-- All workers have returned. -/
def Elector.Quiet (e : Elector ι) : Prop := ∀ k ∈ e.workers, k.phase = .returned

/-- What is known of a worker. -/
def WorkerOk : WorkerPhase ι → Prop
  | .renewing c => c.issued ≤ now ∧ (c.reply = some false → Clear i now item)
  | .probing _ c => Same i item c.reply
  | .losing cleanup => cleanup = false → Clear i now item
  | _ => True

/-- What is known of a resign. -/
def ResignOk (quiet : Prop) : ResignPhase ι → Prop
  | .deleting reply => quiet ∧ (reply ≠ none → Clear i now item)
  | .probing c => quiet ∧ Same i item c.reply
  | .finishing resolved => resolved = true → quiet ∧ Clear i now item
  | _ => True

/-- **What holds of an elector in any case**: only the worker that the fields belong to is alive,
resigns are of this generation and counted, and when they are resolved the worker has returned. -/
structure Base (e : Elector ι) : Prop where
  campaigning : e.campaign ≠ none → e.flags.campaigning = true
  live : ∀ (w : ℕ) (k : Worker ι), e.workers[w]? = some k → k.phase ≠ .returned →
    e.flags.done = some w ∧ k.generation = e.flags.generation ∧ WorkerOk i now item k.phase
  resigning : e.flags.resigning = e.resigns.length
  resigns : ∀ r ∈ e.resigns, r.generation = e.flags.generation ∧ r.done = e.flags.done ∧
    ResignOk i now item e.Quiet r.phase
  resolved : e.flags.resolved = true → e.resigns ≠ [] ∧ e.Quiet ∧ Clear i now item

end Base

section BaseLater

variable {i : ι} {now now' : ℤ} {item item' : Option (Item ι)}

theorem WorkerOk.later {p : WorkerPhase ι} (h : WorkerOk i now item p)
    (hl : Later i now item now' item') : WorkerOk i now' item' p := by
  cases p with
  | renewing c => exact ⟨h.1.trans hl.1, fun hr => (h.2 hr).later hl⟩
  | probing attempt c => exact Same.later h hl
  | losing cleanup => exact fun hc => (h hc).later hl
  | _ => trivial

theorem ResignOk.later {quiet : Prop} {p : ResignPhase ι} (h : ResignOk i now item quiet p)
    (hl : Later i now item now' item') : ResignOk i now' item' quiet p := by
  cases p with
  | deleting reply => exact ⟨h.1, fun hr => (h.2 hr).later hl⟩
  | probing c => exact ⟨h.1, h.2.later hl⟩
  | finishing resolved => exact fun hr => ⟨(h hr).1, (h hr).2.later hl⟩
  | _ => trivial

theorem Base.later {e : Elector ι} (h : Base i now item e) (hl : Later i now item now' item') :
    Base i now' item' e where
  campaigning := h.campaigning
  live w k hk hlive := by
    obtain ⟨hdone, hgen, hok⟩ := h.live w k hk hlive
    exact ⟨hdone, hgen, hok.later hl⟩
  resigning := h.resigning
  resigns r hr := by
    obtain ⟨hgen, hdone, hok⟩ := h.resigns r hr
    exact ⟨hgen, hdone, hok.later hl⟩
  resolved hres := by
    obtain ⟨hne, hquiet, hclear⟩ := h.resolved hres
    exact ⟨hne, hquiet, hclear.later hl⟩

end BaseLater

/-! ### What the elector is -/

section Modes

variable (cfg : Config) (i : ι) (now : ℤ) (item : Option (Item ι))

/-- It has not decided its outcome. -/
def CampaignPhase.seeking : CampaignPhase ι → Bool
  | .started => false
  | .marking hasStarted => !hasStarted
  | .ending => false
  | _ => true

/-- A write of a campaign: it has made the lease the elector's, or there is none. -/
structure WriteOk (c : Call Bool) : Prop where
  issued_le : c.issued ≤ now
  le_due : now ≤ c.due
  due_eq : c.due = c.issued + cfg.attemptBudget
  own : c.reply = some true → Own i item c.issued
  clear : c.reply ≠ some true → Clear i now item

/-- A probe of a campaign: the write before it has had no effect, or what is there is what it
wrote. -/
structure ProbeOk (attempt : ℤ) (c : Call (Option (Item ι))) : Prop where
  le_due : now ≤ c.due
  due_le : c.due ≤ attempt + 2 * cfg.attemptBudget
  found : (Clear i now item ∧ ∀ it, c.reply = some (some it) → it.owner = i →
      it.lease ≤ unixMilli now) ∨
    (Own i item attempt ∧ ∀ snap, c.reply = some snap → snap = item)

/-- What holds of a campaign that has not decided its outcome. -/
def SeekOk : CampaignPhase ι → Prop
  | .putting c => WriteOk cfg i now item c
  | .takingOver c => WriteOk cfg i now item c
  | .probing _ attempt c => ProbeOk cfg i now item attempt c
  | .won => ∃ t, Own i item t ∧ now ≤ t + 2 * cfg.attemptBudget
  | .sleeping _ => Clear i now item
  | _ => True

/-- Up to when the lease is active. -/
def limit (it : Item ι) : ℤ := it.issued + cfg.lease - millisecond

/-- **The lease covers what the worker is in**, and the renewal that comes after it. -/
def Covered (it : Item ι) (k : Worker ι) : Prop :=
  match k.phase with
  | .waiting => (if k.buffered = true then now else k.next) + cfg.worst ≤ limit cfg it
  | .renewing c => c.due + cfg.attemptBudget ≤ limit cfg it ∧ now ≤ c.due ∧
      c.due = c.issued + cfg.renewalBudget ∧
      (k.buffered = false → k.next ≤ c.issued + cfg.renewInterval) ∧
      (c.reply = some true → it.issued = c.issued)
  | .probing attempt c => c.due ≤ limit cfg it ∧ now ≤ c.due ∧ c.due ≤ attempt + cfg.worst ∧
      (k.buffered = false → k.next ≤ attempt + cfg.renewInterval)
  | .losing _ => now ≤ limit cfg it
  | .returned => False

/-- The next tick is to come. -/
def Ticking (k : Worker ι) : Prop := now ≤ k.next ∧ k.next ≤ now + cfg.renewInterval

/-- The elector has nothing, and nothing is under way but perhaps the end of a campaign. -/
structure Idle (e : Elector ι) : Prop where
  owned : e.flags.owned = false
  cleanup : e.flags.cleanup = false
  campaign : ∀ p, e.campaign = some p → p.seeking = false
  resigns : e.resigns = []
  quiet : e.Quiet
  clear : Clear i now item

/-- **A campaign is on its way.** -/
structure Seeking (e : Elector ι) : Prop where
  owned : e.flags.owned = false
  cleanup : e.flags.cleanup = false
  resigns : e.resigns = []
  quiet : e.Quiet
  campaign : ∃ p, e.campaign = some p ∧ p.seeking = true ∧ SeekOk cfg i now item p

/-- **The elector is the leader**: the item is its own, and covers its worker. -/
structure Leading (e : Elector ι) : Prop where
  cleanup : e.flags.cleanup = false
  campaign : ∀ p, e.campaign = some p → p.seeking = false
  resigns : e.resigns = []
  worker : ∃ w k it, e.flags.done = some w ∧ e.workers[w]? = some k ∧ k.cancelled = false ∧
    item = some it ∧ it.owner = i ∧ Ticking cfg now k ∧ Covered cfg now it k

/-- **Something is left to clean up.** -/
structure Cleaning (e : Elector ι) : Prop where
  owned : e.flags.owned = false
  cleanup : e.flags.cleanup = true
  campaign : ∀ p, e.campaign = some p → p.seeking = false

/-- **An elector is in one of four modes.** -/
structure Sound (e : Elector ι) : Prop where
  base : Base i now item e
  mode : Idle i now item e ∨ Seeking cfg i now item e ∨
    (e.flags.owned = true ∧ Leading cfg i now item e) ∨ Cleaning e

end Modes

section Sound

variable {cfg : ι → Config} {i : ι} {now now' : ℤ} {item item' : Option (Item ι)} {e e' : Elector ι}

variable {k : Worker ι} {c : Config} {it : Item ι}

theorem Covered.now_le (h : Covered c now it k) (ht : Ticking c now k) : now ≤ limit c it := by
  have ha := c.attemptBudget_nonneg
  have hr := c.renewalBudget_nonneg
  have hw : c.worst = c.renewalBudget + c.attemptBudget := rfl
  unfold Covered at h
  cases hp : k.phase with
  | waiting =>
    rw [hp] at h
    have := ht.1
    cases hb : k.buffered with
    | true =>
      omega
    | false =>
      omega
  | renewing call | probing attempt call =>
    rw [hp] at h
    omega
  | losing cleanup =>
    rw [hp] at h
    exact h
  | returned =>
    rw [hp] at h
    exact h.elim

theorem Leading.lease_lt (hitem : ItemOk cfg item) (h : Leading (cfg i) i now item e) :
    ∃ it, item = some it ∧ it.owner = i ∧ unixMilli now < it.lease := by
  obtain ⟨w, k, it, -, -, -, hit, howner, htick, hcov⟩ := h.worker
  have hle := hcov.now_le htick
  refine lease_of_own hitem ⟨it, hit, howner, rfl⟩ ?_
  unfold limit at hle
  omega

section

variable (h : Sound (cfg i) i now item e)
include h

theorem Sound.leading (howned : e.flags.owned = true) : Leading (cfg i) i now item e := by
  rcases h.mode with hm | hm | ⟨-, hm⟩ | hm
  · exact nomatch hm.owned.symm.trans howned
  · exact nomatch hm.owned.symm.trans howned
  · exact hm
  · exact nomatch hm.owned.symm.trans howned

variable {p : CampaignPhase ι}

theorem Sound.seeking (hp : e.campaign = some p)
    (hseek : p.seeking = true) : Seeking (cfg i) i now item e ∧ SeekOk (cfg i) i now item p := by
  have hnot : ¬∀ p, e.campaign = some p → p.seeking = false := fun hno =>
    (nomatch (hno p hp).symm.trans hseek)
  rcases h.mode with hm | hm | ⟨-, hm⟩ | hm
  · exact absurd hm.campaign hnot
  · obtain ⟨p', hp', -, hok⟩ := hm.campaign
    obtain rfl := Option.mem_unique hp hp'
    exact ⟨hm, hok⟩
  · exact absurd hm.campaign hnot
  · exact absurd hm.campaign hnot

theorem Sound.cleaning (hne : e.resigns ≠ []) : Cleaning e := by
  rcases h.mode with hm | hm | ⟨-, hm⟩ | hm
  · exact absurd hm.resigns hne
  · exact absurd hm.resigns hne
  · exact absurd hm.resigns hne
  · exact hm

theorem Sound.alive {w : ℕ} (hk : e.workers[w]? = some k) (hlive : k.phase ≠ .returned) :
    (e.flags.owned = true ∧ Leading (cfg i) i now item e) ∨ Cleaning e := by
  have hnot : ¬e.Quiet := fun hq => hlive (hq k (List.mem_of_getElem? hk))
  rcases h.mode with hm | hm | hm | hm
  · exact absurd hm.quiet hnot
  · exact absurd hm.quiet hnot
  · exact .inl hm
  · exact .inr hm

end

/-! ### Steps of others -/

section

variable (hroomy : (cfg i).Roomy) (hitem : ItemOk cfg item)
include hroomy hitem

theorem WriteOk.foreign {c : Call Bool} (h : WriteOk (cfg i) i now item c)
    (hf : Foreign i now item item') : WriteOk (cfg i) i now item' c := by
  refine ⟨h.issued_le, h.le_due, h.due_eq, fun hr => ?_, fun hr => (h.clear hr).later hf.later⟩
  have hlease : now + millisecond ≤ c.issued + (cfg i).lease := by
    have := h.le_due
    have := h.due_eq
    have := hroomy.two_attempts
    have := (cfg i).attemptBudget_nonneg
    omega
  rw [(h.own hr).foreign hitem hlease hf]
  exact h.own hr

theorem ProbeOk.foreign {attempt : ℤ} {c : Call (Option (Item ι))}
    (h : ProbeOk (cfg i) i now item attempt c) (hf : Foreign i now item item') :
    ProbeOk (cfg i) i now item' attempt c := by
  refine ⟨h.le_due, h.due_le, ?_⟩
  rcases h.found with ⟨hclear, hread⟩ | hown
  · exact .inl ⟨hclear.later hf.later, hread⟩
  · have hlease : now + millisecond ≤ attempt + (cfg i).lease := by
      have := h.le_due
      have := h.due_le
      have := hroomy.two_attempts
      omega
    rw [hown.1.foreign hitem hlease hf]
    exact .inr hown

theorem SeekOk.foreign (h : SeekOk (cfg i) i now item p) (hf : Foreign i now item item') :
    SeekOk (cfg i) i now item' p := by
  cases p with
  | putting c | takingOver c => exact WriteOk.foreign hroomy hitem h hf
  | probing retry attempt c => exact ProbeOk.foreign hroomy hitem h hf
  | won =>
    obtain ⟨t, hown, hle⟩ := h
    have hlease : now + millisecond ≤ t + (cfg i).lease := by
      have := hroomy.two_attempts
      omega
    rw [SeekOk, hown.foreign hitem hlease hf]
    exact ⟨t, hown, hle⟩
  | sleeping wakeup => exact Clear.later h hf.later
  | _ => trivial

/-- **What others do with the item does not matter.** -/
theorem Sound.foreign (h : Sound (cfg i) i now item e) (hf : Foreign i now item item') :
    Sound (cfg i) i now item' e := by
  refine ⟨h.base.later hf.later, ?_⟩
  rcases h.mode with hm | hm | ⟨howned, hm⟩ | hm
  · exact .inl ⟨hm.owned, hm.cleanup, hm.campaign, hm.resigns, hm.quiet, hm.clear.later hf.later⟩
  · obtain ⟨p, hp, hseek, hok⟩ := hm.campaign
    exact .inr (.inl ⟨hm.owned, hm.cleanup, hm.resigns, hm.quiet, p, hp, hseek,
      hok.foreign hroomy hitem hf⟩)
  · refine .inr (.inr (.inl ⟨howned, ?_⟩))
    obtain ⟨it, hit, howner, hlt⟩ := hm.lease_lt hitem
    rcases hf with rfl | ⟨-, hclear⟩
    · exact hm
    · exact absurd (hclear it hit howner) (not_le.mpr hlt)
  · exact .inr (.inr (.inr hm))

/-! ### Time -/

end

theorem Covered.pass (h : Covered c now it k) (ht : Ticking c now k) (hle : now ≤ now')
    (hw : k.waits now' = true) : Ticking c now' k ∧ Covered c now' it k := by
  obtain ⟨ht1, ht2⟩ := ht
  unfold Covered at h ⊢
  unfold Worker.waits at hw
  cases hp : k.phase with
  | waiting =>
    rw [hp] at h hw
    rw [Bool.and_eq_true, Bool.and_eq_true, Bool.not_eq_true', Bool.not_eq_true',
      decide_eq_true_eq] at hw
    obtain ⟨⟨hbuf, -⟩, hnext⟩ := hw
    simp only [hbuf, Bool.false_eq_true, if_false] at h ⊢
    exact ⟨⟨hnext, by omega⟩, h⟩
  | renewing call | probing attempt call =>
    rw [hp] at h hw
    rw [Bool.and_eq_true, decide_eq_true_eq, decide_eq_true_eq] at hw
    obtain ⟨h1, -, h3⟩ := h
    exact ⟨⟨hw.2, by omega⟩, h1, hw.1, h3⟩
  | losing cleanup =>
    rw [hp] at hw
    exact nomatch hw
  | returned =>
    rw [hp] at h
    exact h.elim

theorem SeekOk.pass (h : SeekOk c i now item p) (hseek : p.seeking = true) (hle : now ≤ now')
    (hw : p.waits now' = true) : SeekOk c i now' item p := by
  have hl : Later i now item now' item := ⟨hle, .inl rfl⟩
  have hwrite : ∀ call : Call Bool, WriteOk c i now item call → now' ≤ call.due →
      WriteOk c i now' item call := fun call hok hdue =>
    ⟨hok.issued_le.trans hle, hdue, hok.due_eq, hok.own, fun hr => (hok.clear hr).later hl⟩
  cases p with
  | putting call | takingOver call => exact hwrite call h (of_decide_eq_true hw)
  | probing retry attempt call =>
    refine ⟨of_decide_eq_true hw, h.due_le, ?_⟩
    rcases h.found with ⟨hclear, hread⟩ | hown
    · exact .inl ⟨hclear.later hl, fun it hit howner =>
        (hread it hit howner).trans (unixMilli_mono hle)⟩
    · exact .inr hown
  | sleeping wakeup => exact Clear.later h hl
  | won => exact nomatch hw
  | _ => trivial

/-- **Time passes.** -/
theorem Sound.pass (h : Sound (cfg i) i now item e) (hle : now ≤ now') (hw : e.waits now' = true) :
    Sound (cfg i) i now' item e := by
  have hl : Later i now item now' item := ⟨hle, .inl rfl⟩
  rw [Elector.waits, Bool.and_eq_true, Bool.and_eq_true] at hw
  obtain ⟨⟨hcampaign, -⟩, hworkers⟩ := hw
  refine ⟨h.base.later hl, ?_⟩
  rcases h.mode with hm | hm | ⟨howned, hm⟩ | hm
  · exact .inl ⟨hm.owned, hm.cleanup, hm.campaign, hm.resigns, hm.quiet, hm.clear.later hl⟩
  · obtain ⟨p, hp, hseek, hok⟩ := hm.campaign
    rw [hp, Option.all_some] at hcampaign
    exact .inr (.inl ⟨hm.owned, hm.cleanup, hm.resigns, hm.quiet, p, hp, hseek,
      hok.pass hseek hle hcampaign⟩)
  · obtain ⟨w, k, it, hdone, hk, hcancelled, hit, howner, htick, hcov⟩ := hm.worker
    have hwait := List.all_eq_true.mp hworkers k (List.mem_of_getElem? hk)
    obtain ⟨htick', hcov'⟩ := hcov.pass htick hle hwait
    exact .inr (.inr (.inl ⟨howned, hm.cleanup, hm.campaign, hm.resigns, w, k, it, hdone, hk,
      hcancelled, hit, howner, htick', hcov'⟩))
  · exact .inr (.inr (.inr hm))

end Sound

end Bluetape.Leader.Dynamo
