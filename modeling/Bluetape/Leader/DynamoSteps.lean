import Bluetape.Leader.DynamoInvariant

/-!
# The steps of a DynamoDB elector

One lemma for each kind of step: a campaign, a resign or a worker issues a call, the call takes
effect, it returns. What a step must leave behind is `Keeps`: the elector in one of its modes, a
lease of its owner in the item, and the active leases of others untouched. The steps that matter are
these.

* A campaign that has the lease starts its worker (`Sound.startRenewal`): the lease covers
  everything up to the end of the first renewal.
* A renewal takes effect (`Sound.workerEffect`), and the lease counts from the moment at which it
  was issued.
* A renewal or its probe returns (`Sound.workerReturn`). Here a leader may take an older lease for
  its renewal (`WorkerPhase.confirmsStale`), and nothing covers it until the next tick.
* A resign has found its worker returned (`Base.quiet_of_joinable`), so that no renewal can follow
  its delete.
-/

namespace Bluetape.Leader.Dynamo

open Go Lts Option List

variable {ι : Type}

section Parts

variable {cfg : ι → Config} {i : ι} {now : ℤ} {item item' : Option (Item ι)} {e : Elector ι}

/-! ### What the calls do -/

/-- **A write of a lease**: it succeeds, and no other has an active lease, or it changes nothing. -/
def Writes (cfg : Config) (i : ι) (issued now : ℤ) (item : Option (Item ι))
    (x : Bool × Option (Item ι)) : Prop :=
  (x.1 = true ∧ x.2 = some (leaseItem cfg i issued) ∧
    ∀ it, item = some it → it.owner ≠ i → it.lease ≤ unixMilli now) ∨ (x.1 = false ∧ x.2 = item)

variable {c : Config} {issued : ℤ}

theorem writes_putItem : Writes c i issued now item (putItem c i issued item) := by
  cases item with
  | none => exact .inl ⟨rfl, rfl, nofun⟩
  | some it => exact .inr ⟨rfl, rfl⟩

theorem writes_takeoverItem (hle : issued ≤ now) :
    Writes c i issued now item (takeoverItem c i issued item) := by
  cases item with
  | none => exact .inl ⟨rfl, rfl, nofun⟩
  | some it =>
    rw [takeoverItem]
    split_ifs with hexpired
    · refine .inl ⟨rfl, rfl, ?_⟩
      rintro it' ⟨rfl⟩ -
      exact hexpired.trans (unixMilli_mono hle)
    · exact .inr ⟨rfl, rfl⟩

theorem writes_renewItem [DecidableEq ι] :
    Writes c i issued now item (renewItem c i issued item) := by
  cases item with
  | none => exact .inr ⟨rfl, rfl⟩
  | some it =>
    rw [renewItem]
    split_ifs with hown
    · refine .inl ⟨rfl, rfl, ?_⟩
      rintro it' ⟨rfl⟩ hne
      exact absurd hown.1 hne
    · exact .inr ⟨rfl, rfl⟩

theorem clear_of_renewItem [DecidableEq ι] (hle : issued ≤ now)
    (hno : (renewItem c i issued item).1 = false) : Clear i now item := by
  rintro it rfl howner
  rw [renewItem] at hno
  split_ifs at hno with hown
  exact (not_lt.mp fun hlt => hown ⟨howner, hlt⟩).trans (unixMilli_mono hle)

theorem deleteItem_spec [DecidableEq ι] (i : ι) (item : Option (Item ι)) :
    (∀ it, (deleteItem i item).2 = some it → it.owner ≠ i) ∧ ((deleteItem i item).2 = item ∨
        (deleteItem i item).2 = none ∧ ∀ it, item = some it → it.owner = i) := by
  cases item with
  | none => exact ⟨nofun, .inl rfl⟩
  | some it =>
    rw [deleteItem]
    split_ifs with hown
    · exact ⟨nofun, .inr ⟨rfl, fun it' hit' => Option.some.inj hit' ▸ hown⟩⟩
    · exact ⟨fun it' hit' => Option.some.inj hit' ▸ hown, .inl rfl⟩

variable {x : Bool × Option (Item ι)}

theorem Writes.itemOk (h : Writes (cfg i) i issued now item x) (hitem : ItemOk cfg item) :
    ItemOk cfg x.2 := by
  rcases h with ⟨-, hx, -⟩ | ⟨-, hx⟩
  · exact hx ▸ ItemOk.leaseItem cfg i issued
  · exact hx ▸ hitem

theorem Writes.foreign (h : Writes c i issued now item x) {j : ι} (hne : j ≠ i) :
    Foreign j now item x.2 := by
  rcases h with ⟨-, hx, hexpired⟩ | ⟨-, hx⟩
  · refine .inr ⟨fun it hit => ?_, fun it hit howner => hexpired it hit (howner.trans_ne hne)⟩
    obtain rfl := mem_unique hx hit
    exact hne.symm
  · exact .inl hx

theorem Writes.own (h : Writes c i issued now item x) (htrue : x.1 = true) : Own i x.2 issued := by
  rcases h with ⟨-, hx, -⟩ | ⟨hfalse, -⟩
  · exact ⟨_, hx, rfl, rfl⟩
  · exact nomatch hfalse.symm.trans htrue

theorem Writes.same (h : Writes c i issued now item x) (hfalse : x.1 ≠ true) : x.2 = item := by
  rcases h with ⟨htrue, -⟩ | ⟨-, hx⟩
  · exact absurd htrue hfalse
  · exact hx

theorem reply_of_writeResult {reply : Option Bool} {failed : Bool} {result : WriteResult}
    (h : writeResult reply failed = some result) :
    (result = .ok → reply = some true) ∧ (result = .conditional → reply = some false) := by
  rw [writeResult] at h
  split_ifs at h with hfailed
  · cases h
    exact ⟨nofun, nofun⟩
  · obtain ⟨ok, hreply, rfl⟩ := map_eq_some_iff.mp h
    cases ok with
    | true => exact ⟨fun _ => hreply, nofun⟩
    | false => exact ⟨nofun, fun _ => hreply⟩

variable {r : Return}

/-- A probe that answers has read the item, and says whether there is an active lease of the
elector. -/
theorem reply_of_probeResult [DecidableEq ι] {reply : Option (Option (Item ι))}
    {result : ProbeResult} (h : probeResult i now reply r = some result) :
    (result = .confirmed → ∃ it, reply = some (some it) ∧ it.owner = i ∧ unixMilli now < it.lease) ∧
      (result = .other → ∃ snap, reply = some snap ∧ Clear i now snap) := by
  rw [probeResult] at h
  split_ifs at h with hfailed
  · cases h
    exact ⟨nofun, nofun⟩
  · obtain ⟨snap, hreply, hresult⟩ := map_eq_some_iff.mp h
    cases snap with
    | none =>
      obtain rfl : ProbeResult.other = result := hresult
      exact ⟨nofun, fun _ => ⟨none, hreply, nofun⟩⟩
    | some it =>
      dsimp only at hresult
      split_ifs at hresult with hmalformed hactive <;> obtain rfl := hresult
      · exact ⟨nofun, nofun⟩
      · exact ⟨fun _ => ⟨it, hreply, hactive.2, hactive.1⟩, nofun⟩
      · refine ⟨nofun, fun _ => ⟨some it, hreply, ?_⟩⟩
        rintro it' ⟨rfl⟩ howner
        exact not_lt.mp fun hlt => hactive ⟨hlt, howner⟩

theorem Same.clear {reply : Option (Option (Item ι))} {snap : Option (Item ι)}
    (h : Same i item reply) (hreply : reply = some snap) (hclear : Clear i now snap) :
    Clear i now item := fun it hit howner =>
  hclear it (h snap hreply it hit howner) howner

/-! ### What a step of an elector keeps -/

/-- A step of an elector leaves it in a mode, the item a lease, and the others their leases. -/
def Keeps (cfg : ι → Config) (i : ι) (now : ℤ) (item item' : Option (Item ι)) (e' : Elector ι) :
    Prop :=
  Sound (cfg i) i now item' e' ∧ ItemOk cfg item' ∧ ∀ j, j ≠ i → Foreign j now item item'

theorem Sound.keeps {e' : Elector ι} (h : Sound (cfg i) i now item e') (hitem : ItemOk cfg item) :
    Keeps cfg i now item item e' :=
  ⟨h, hitem, fun _ _ => .inl rfl⟩

theorem Base.of_quiet (h : Base i now item e) (hquiet : e.Quiet) (hresigns : e.resigns = []) :
    Base i now item' e where
  campaigning := h.campaigning
  live _ k hk hlive := absurd (hquiet k (mem_of_getElem? hk)) hlive
  resigning := h.resigning
  resigns _ hr := absurd hr (hresigns ▸ not_mem_nil)
  resolved hres := absurd hresigns (h.resolved hres).1

variable {p : CampaignPhase ι}

theorem Base.setCampaign (h : Base i now item e) (hp : e.campaign = some p) (p' : CampaignPhase ι) :
    Base i now item { e with campaign := some p' } where
  campaigning _ := h.campaigning (hp ▸ some_ne_none p)
  live := h.live
  resigning := h.resigning
  resigns := h.resigns
  resolved := h.resolved

/-! ### Campaigns -/

theorem WriteOk.of_clear (hclear : Clear i now item) :
    WriteOk c i now item (issue now c.attemptBudget) where
  issued_le := le_rfl
  le_due := le_add_of_nonneg_right c.attemptBudget_nonneg
  due_eq := rfl
  own hr := nomatch hr
  clear _ := hclear

theorem Sound.beginCampaign (h : Sound (cfg i) i now item e) {f : Flags}
    (hf : e.flags.beginCampaign = .ok f) :
    Sound (cfg i) i now item
      { e with flags := f, campaign := some (.putting (issue now (cfg i).attemptBudget)) } := by
  obtain ⟨hcleanup, howned, hcampaigning, rfl⟩ := Flags.beginCampaign_eq_ok hf
  have hbase : Base i now item { e with
      flags := { e.flags with campaigning := true }
      campaign := some (.putting (issue now (cfg i).attemptBudget)) } :=
    ⟨fun _ => rfl, h.base.live, h.base.resigning, h.base.resigns, h.base.resolved⟩
  rcases h.mode with hm | hm | ⟨hm, -⟩ | hm
  · exact ⟨hbase, .inr (.inl ⟨howned, hcleanup, hm.resigns, hm.quiet, _, rfl, rfl,
      WriteOk.of_clear hm.clear⟩)⟩
  · obtain ⟨p, hp, -⟩ := hm.campaign
    have := h.base.campaigning (hp ▸ some_ne_none p)
    exact nomatch hcampaigning.symm.trans this
  · exact nomatch howned.symm.trans hm
  · exact nomatch hcleanup.symm.trans hm.cleanup

variable {p' : CampaignPhase ι}

theorem Seeking.setCampaign (hbase : Base i now item e) (hm : Seeking (cfg i) i now item e)
    (hp : e.campaign = some p) (hseek : p'.seeking = true) (hok : SeekOk (cfg i) i now item' p') :
    Sound (cfg i) i now item' { e with campaign := some p' } :=
  ⟨(hbase.setCampaign hp p').of_quiet hm.quiet hm.resigns,
    .inr (.inl ⟨hm.owned, hm.cleanup, hm.resigns, hm.quiet, p', rfl, hseek, hok⟩)⟩

theorem Seeking.ending (hbase : Base i now item e) (hm : Seeking (cfg i) i now item e)
    (hp : e.campaign = some p) (hseek : p'.seeking = false) (hclear : Clear i now item) :
    Sound (cfg i) i now item { e with campaign := some p' } := by
  refine ⟨hbase.setCampaign hp p', .inl ⟨hm.owned, hm.cleanup, ?_, hm.resigns, hm.quiet, hclear⟩⟩
  rintro p'' ⟨rfl⟩
  exact hseek

theorem Sound.setCampaign (h : Sound (cfg i) i now item e) (hp : e.campaign = some p)
    (hseek : p.seeking = false) {campaigning : Bool} {c : Option (CampaignPhase ι)}
    (hcampaigning : c ≠ none → campaigning = true) (hc : ∀ p', c = some p' → p'.seeking = false) :
    Sound (cfg i) i now item
      { e with flags := { e.flags with campaigning := campaigning }, campaign := c } := by
  refine ⟨⟨hcampaigning, h.base.live, h.base.resigning, h.base.resigns, h.base.resolved⟩, ?_⟩
  rcases h.mode with hm | hm | ⟨howned, hm⟩ | hm
  · exact .inl ⟨hm.owned, hm.cleanup, hc, hm.resigns, hm.quiet, hm.clear⟩
  · obtain ⟨p', hp', hseek', -⟩ := hm.campaign
    obtain rfl := mem_unique hp hp'
    exact nomatch hseek.symm.trans hseek'
  · exact .inr (.inr (.inl ⟨howned, hm.cleanup, hc, hm.resigns, hm.worker⟩))
  · exact .inr (.inr (.inr ⟨hm.owned, hm.cleanup, hc⟩))

theorem WriteOk.effect {due : ℤ} (h : WriteOk c i now item ⟨issued, due, none⟩)
    (hx : Writes c i issued now item x) : WriteOk c i now x.2 ⟨issued, due, some x.1⟩ where
  issued_le := h.issued_le
  le_due := h.le_due
  due_eq := h.due_eq
  own hr := hx.own (Option.some.inj hr)
  clear hr := by
    rw [hx.same fun htrue => hr (congrArg some htrue)]
    exact h.clear nofun

/-- **A call of a campaign takes effect.** -/
theorem Sound.campaignEffect (hitem : ItemOk cfg item) (h : Sound (cfg i) i now item e)
    (hp : e.campaign = some p) (hx : campaignEffect (cfg i) i item p = some (p', item')) :
    Keeps cfg i now item item' { e with campaign := some p' } := by
  cases p with
  | putting c =>
    obtain ⟨issued, due, _ | reply⟩ := c
    · cases hx
      obtain ⟨hm, hok⟩ := h.seeking hp rfl
      have hw : Writes (cfg i) i issued now item (putItem (cfg i) i issued item) := writes_putItem
      exact ⟨hm.setCampaign h.base hp rfl (WriteOk.effect hok hw), hw.itemOk hitem,
        fun j hj => hw.foreign hj⟩
    · exact nomatch hx
  | takingOver c =>
    obtain ⟨issued, due, _ | reply⟩ := c
    · cases hx
      obtain ⟨hm, hok⟩ := h.seeking hp rfl
      have hw : Writes (cfg i) i issued now item (takeoverItem (cfg i) i issued item) :=
        writes_takeoverItem (WriteOk.issued_le hok)
      exact ⟨hm.setCampaign h.base hp rfl (WriteOk.effect hok hw), hw.itemOk hitem,
        fun j hj => hw.foreign hj⟩
    · exact nomatch hx
  | probing retry attempt c =>
    obtain ⟨issued, due, _ | reply⟩ := c
    · cases hx
      obtain ⟨hm, hok⟩ := h.seeking hp rfl
      have hread : SeekOk (cfg i) i now item (.probing retry attempt ⟨issued, due, some item⟩) := by
        obtain ⟨hdue, hle, hfound⟩ : ProbeOk (cfg i) i now item attempt ⟨issued, due, none⟩ := hok
        constructor
        · exact hdue
        · exact hle
        · rcases hfound with ⟨hclear, -⟩ | ⟨hown, -⟩
          · exact .inl ⟨hclear, fun it hit howner => hclear it (Option.some.inj hit) howner⟩
          · exact .inr ⟨hown, fun snap hsnap => (Option.some.inj hsnap).symm⟩
      exact (hm.setCampaign h.base hp rfl hread).keeps hitem
    · exact nomatch hx
  | _ => exact nomatch hx

/-- Where a campaign may be after a call has returned: it has not decided its outcome, or there is
no lease. -/
def Decided (c : Config) (i : ι) (now : ℤ) (item : Option (Item ι)) (p : CampaignPhase ι) : Prop :=
  (p.seeking = true ∧ SeekOk c i now item p) ∨ (p.seeking = false ∧ Clear i now item)

variable {call : Call Bool}

theorem WriteOk.reconcile (h : WriteOk c i now item call) (retry : Bool) :
    Decided c i now item (reconcile c now retry call.issued) := by
  refine .inl ⟨rfl, ?_⟩
  have hprobe : ProbeOk c i now item call.issued (issue now c.attemptBudget) := by
    refine ⟨le_add_of_nonneg_right c.attemptBudget_nonneg, ?_, ?_⟩
    · have := h.le_due
      have := h.due_eq
      change now + c.attemptBudget ≤ call.issued + 2 * c.attemptBudget
      omega
    · by_cases hr : call.reply = some true
      · exact .inr ⟨h.own hr, nofun⟩
      · exact .inl ⟨h.clear hr, nofun⟩
  exact hprobe

theorem WriteOk.afterWrite {refused : CampaignPhase ι} (h : WriteOk c i now item call)
    (hrefused : Clear i now item → Decided c i now item refused)
    (hp : afterWrite c now refused call r = some p') : Decided c i now item p' := by
  obtain ⟨result, hresult, rfl⟩ := map_eq_some_iff.mp hp
  obtain ⟨hok, hconditional⟩ := reply_of_writeResult hresult
  split_ifs with hended hexpired
  · exact .inl ⟨rfl, trivial⟩
  · exact h.reconcile true
  · cases result with
    | ok =>
      have hle : now ≤ call.issued + 2 * c.attemptBudget := by
        have := h.le_due
        have := h.due_eq
        have := c.attemptBudget_nonneg
        omega
      exact .inl ⟨rfl, call.issued, h.own (hok rfl), hle⟩
    | conditional =>
      exact hrefused (h.clear fun htrue => (nomatch (hconditional rfl).symm.trans htrue))
    | failed => exact h.reconcile false

theorem ProbeOk.decided [DecidableEq ι] {attempt : ℤ} {call : Call (Option (Item ι))}
    {result : ProbeResult} (h : ProbeOk c i now item attempt call)
    (hresult : probeResult i now call.reply r = some result) :
    (result = .confirmed → SeekOk c i now item .won) ∧ (result = .other → Clear i now item) := by
  obtain ⟨hconfirmed, hother⟩ := reply_of_probeResult hresult
  refine ⟨fun hres => ?_, fun hres => ?_⟩
  · obtain ⟨it, hreply, howner, hlt⟩ := hconfirmed hres
    rcases h.found with ⟨-, hread⟩ | ⟨hown, -⟩
    · exact absurd (hread it hreply howner) (not_le.mpr hlt)
    · exact ⟨attempt, hown, h.le_due.trans h.due_le⟩
  · obtain ⟨snap, hreply, hclear⟩ := hother hres
    rcases h.found with ⟨hcl, -⟩ | ⟨-, hsnap⟩
    · exact hcl
    · exact hsnap snap hreply ▸ hclear

/-- **A call of a campaign returns.** -/
theorem SeekOk.campaignReturn [DecidableEq ι] (h : SeekOk c i now item p)
    (hp : campaignReturn c i now p r = some p') : Decided c i now item p' := by
  cases p with
  | putting call =>
    obtain ⟨-, hp⟩ := ite_none_right_eq_some.mp hp
    refine WriteOk.afterWrite h (fun hclear => ?_) hp
    exact .inl ⟨rfl, WriteOk.of_clear hclear⟩
  | takingOver call =>
    obtain ⟨-, hp⟩ := ite_none_right_eq_some.mp hp
    refine WriteOk.afterWrite h (fun hclear => ?_) hp
    exact .inl ⟨rfl, hclear⟩
  | probing retry attempt call =>
    obtain ⟨-, hp⟩ := ite_none_right_eq_some.mp hp
    obtain ⟨result, hresult, rfl⟩ := map_eq_some_iff.mp hp
    obtain ⟨hconfirmed, hother⟩ := ProbeOk.decided h hresult
    cases result with
    | confirmed => exact .inl ⟨rfl, hconfirmed rfl⟩
    | other =>
      cases retry with
      | true => exact .inl ⟨rfl, hother rfl⟩
      | false => exact .inr ⟨rfl, hother rfl⟩
    | failed => exact .inl ⟨rfl, trivial⟩
  | _ => exact nomatch hp

theorem campaignReturn_seeking [DecidableEq ι] (hp : campaignReturn c i now p r = some p') :
    p.seeking = true := by
  cases p with
  | putting call | takingOver call | probing retry attempt call => rfl
  | _ => exact nomatch hp

theorem Sound.campaignReturn [DecidableEq ι] (h : Sound (cfg i) i now item e)
    (hp : e.campaign = some p) (hp' : campaignReturn (cfg i) i now p r = some p') :
    Sound (cfg i) i now item { e with campaign := some p' } := by
  obtain ⟨hm, hok⟩ := h.seeking hp (campaignReturn_seeking hp')
  rcases hok.campaignReturn hp' with ⟨hseek, hok'⟩ | ⟨hseek, hclear⟩
  · exact hm.setCampaign h.base hp hseek hok'
  · exact hm.ending h.base hp hseek hclear

/-- **A campaign that has the lease makes the elector the leader**: the lease covers its worker up
to the end of the first renewal. -/
theorem Sound.startRenewal (hroomy : (cfg i).Roomy) (h : Sound (cfg i) i now item e)
    (hp : e.campaign = some .won) :
    Sound (cfg i) i now item { e with
      flags := e.flags.startRenewal e.workers.length
      campaign := some .started
      workers := e.workers ++
        [⟨e.flags.generation + 1, false, now + (cfg i).renewInterval, false, .waiting⟩] } := by
  obtain ⟨hm, t, ⟨it, hit, howner, rfl⟩, hle⟩ := h.seeking hp rfl
  have hR := (cfg i).bounds.2.1
  refine ⟨⟨fun _ => h.base.campaigning (hp ▸ some_ne_none _), ?_, h.base.resigning, ?_, ?_⟩,
    .inr (.inr (.inl ⟨rfl, rfl, ?_, hm.resigns, ?_⟩))⟩
  · -- the workers from before have returned
    intro w k hk hlive
    rcases getElem?_concat hk with hold | ⟨rfl, rfl⟩
    · exact absurd (hm.quiet k (mem_of_getElem? hold)) hlive
    · exact ⟨rfl, rfl, trivial⟩
  · intro r hr
    exact absurd hr (hm.resigns ▸ not_mem_nil)
  · intro hres
    exact absurd hm.resigns (h.base.resolved hres).1
  · rintro p ⟨rfl⟩
    rfl
  · refine ⟨e.workers.length, _, it, rfl, getElem?_concat_length, rfl, hit, howner,
      ⟨?_, le_rfl⟩, ?_⟩
    · change now ≤ now + (cfg i).renewInterval
      unfold millisecond at hR
      omega
    · change now + (cfg i).renewInterval + (cfg i).worst ≤ limit (cfg i) it
      have := hroomy.1
      unfold limit
      omega

/-! ### Cancelling -/

variable {w : ℕ} {k : Worker ι}

theorem getElem?_of_cancelWorker {done : Option ℕ} (hk : (e.cancelWorker done)[w]? = some k) :
    ∃ k₀, e.workers[w]? = some k₀ ∧ k.phase = k₀.phase ∧ k.generation = k₀.generation := by
  cases done with
  | none => exact ⟨k, hk, rfl, rfl⟩
  | some v =>
    rw [Elector.cancelWorker, getElem?_modify] at hk
    obtain ⟨k₀, hk₀, rfl⟩ := map_eq_some_iff.mp hk
    refine ⟨k₀, hk₀, ?_, ?_⟩ <;> split_ifs <;> rfl

theorem Elector.Quiet.cancelWorker (h : e.Quiet) (done : Option ℕ) :
    ∀ k ∈ e.cancelWorker done, k.phase = .returned := by
  intro k hk
  obtain ⟨w, hw⟩ := mem_iff_getElem?.mp hk
  obtain ⟨k₀, hk₀, hphase, -⟩ := getElem?_of_cancelWorker hw
  exact hphase.trans (h k₀ (mem_of_getElem? hk₀))

theorem ResignOk.mono {quiet quiet' : Prop} (hq : quiet → quiet') {p : ResignPhase ι}
    (h : ResignOk i now item quiet p) : ResignOk i now item quiet' p := by
  cases p with
  | deleting reply | probing c => exact ⟨hq h.1, h.2⟩
  | finishing resolved => exact fun hr => ⟨hq (h hr).1, (h hr).2⟩
  | _ => trivial

theorem Base.cancelWorker (h : Base i now item e) (done : Option ℕ) :
    Base i now item { e with workers := e.cancelWorker done } where
  campaigning := h.campaigning
  live w k hk hlive := by
    obtain ⟨k₀, hk₀, hphase, hgen⟩ := getElem?_of_cancelWorker hk
    rw [hphase] at hlive ⊢
    rw [hgen]
    exact h.live w k₀ hk₀ hlive
  resigning := h.resigning
  resigns r hr := by
    obtain ⟨hgen, hdone, hok⟩ := h.resigns r hr
    exact ⟨hgen, hdone, hok.mono fun hq => hq.cancelWorker done⟩
  resolved hres := by
    obtain ⟨hne, hquiet, hclear⟩ := h.resolved hres
    exact ⟨hne, hquiet.cancelWorker done, hclear⟩

section

variable (h : Sound (cfg i) i now item e)
include h

/-- **An elector that is marked is not the leader.** -/
theorem Sound.markCleanupPending {c : Option (CampaignPhase ι)}
    (hcampaigning : c ≠ none → e.flags.campaigning = true)
    (hc : ∀ p, c = some p → p.seeking = false) :
    Sound (cfg i) i now item { e.markCleanupPending with campaign := c } := by
  have hb := h.base.cancelWorker e.flags.done
  exact ⟨⟨hcampaigning, hb.live, hb.resigning, hb.resigns, hb.resolved⟩,
    .inr (.inr (.inr ⟨rfl, rfl, hc⟩))⟩

/-! ### Resigns -/

theorem Sound.clearOwnership {f : Flags} (hf : e.flags.clearOwnership .postgres = some f) :
    Sound (cfg i) i now item { e with
      flags := f
      resigns := e.resigns ++ [⟨e.flags.generation, e.flags.done, .cancelling⟩] } := by
  obtain ⟨hactive, ⟨⟩⟩ := ite_none_right_eq_some.mp hf
  rw [Bool.or_eq_true] at hactive
  have hcampaign : ∀ p, e.campaign = some p → p.seeking = false := by
    rcases h.mode with hm | hm | ⟨-, hm⟩ | hm
    · exact hm.campaign
    · rcases hactive with howned | hcleanup
      · exact nomatch hm.owned.symm.trans howned
      · exact nomatch hm.cleanup.symm.trans hcleanup
    · exact hm.campaign
    · exact hm.campaign
  refine ⟨⟨h.base.campaigning, h.base.live, ?_, ?_, ?_⟩, .inr (.inr (.inr ⟨rfl, rfl, hcampaign⟩))⟩
  · rw [length_append, length_singleton, ← h.base.resigning]
  · exact forall_mem_concat h.base.resigns ⟨rfl, rfl, trivial⟩
  · intro hres
    exact ⟨append_ne_nil_of_right_ne_nil _ (cons_ne_nil _ _), (h.base.resolved hres).2⟩

theorem Sound.cleaning_of_resign {m : ℕ} {r : Resign ι}
    (hr : e.resigns[m]? = some r) : Cleaning e :=
  h.cleaning (ne_nil_of_mem (mem_of_getElem? hr))

theorem Sound.setResign {m : ℕ} {r : Resign ι} (hr : e.resigns[m]? = some r) {phase : ResignPhase ι}
    (hok : ResignOk i now item e.Quiet phase) :
    Sound (cfg i) i now item (e.setResign m r phase) := by
  have hm := h.cleaning_of_resign hr
  refine ⟨⟨h.base.campaigning, h.base.live, ?_, ?_, ?_⟩, .inr (.inr (.inr ⟨hm.owned, hm.cleanup,
    hm.campaign⟩))⟩
  · exact h.base.resigning.trans length_set.symm
  · obtain ⟨hgen, hdone, -⟩ := h.base.resigns r (mem_of_getElem? hr)
    exact forall_mem_set h.base.resigns ⟨hgen, hdone, hok⟩
  · intro hres
    obtain ⟨hne, hrest⟩ := h.base.resolved hres
    refine ⟨fun hnil => hne (eq_nil_of_length_eq_zero ?_), hrest⟩
    exact length_set.symm.trans (congrArg List.length hnil)

end

/-- **The worker of a resign is the only one that may be alive.** -/
theorem Base.quiet_of_joinable (h : Base i now item e) (hjoin : e.joinable e.flags.done = true) :
    e.Quiet := by
  intro k hk
  obtain ⟨w, hw⟩ := mem_iff_getElem?.mp hk
  by_contra hlive
  obtain ⟨hdone, -⟩ := h.live w k hw hlive
  rw [hdone, Elector.joinable, hw, Option.all_some] at hjoin
  cases hphase : k.phase with
  | returned => exact hlive hphase
  | _ =>
    rw [hphase] at hjoin
    exact Bool.false_ne_true hjoin

theorem Sound.resignEffect [DecidableEq ι] (hitem : ItemOk cfg item)
    (h : Sound (cfg i) i now item e) {m : ℕ} {r : Resign ι} {p' : ResignPhase ι}
    (hr : e.resigns[m]? = some r) (hx : resignEffect i item r.phase = some (p', item')) :
    Keeps cfg i now item item' (e.setResign m r p') := by
  obtain ⟨-, -, hok⟩ := h.base.resigns r (mem_of_getElem? hr)
  have hm := h.cleaning_of_resign hr
  cases hphase : r.phase with
  | deleting reply =>
    rw [hphase] at hx hok
    cases reply with
    | none =>
      cases hx
      obtain ⟨hnot, hsame⟩ := deleteItem_spec i item
      have hclear : Clear i now (deleteItem i item).2 := fun it hit howner =>
        absurd howner (hnot it hit)
      have hsound : Sound (cfg i) i now (deleteItem i item).2 e :=
        ⟨h.base.later ⟨le_rfl, .inr hnot⟩, .inr (.inr (.inr hm))⟩
      refine ⟨hsound.setResign hr ⟨hok.1, fun _ => hclear⟩, ?_, fun j hj => ?_⟩
      · rcases hsame with heq | ⟨hnone, -⟩
        · exact heq.symm ▸ hitem
        · exact hnone ▸ nofun
      · rcases hsame with heq | ⟨hnone, howner⟩
        · exact .inl heq
        · exact .inr ⟨hnone ▸ nofun, fun it hit hj' =>
            absurd (hj'.symm.trans (howner it hit)) hj⟩
    | some ok => exact nomatch hx
  | probing c =>
    rw [hphase] at hx hok
    obtain ⟨issued, due, _ | reply⟩ := c
    · cases hx
      have hread : ResignOk i now item e.Quiet (.probing ⟨issued, due, some item⟩) :=
        ⟨hok.1, Same.read i item⟩
      exact (h.setResign hr hread).keeps hitem
    · exact nomatch hx
  | _ =>
    rw [hphase] at hx
    exact nomatch hx

theorem ResignOk.resignReturn [DecidableEq ι] {quiet : Prop} {p p' : ResignPhase ι}
    (h : ResignOk i now item quiet p) (hp : resignReturn c i now p r = some p') :
    ResignOk i now item quiet p' := by
  cases p with
  | deleting reply =>
    obtain ⟨result, hresult, rfl⟩ := map_eq_some_iff.mp hp
    obtain ⟨hok, hconditional⟩ := reply_of_writeResult hresult
    cases result with
    | ok => exact fun _ => ⟨h.1, h.2 (hok rfl ▸ some_ne_none _)⟩
    | conditional => exact fun _ => ⟨h.1, h.2 (hconditional rfl ▸ some_ne_none _)⟩
    | failed =>
      split_ifs with hended
      · exact nofun
      · exact ⟨h.1, nofun⟩
  | probing call =>
    obtain ⟨-, hp⟩ := ite_none_right_eq_some.mp hp
    obtain ⟨result, hresult, rfl⟩ := map_eq_some_iff.mp hp
    obtain ⟨-, hother⟩ := reply_of_probeResult hresult
    cases result with
    | other =>
      obtain ⟨snap, hreply, hclear⟩ := hother rfl
      exact fun _ => ⟨h.1, h.2.clear hreply hclear⟩
    | confirmed | failed => trivial
  | _ => exact nomatch hp

/-- **A resign ends**: the last one clears the mark if one has made sure that the lease is gone. -/
theorem Sound.finishResign (h : Sound (cfg i) i now item e) {m g : ℕ} {done : Option ℕ}
    {resolved : Bool} (hr : e.resigns[m]? = some ⟨g, done, .finishing resolved⟩) :
    Sound (cfg i) i now item { e with
      flags := e.flags.finishResign .postgres g resolved
      resigns := e.resigns.eraseIdx m } := by
  have hm := h.cleaning_of_resign hr
  obtain ⟨hlt, -⟩ := List.getElem?_eq_some_iff.mp hr
  have hlength : (e.resigns.eraseIdx m).length = e.flags.resigning - 1 := by
    rw [length_eraseIdx_of_lt hlt, h.base.resigning]
  obtain ⟨hgen, -, hok⟩ := h.base.resigns _ (mem_of_getElem? hr)
  have hresolved : (e.flags.resolved || resolved) = true → e.Quiet ∧ Clear i now item := by
    intro hor
    rcases Bool.or_eq_true_iff.mp hor with hflag | hmine
    · exact (h.base.resolved hflag).2
    · exact hok hmine
  have hresigns : ∀ r ∈ e.resigns.eraseIdx m, r.generation = e.flags.generation ∧
      r.done = e.flags.done ∧ ResignOk i now item e.Quiet r.phase := fun r hr =>
    h.base.resigns r (mem_of_mem_eraseIdx hr)
  have hcurrent : ¬(e.flags.generation ≠ g ∨ e.flags.resigning = 0) := by
    have := h.base.resigning
    have : g = e.flags.generation := hgen
    omega
  rw [Flags.finishResign]
  simp only [if_neg hcurrent]
  split_ifs with hlast
  · rw [Bool.and_eq_true, decide_eq_true_eq] at hlast
    obtain ⟨hquiet, hclear⟩ := hresolved hlast.2
    have hnil : e.resigns.eraseIdx m = [] := eq_nil_of_length_eq_zero (hlength.trans hlast.1)
    refine ⟨⟨h.base.campaigning, ?_, hlength.symm, ?_, fun h => absurd h Bool.false_ne_true⟩,
      .inl ⟨hm.owned, rfl, hm.campaign, hnil, hquiet, hclear⟩⟩
    · intro w k hk hlive
      exact absurd (hquiet k (mem_of_getElem? hk)) hlive
    · intro r hr
      exact absurd hr (hnil ▸ not_mem_nil)
  · refine ⟨⟨h.base.campaigning, h.base.live, hlength.symm, hresigns, fun hres => ?_⟩,
      .inr (.inr (.inr ⟨hm.owned, hm.cleanup, hm.campaign⟩))⟩
    refine ⟨fun hnil => ?_, hresolved hres⟩
    rw [Bool.and_eq_true, decide_eq_true_eq] at hlast
    exact hlast ⟨hlength.symm.trans (congrArg List.length hnil), hres⟩

/-! ### Workers -/

theorem ResignOk.of_not_quiet {quiet quiet' : Prop} (hq : ¬quiet) {p : ResignPhase ι}
    (h : ResignOk i now item quiet p) : ResignOk i now item' quiet' p := by
  cases p with
  | deleting reply | probing c => exact absurd h.1 hq
  | finishing resolved => exact fun hr => absurd (h hr).1 hq
  | _ => trivial

theorem not_quiet_of_live (hk : e.workers[w]? = some k) (hlive : k.phase ≠ .returned) :
    ¬e.Quiet := fun hq =>
  hlive (hq k (mem_of_getElem? hk))

/-- A worker moves on. As it is alive, no other is, and nothing else depends on the item. -/
theorem Base.setWorker (h : Base i now item e) {k' : Worker ι} (hk : e.workers[w]? = some k)
    (hlive : k.phase ≠ .returned) (hgen : k'.generation = k.generation)
    (hok : k'.phase ≠ .returned → WorkerOk i now item' k'.phase) :
    Base i now item' (e.setWorker w k') where
  campaigning := h.campaigning
  live v k₁ hk₁ hlive₁ := by
    obtain ⟨hdone, hgeneration, -⟩ := h.live w k hk hlive
    rcases getElem?_set_cases hk₁ with ⟨rfl, rfl⟩ | ⟨hv, hk₁⟩
    · exact ⟨hdone, hgen.trans hgeneration, hok hlive₁⟩
    · obtain ⟨hdone₁, -⟩ := h.live v k₁ hk₁ hlive₁
      exact absurd (mem_unique hdone₁ hdone) hv
  resigning := h.resigning
  resigns r hr := by
    obtain ⟨hg, hd, hokr⟩ := h.resigns r hr
    exact ⟨hg, hd, hokr.of_not_quiet (not_quiet_of_live hk hlive)⟩
  resolved hres := absurd (h.resolved hres).2.1 (not_quiet_of_live hk hlive)

/-- **A renewal is the lease for the next one.** -/
theorem Covered.renewed (hroomy : c.Roomy) {it it' : Item ι} {due : ℤ}
    (hphase : k.phase = .renewing ⟨issued, due, none⟩) (hcov : Covered c now it k)
    (hissued : it'.issued = issued) (reply : Option Bool) :
    Covered c now it' { k with phase := .renewing ⟨issued, due, reply⟩ } := by
  rw [Covered, hphase] at hcov
  obtain ⟨-, hnow, hdue, hnext, -⟩ := hcov
  refine ⟨?_, hnow, hdue, hnext, fun _ => hissued⟩
  have htwice := hroomy.2
  have ha := c.attemptBudget_nonneg
  have hr := c.renewalBudget_nonneg
  have hw : c.worst = c.renewalBudget + c.attemptBudget := rfl
  change due = issued + c.renewalBudget at hdue
  change due + c.attemptBudget ≤ it'.issued + c.lease - millisecond
  omega

/-- **A leader's renewal is confirmed by a lease that was written before it.** -/
def WorkerPhase.confirmsStale [DecidableEq ι] (i : ι) (now : ℤ) (r : Return) :
    WorkerPhase ι → Bool
  | .probing attempt c => decide (probeResult i now c.reply r = some .confirmed) &&
      c.reply.join.all fun it => decide (it.issued ≠ attempt)
  | _ => false

theorem Covered.waiting (hroomy : c.Roomy) {it : Item ι} (hnow : now ≤ it.issued + c.worst)
    (hnext : k.buffered = false → k.next ≤ it.issued + c.renewInterval) :
    Covered c now it { k with phase := .waiting } := by
  have hfirst := hroomy.1
  have htwice := hroomy.2
  have ha := c.attemptBudget_nonneg
  change (if k.buffered = true then now else k.next) + c.worst ≤ it.issued + c.lease - millisecond
  split_ifs with hbuf
  · omega
  · have := hnext (Bool.eq_false_iff.mpr hbuf)
    omega

theorem Covered.probing {it : Item ι} (hphase : k.phase = .renewing call)
    (hcov : Covered c now it k) :
    Covered c now it { k with phase := .probing call.issued (issue now c.attemptBudget) } := by
  rw [Covered, hphase] at hcov
  obtain ⟨hlimit, hnow, hdue, hnext, -⟩ := hcov
  have ha := c.attemptBudget_nonneg
  have hw : c.worst = c.renewalBudget + c.attemptBudget := rfl
  refine ⟨?_, ?_, ?_, hnext⟩
  · change now + c.attemptBudget ≤ limit c it
    omega
  · change now ≤ now + c.attemptBudget
    omega
  · change now + c.attemptBudget ≤ call.issued + c.worst
    omega

section

variable (h : Sound (cfg i) i now item e)
include h

/-- **A worker moves on**: the worker of a leader must stay covered. -/
theorem Sound.setWorker {k' : Worker ι}
    (hk : e.workers[w]? = some k) (hlive : k.phase ≠ .returned)
    (hgen : k'.generation = k.generation)
    (hok : k'.phase ≠ .returned → WorkerOk i now item' k'.phase)
    (hlead : e.flags.owned = true → k.cancelled = false → ∀ it, item = some it → it.owner = i →
      Ticking (cfg i) now k → Covered (cfg i) now it k → k'.cancelled = false ∧
      Ticking (cfg i) now k' ∧ ∃ it', item' = some it' ∧ it'.owner = i ∧
        Covered (cfg i) now it' k') : Sound (cfg i) i now item' (e.setWorker w k') := by
  refine ⟨h.base.setWorker hk hlive hgen hok, ?_⟩
  rcases h.alive hk hlive with ⟨howned, hm⟩ | hm
  · obtain ⟨v, k₀, it, hdone, hk₀, hcancelled, hit, howner, htick, hcov⟩ := hm.worker
    obtain rfl : v = w := Option.some.inj (hdone.symm.trans (h.base.live w k hk hlive).1)
    obtain rfl := mem_unique hk₀ hk
    obtain ⟨hcancelled', htick', it', hit', howner', hcov'⟩ :=
      hlead howned hcancelled it hit howner htick hcov
    exact .inr (.inr (.inl ⟨howned, hm.cleanup, hm.campaign, hm.resigns, v, k', it', hdone,
      getElem?_set_of_some hk, hcancelled', hit', howner', htick',
      hcov'⟩))
  · exact .inr (.inr (.inr ⟨hm.owned, hm.cleanup, hm.campaign⟩))

theorem Sound.fire (hk : e.workers[w]? = some k)
    (hnext : k.next ≤ now) (hlive : k.phase ≠ .returned) :
    Sound (cfg i) i now item
      (e.setWorker w { k with next := k.next + (cfg i).renewInterval, buffered := true }) := by
  refine h.setWorker hk hlive rfl (fun _ => (h.base.live w k hk hlive).2.2) ?_
  intro _ hcancelled it hit howner htick hcov
  have hR := (cfg i).bounds.2.1
  have heq : k.next = now := le_antisymm hnext htick.1
  refine ⟨hcancelled, ⟨?_, ?_⟩, it, hit, howner, ?_⟩
  · change now ≤ k.next + (cfg i).renewInterval
    unfold millisecond at hR
    omega
  · change k.next + (cfg i).renewInterval ≤ now + (cfg i).renewInterval
    omega
  · unfold Covered at hcov ⊢
    cases hphase : k.phase with
    | waiting =>
      rw [hphase] at hcov
      rw [heq, ite_self] at hcov
      exact hcov
    | renewing c =>
      rw [hphase] at hcov
      obtain ⟨h1, h2, h3, -, h5⟩ := hcov
      exact ⟨h1, h2, h3, nofun, h5⟩
    | probing attempt c =>
      rw [hphase] at hcov
      obtain ⟨h1, h2, h3, -⟩ := hcov
      exact ⟨h1, h2, h3, nofun⟩
    | losing cleanup =>
      rw [hphase] at hcov
      exact hcov
    | returned => exact absurd hphase hlive

theorem Sound.receive {g : ℕ} {cancelled : Bool} {next : ℤ}
    (hk : e.workers[w]? = some ⟨g, cancelled, next, true, .waiting⟩) :
    Sound (cfg i) i now item (e.setWorker w
      ⟨g, cancelled, next, false, .renewing (issue now (cfg i).renewalBudget)⟩) := by
  refine h.setWorker hk nofun rfl (fun _ => ⟨le_rfl, nofun⟩) ?_
  intro _ hcancelled it hit howner htick hcov
  have hcov : now + (cfg i).worst ≤ limit (cfg i) it := hcov
  have hr := (cfg i).renewalBudget_nonneg
  refine ⟨hcancelled, htick, it, hit, howner, ?_, ?_, rfl, fun _ => htick.2, nofun⟩
  · change now + (cfg i).renewalBudget + (cfg i).attemptBudget ≤ limit (cfg i) it
    unfold Config.worst at hcov
    omega
  · change now ≤ now + (cfg i).renewalBudget
    omega

theorem Sound.quit {g : ℕ} {next : ℤ} {buffered : Bool}
    (hk : e.workers[w]? = some ⟨g, true, next, buffered, .waiting⟩) :
    Sound (cfg i) i now item (e.setWorker w ⟨g, true, next, buffered, .returned⟩) :=
  h.setWorker hk nofun rfl (fun hlive => absurd rfl hlive) nofun

/-- **A call of a worker takes effect.** -/
theorem Sound.workerEffect [DecidableEq ι] (hroomy : (cfg i).Roomy) (hitem : ItemOk cfg item)
    {p' : WorkerPhase ι} (hk : e.workers[w]? = some k)
    (hx : workerEffect (cfg i) i item k.phase = some (p', item')) :
    Keeps cfg i now item item' (e.setWorker w { k with phase := p' }) := by
  have hlive : k.phase ≠ .returned := fun hphase => by
    rw [hphase] at hx
    exact nomatch hx
  obtain ⟨-, -, hok⟩ := h.base.live w k hk hlive
  cases hphase : k.phase with
  | renewing c =>
    rw [hphase] at hx hok
    obtain ⟨issued, due, _ | reply⟩ := c
    · cases hx
      have hw : Writes (cfg i) i issued now item (renewItem (cfg i) i issued item) :=
        writes_renewItem
      have hworker : WorkerOk i now (renewItem (cfg i) i issued item).2
          (.renewing ⟨issued, due, some (renewItem (cfg i) i issued item).1⟩) := by
        refine ⟨hok.1, fun hr => ?_⟩
        have hno := Option.some.inj hr
        rw [hw.same (hno ▸ Bool.false_ne_true)]
        exact clear_of_renewItem hok.1 hno
      refine ⟨h.setWorker hk hlive rfl (fun _ => hworker) ?_, hw.itemOk hitem,
        fun j hj => hw.foreign hj⟩
      intro _ hcancelled it hit howner htick hcov
      refine ⟨hcancelled, htick, ?_⟩
      rcases hw with ⟨-, hx, -⟩ | ⟨hfalse, hx⟩
      · exact ⟨_, hx, rfl, hcov.renewed hroomy hphase rfl _⟩
      · refine ⟨it, hx.trans hit, howner, ?_⟩
        rw [Covered, hphase] at hcov
        obtain ⟨h1, h2, h3, h4, -⟩ := hcov
        refine ⟨h1, h2, h3, h4, fun hr => ?_⟩
        exact nomatch hfalse.symm.trans (Option.some.inj hr)
    · exact nomatch hx
  | probing attempt c =>
    rw [hphase] at hx hok
    obtain ⟨issued, due, _ | reply⟩ := c
    · cases hx
      have hread : WorkerOk i now item (.probing attempt ⟨issued, due, some item⟩) :=
        Same.read i item
      have hsound : Sound (cfg i) i now item
          (e.setWorker w { k with phase := .probing attempt ⟨issued, due, some item⟩ }) := by
        refine h.setWorker hk hlive rfl (fun _ => hread) ?_
        intro _ hcancelled it hit howner htick hcov
        refine ⟨hcancelled, htick, it, hit, howner, ?_⟩
        rw [Covered, hphase] at hcov
        exact hcov
      exact hsound.keeps hitem
    · exact nomatch hx
  | _ =>
    rw [hphase] at hx
    exact nomatch hx

/-- **A call of a worker returns.** -/
theorem Sound.workerReturn [DecidableEq ι] (hroomy : (cfg i).Roomy) {p' : WorkerPhase ι}
    (hk : e.workers[w]? = some k)
    (hp : workerReturn (cfg i) i now k.cancelled k.phase r = some p')
    (hfresh : e.isLeader = true → k.phase.confirmsStale i now r = false) :
    Sound (cfg i) i now item (e.setWorker w { k with phase := p' }) := by
  have hlive : k.phase ≠ .returned := fun hphase => by
    rw [hphase] at hp
    exact nomatch hp
  obtain ⟨-, -, hok⟩ := h.base.live w k hk hlive
  -- what a leader's worker must show, without what does not change
  have hset : ∀ p : WorkerPhase ι, (p ≠ .returned → WorkerOk i now item p) →
      (e.flags.owned = true → k.cancelled = false → ∀ it, item = some it → it.owner = i →
        Ticking (cfg i) now k → Covered (cfg i) now it k →
        Covered (cfg i) now it { k with phase := p }) →
      Sound (cfg i) i now item (e.setWorker w { k with phase := p }) := by
    intro p hokp hcovp
    refine h.setWorker hk hlive rfl hokp ?_
    intro howned hcancelled it hit howner htick hcov
    exact ⟨hcancelled, htick, it, hit, howner, hcovp howned hcancelled it hit howner htick hcov⟩
  have hlosing : ∀ cleanup : Bool, (cleanup = false → Clear i now item) →
      Sound (cfg i) i now item (e.setWorker w { k with phase := .losing cleanup }) :=
    fun cleanup hclear => hset _ (fun _ => hclear) fun _ _ it _ _ htick hcov => hcov.now_le htick
  cases hphase : k.phase with
  | renewing c =>
    rw [hphase] at hp hok
    obtain ⟨-, hp⟩ := ite_none_right_eq_some.mp hp
    obtain ⟨result, hresult, rfl⟩ := map_eq_some_iff.mp hp
    obtain ⟨hsucceeded, hconditional⟩ := reply_of_writeResult hresult
    have hprobing : Sound (cfg i) i now item (e.setWorker w
        { k with phase := .probing c.issued (issue now (cfg i).attemptBudget) }) :=
      hset _ (fun _ => nofun) fun _ _ it _ _ _ hcov => hcov.probing hphase
    by_cases hcancelled : k.cancelled = true
    · rw [if_pos hcancelled]
      refine hset _ (fun hne => absurd rfl hne) fun _ hnot => ?_
      exact nomatch hnot.symm.trans hcancelled
    · rw [if_neg hcancelled]
      cases result with
      | ok =>
        split_ifs with hexpired
        · exact hprobing
        · refine hset _ (fun _ => trivial) fun _ _ it _ _ _ hcov => ?_
          rw [Covered, hphase] at hcov
          obtain ⟨-, hnow, hdue, hnext, hissued⟩ := hcov
          have heq := hissued (hsucceeded rfl)
          have ha := (cfg i).attemptBudget_nonneg
          have hw : (cfg i).worst = (cfg i).renewalBudget + (cfg i).attemptBudget := rfl
          exact Covered.waiting hroomy (by omega) fun hbuf => heq ▸ hnext hbuf
      | conditional => exact hlosing false fun _ => hok.2 (hconditional rfl)
      | failed => exact hprobing
  | probing attempt c =>
    rw [hphase] at hp hok
    obtain ⟨-, hp⟩ := ite_none_right_eq_some.mp hp
    obtain ⟨result, hresult, rfl⟩ := map_eq_some_iff.mp hp
    obtain ⟨hconfirmed, hother⟩ := reply_of_probeResult hresult
    cases result with
    | confirmed =>
      refine hset _ (fun _ => trivial) fun howned _ it hit howner _ hcov => ?_
      obtain ⟨it', hreply, -⟩ := hconfirmed rfl
      have hsame : some it' = some it := hok (some it') hreply it hit howner
      obtain rfl := Option.some.inj hsame
      have hissued : it'.issued = attempt := by
        have := hfresh howned
        rw [hphase, WorkerPhase.confirmsStale, hresult, hreply] at this
        simpa using this
      rw [Covered, hphase] at hcov
      obtain ⟨-, hnow, hdue, hnext⟩ := hcov
      exact Covered.waiting hroomy (by omega) fun hbuf => hissued ▸ hnext hbuf
    | other =>
      obtain ⟨snap, hreply, hclear⟩ := hother rfl
      exact hlosing false fun _ => Same.clear hok hreply hclear
    | failed => exact hlosing true nofun
  | _ =>
    rw [hphase] at hp
    exact nomatch hp

/-- **A worker gives the leadership up.** -/
theorem Sound.lose {g : ℕ} {cancelled : Bool} {next : ℤ}
    {buffered cleanup : Bool}
    (hk : e.workers[w]? = some ⟨g, cancelled, next, buffered, .losing cleanup⟩) :
    Sound (cfg i) i now item { e.setWorker w ⟨g, cancelled, next, buffered, .returned⟩ with
      flags := e.flags.clearOwnershipAfterLoss .postgres g w cleanup } := by
  have hlive : (WorkerPhase.losing cleanup : WorkerPhase ι) ≠ .returned := nofun
  obtain ⟨hdone, hgen, hok⟩ := h.base.live w _ hk hlive
  have hb : Base i now item (e.setWorker w ⟨g, cancelled, next, buffered, .returned⟩) :=
    h.base.setWorker hk hlive rfl fun hne => absurd rfl hne
  have hquiet : (e.setWorker w ⟨g, cancelled, next, buffered, .returned⟩).Quiet := by
    intro k hkm
    by_contra hne
    obtain ⟨v, hv⟩ := mem_iff_getElem?.mp hkm
    rcases getElem?_set_cases hv with ⟨-, rfl⟩ | ⟨hvw, -⟩
    · exact hne rfl
    · exact hvw (mem_unique (hb.live v k hv hne).1 hdone)
  have hcampaign : ∀ p, e.campaign = some p → p.seeking = false := by
    rcases h.alive hk hlive with ⟨-, hm⟩ | hm <;> exact hm.campaign
  have hcurrent : ¬(e.flags.generation ≠ g ∨ e.flags.done ≠ some w) := by
    rintro (hne | hne)
    · exact hne hgen.symm
    · exact hne hdone
  rw [Flags.clearOwnershipAfterLoss, if_neg hcurrent]
  dsimp only
  split_ifs with hzero
  · have hnil : e.resigns = [] := eq_nil_of_length_eq_zero (h.base.resigning.symm.trans hzero)
    refine ⟨⟨hb.campaigning, fun v k hv hne => absurd (hquiet k (mem_of_getElem? hv)) hne,
      hb.resigning, ?_, hb.resolved⟩, ?_⟩
    · intro r hr
      exact absurd hr (hnil ▸ not_mem_nil)
    · cases cleanup with
      | false =>
        refine .inl ⟨rfl, ?_, hcampaign, hnil, hquiet, hok rfl⟩
        simp [hzero]
      | true => exact .inr (.inr (.inr ⟨rfl, rfl, hcampaign⟩))
  · refine ⟨⟨hb.campaigning, fun v k hv hne => absurd (hquiet k (mem_of_getElem? hv)) hne,
      hb.resigning, hb.resigns, hb.resolved⟩, .inr (.inr (.inr ⟨rfl, ?_, hcampaign⟩))⟩
    simp [Nat.pos_of_ne_zero hzero]

end

end Parts

end Bluetape.Leader.Dynamo
