import Bluetape.Leader.Lifecycle

/-!
# The Redis and the Mongo elector: a resign and a later leadership

One elector against the owner key. All campaigns of an elector write the same token, so the server
cannot tell them apart: the compare-and-delete of a `Resign` removes the key whichever campaign
wrote it. Only the flags of the elector could keep an old `Resign` from deleting what a newer
`Campaign` has written, and they do not: `cleanup`, which keeps campaigns out while a resign is
under way, is a single flag, and the first of two overlapping resigns clears it for both
(`resign_removes_later_leadership`).

What holds is that a resign spares a later leadership as long as no campaign *overtakes* a resign,
that is, begins while the resign's delete is still to come; then, until a lease expires, an elector
that reports leadership has its token in the store (`resign_spares_later_leadership`).

The key is modelled with a note of the campaign that wrote it, which no command reads. The other
electors, and the expiry of the key, are the environment: they can write a key that is free, remove
one that is theirs, and let any key expire. The reply to a command may be lost; a command may fail
without effect; and one whose call has ended with its context may be executed at any time after it.
-/

namespace Bluetape.Leader.Redis

open Lts Elector

/-! ### The owner key -/

/-- Whose token a key holds. -/
inductive Owner where
  /-- This elector's, written by the campaign with the given number. -/
  | mine (campaign : ℕ)
  | other
  deriving DecidableEq, Repr

/-- The owner key. -/
abbrev Key : Type := Option Owner

/-- The key holds this elector's token. -/
def Key.isMine : Key → Bool
  | some (.mine _) => true
  | _ => false

/-- The write of `Campaign`, by the campaign with the given number, and whether it is
granted. `SetNX` writes a free key only; the upsert of the Mongo elector also matches its
own token. -/
def acquire (b : Backend) (key : Key) (campaign : ℕ) : Bool × Key :=
  match key with
  | none => (true, some (.mine campaign))
  | some (.mine c) =>
    match b with
    | .redis => (false, some (.mine c))
    | .mongo | .postgres => (true, some (.mine campaign))
  | some .other => (false, some .other)

/-- `releaseScript`: delete the key if it holds the token. -/
def release (key : Key) : Key := if key.isMine then none else key

/-! ### The elector with its key -/

/-- **An elector with its key.** -/
structure Sys where
  elector : Elector
  key : Key
  /-- The campaigns whose calls have given a write up that is on its way. -/
  late : List ℕ
  deriving DecidableEq, Repr

/-- A new elector and a free key. -/
def init : Sys := ⟨.new, none, []⟩

/-- A step: of the elector alone, a command with its reply, the late execution of a command, or
a step of the environment. -/
inductive Label where
  | act (a : Action)
  | acquire (n : ℕ) (fault : Fault)
  | probe (n : ℕ) (failed : Bool)
  | renew (w : ℕ) (fault : Fault)
  | release (m : ℕ) (fault : Fault)
  | lateAcquire (j : ℕ)
  | lateRelease (j : ℕ)
  | expire
  | foreignAcquire
  | foreignRelease
  deriving DecidableEq, Repr

/-- The elector moves, and leaves the given key. -/
def Sys.advance (b : Backend) (y : Sys) (a : Action) (key : Key) : Option Sys :=
  (y.elector.step b a).map fun e => { y with elector := e, key := key }

/-- What the campaign learns of its write. -/
def acquireReply (granted : Bool) : Fault → AcquireReply
  | .none => if granted then .granted else .denied
  | .lost | .dropped | .late => .failed false

/-- What the worker learns of its renewal, which leaves the key as it is. -/
def renewReply (key : Key) : Fault → RenewReply
  | .none => if key.isMine then .renewed else .notOwner
  | .lost | .dropped | .late => .failed

/-- **One step of an elector with its key.** -/
def Sys.step (b : Backend) (y : Sys) : Label → Option Sys
  | .act a => if a.isLocal then y.advance b a y.key else none
  | .acquire n fault =>
    match y.elector.campaigns[n]? with
    | some k =>
      { y with late := fault.leaves k.number y.late }.advance b
        (.acquired n (acquireReply (Redis.acquire b y.key k.number).1 fault))
        (fault.effect y.key (Redis.acquire b y.key k.number).2)
    | none => none
  | .probe n failed =>
    y.advance b (.probed n
      (if failed then .failed else if y.key.isMine then .own else .other)) y.key
  | .renew w fault => y.advance b (.renewed w (renewReply y.key fault)) y.key
  | .release m fault =>
    y.advance b (afterDelete m fault) (fault.effect y.key (Redis.release y.key))
  | .lateAcquire j =>
    match y.late[j]? with
    | some campaign => some { y with
        key := (Redis.acquire b y.key campaign).2
        late := y.late.eraseIdx j }
    | none => none
  | .lateRelease j => y.advance b (.landed j) (Redis.release y.key)
  | .expire => some { y with key := none }
  | .foreignAcquire => if y.key = none then some { y with key := some .other } else none
  | .foreignRelease => if y.key = some .other then some { y with key := none } else none

/-- An event of a run. -/
abbrev Ev : Type := Event Sys Label

/-! ### What is asked for -/

/-- The resign, by number, whose delete an event executes. -/
def executed (ev : Ev) : Option ℕ :=
  match ev.label with
  | .release m fault =>
    if fault.executed then (ev.before.elector.resigns[m]?).map Resign.number else none
  | .lateRelease j => ev.before.elector.late[j]?
  | _ => none

/-- The resign and the campaign, by number, when an event is a delete that removes a key of
this elector. -/
def removed (ev : Ev) : Option (ℕ × ℕ) :=
  match executed ev, ev.before.key with
  | some resign, some (.mine campaign) => some (resign, campaign)
  | _, _ => none

/-- A resign removes a key that a campaign wrote which began after the resign had
started. -/
def RemovesLater (ev : Ev) : Prop := ∃ p ∈ removed ev, p.1 < p.2 deriving Decidable

/-- A key of this elector expires. -/
def Expires (ev : Ev) : Prop := ev.label = .expire ∧ ev.before.key.isMine = true deriving Decidable

/-- A campaign begins while a resign's delete is still to come. -/
def Overtakes (ev : Ev) : Prop :=
  ev.label = .act .beginCampaign ∧ Elector.Overtakes ev.before.elector .beginCampaign
  deriving Decidable

/-- **A resign spares a later leadership**: no resign has removed the key of a later
campaign, and unless a lease of the elector has expired, an elector that reports
leadership has its token in the key. -/
def SparesLater (h : List Ev) (y : Sys) : Prop :=
  (∀ ev ∈ h, ¬RemovesLater ev) ∧
  ((∀ ev ∈ h, ¬Expires ev) → y.elector.flags.owned = true → y.key.isMine = true)

/-! ### What a step does to the key -/

section Steps

variable {b : Backend} {y y' : Sys} {l : Label} {h : List Ev}

theorem Sys.advance_eq_some {a : Action} {key : Key} (hs : y.advance b a key = some y') :
    y.elector.step b a = some y'.elector ∧ y'.key = key ∧ y'.late = y.late := by
  obtain ⟨e, he, rfl⟩ := Option.map_eq_some_iff.mp hs
  exact ⟨he, rfl, rfl⟩

/-- A write is granted and the key is the campaign's, or it is denied and changes
nothing. -/
theorem acquire_cases (b : Backend) (key : Key) (campaign : ℕ) :
    acquire b key campaign = (true, some (.mine campaign)) ∨
      acquire b key campaign = (false, key) := by
  rcases key with _ | (c | _)
  · exact .inl rfl
  · cases b with
    | redis => exact .inr rfl
    | mongo | postgres => exact .inl rfl
  · exact .inr rfl

/-- A delete removes a key of the elector, or nothing. -/
theorem eq_of_release_eq_mine {key : Key} {c : ℕ} {fault : Fault}
    (h : fault.effect key (release key) = some (.mine c)) : key = some (.mine c) := by
  unfold Fault.effect release at h
  split_ifs at h
  · exact h
  · exact h

/-- **What a step can do**: the elector moves and the key stays; a campaign writes the key, within
its call or after it; a delete is sent, or executed late; or the environment moves. -/
inductive Did (b : Backend) (y : Sys) : Label → Sys → Prop
  | moved {l : Label} {y' : Sys} {a : Action} :
      y.elector.step b a = some y'.elector → y'.key = y.key → y'.late = y.late →
      (∀ n, a ≠ .acquired n .granted) → (∀ n, a = .probed n .own → y.key.isMine = true) →
      (a = .beginCampaign → l = .act .beginCampaign) → Did b y l y'
  | acquired {n : ℕ} {fault : Fault} {y' : Sys} {k : Campaign} {reply : AcquireReply} :
      y.elector.campaigns[n]? = some k →
      y.elector.step b (.acquired n reply) = some y'.elector →
      (y'.key = y.key ∨ y'.key = some (.mine k.number)) →
      (reply = .granted → y'.key = some (.mine k.number)) →
      (∀ c ∈ y'.late, c ∈ y.late ∨ c = k.number) → Did b y (.acquire n fault) y'
  | lateAcquire {j : ℕ} {y' : Sys} {c : ℕ} :
      c ∈ y.late → y'.elector = y.elector →
      (y'.key = y.key ∨ y'.key = some (.mine c)) → (∀ c ∈ y'.late, c ∈ y.late) →
      Did b y (.lateAcquire j) y'
  | released {l : Label} {y' : Sys} {a : Action} {r : ℕ} :
      y.elector.step b a = some y'.elector → y.elector.Pending r →
      a ≠ .beginCampaign → (∀ n, a ≠ .acquired n .granted ∧ a ≠ .probed n .own) →
      (∀ c, y'.key = some (.mine c) → y.key = some (.mine c)) → y'.late = y.late → Did b y l y'
  | environment {l : Label} {y' : Sys} :
      y'.elector = y.elector → y'.late = y.late → y'.key.isMine = false →
      (l = .expire ∨ y.key.isMine = false) → Did b y l y'

/-- **A step, inverted.** -/
theorem did_of_step (hs : y.step b l = some y') : Did b y l y' := by
  cases l with
  | act a =>
    simp only [Sys.step] at hs
    split_ifs at hs with hlocal
    obtain ⟨he, hkey, hlate⟩ := Sys.advance_eq_some hs
    refine .moved he hkey hlate ?_ ?_ fun ha => congrArg Label.act ha
    · rintro n rfl
      exact nomatch hlocal
    · rintro n rfl
      exact nomatch hlocal
  | acquire n fault =>
    simp only [Sys.step] at hs
    split at hs
    next k hk =>
      obtain ⟨he, hkey, hlate⟩ := Sys.advance_eq_some hs
      refine .acquired hk he ?_ (fun hgranted => ?_) fun c hc => ?_
      · rw [hkey, Fault.effect]
        rcases acquire_cases b y.key k.number with hacq | hacq <;> rw [hacq] <;> split_ifs <;> simp
      · -- only a write whose reply arrives is known to be granted
        rcases acquire_cases b y.key k.number with hacq | hacq <;> rw [hacq] at hgranted
        · cases fault with
          | none => rw [hkey, hacq]; rfl
          | lost | dropped | late => exact nomatch hgranted
        · cases fault <;> exact nomatch hgranted
      · rw [hlate] at hc
        exact Fault.mem_leaves hc
    next => cases hs
  | probe n failed =>
    obtain ⟨he, hkey, hlate⟩ := Sys.advance_eq_some hs
    refine .moved he hkey hlate (fun _ => by simp) (fun _ hown => ?_) nofun
    have hreply := (Action.probed.inj hown).2
    split_ifs at hreply with hfailed hmine
    exact hmine
  | renew w fault =>
    obtain ⟨he, hkey, hlate⟩ := Sys.advance_eq_some hs
    exact .moved he hkey hlate (fun _ => by simp) nofun nofun
  | release m fault =>
    obtain ⟨he, hkey, hlate⟩ := Sys.advance_eq_some hs
    obtain ⟨r, -, hpending⟩ := pending_of_deleted he
    refine .released he hpending ?_ ?_ (fun c hc => ?_) hlate
    · cases fault <;> exact nofun
    · cases fault <;> exact fun _ => ⟨nofun, nofun⟩
    · exact eq_of_release_eq_mine (hkey ▸ hc)
  | lateAcquire j =>
    simp only [Sys.step] at hs
    split at hs
    next c hc =>
      cases hs
      refine .lateAcquire (List.mem_of_getElem? hc) rfl ?_ fun c hc => List.mem_of_mem_eraseIdx hc
      rcases acquire_cases b y.key c with hacq | hacq
      · exact .inr (congrArg Prod.snd hacq)
      · exact .inl (congrArg Prod.snd hacq)
    next => cases hs
  | lateRelease j =>
    obtain ⟨he, hkey, hlate⟩ := Sys.advance_eq_some hs
    obtain ⟨r, hr⟩ := late_of_landed he
    refine .released he (.inr (List.mem_of_getElem? hr)) nofun (fun _ => ⟨nofun, nofun⟩)
      (fun c hc => ?_) hlate
    have heffect : y'.key = Fault.none.effect y.key (release y.key) := hkey
    exact eq_of_release_eq_mine (heffect ▸ hc)
  | expire =>
    cases hs
    exact .environment rfl rfl rfl (.inl rfl)
  | foreignAcquire | foreignRelease =>
    simp only [Sys.step] at hs
    split_ifs at hs with hkey
    cases hs
    exact .environment rfl rfl rfl (.inr (by rw [hkey]; rfl))

/-! ### Resigns that are not overtaken -/

/-- **The invariant of runs without overtaking**: the key was written by a campaign that
started before every pending resign, as have those whose write is on its way; and as long as no
lease has expired an elector that is winning has its token in the key. -/
structure KeyInv (h : List Ev) (y : Sys) : Prop where
  elector : y.elector.Inv
  apart : y.elector.Apart
  precedes : ∀ c, y.key = some (.mine c) → y.elector.Precedes c
  late : ∀ c ∈ y.late, y.elector.Precedes c
  held : (∀ ev ∈ h, ¬Expires ev) → y.elector.Winning → y.key.isMine = true

theorem keyInv_init : KeyInv [] init where
  elector := inv_new
  apart := apart_new
  precedes _ h := nomatch h
  late _ h := nomatch h
  held _ h := by
    rcases h with howned | ⟨k, hk, -⟩
    · exact nomatch howned
    · exact nomatch hk

theorem KeyInv.elector_step (hI : KeyInv h y) {a : Action} {e : Elector}
    (he : y.elector.step b a = some e) (hover : ¬Overtakes ⟨y, l, y'⟩)
    (hl : a = .beginCampaign → l = .act .beginCampaign) : e.Inv ∧ e.Apart := by
  refine ⟨inv_step hI.elector he, apart_step hI.elector hI.apart he ?_⟩
  rintro ⟨rfl, hpending⟩
  exact hover ⟨hl rfl, rfl, hpending⟩

/-- **Every step that does not overtake keeps the invariant.** -/
theorem keyInv_step (hI : KeyInv h y) (hs : y.step b l = some y')
    (hover : ¬Overtakes ⟨y, l, y'⟩) : KeyInv (⟨y, l, y'⟩ :: h) y' := by
  have hpast : (∀ ev ∈ (⟨y, l, y'⟩ :: h : List Ev), ¬Expires ev) → ∀ ev ∈ h, ¬Expires ev :=
    fun hall ev hev => hall ev (List.mem_cons_of_mem _ hev)
  have hdid := did_of_step hs
  cases hdid with
  | @moved _ _ a he hkey hlate hgrant hprobe hbegin =>
    obtain ⟨hinv, hapart⟩ := hI.elector_step he hover hbegin
    refine ⟨hinv, hapart, fun c hc => precedes_step he (hI.precedes c (hkey ▸ hc)),
      fun c hc => precedes_step he (hI.late c (hlate ▸ hc)), fun hnone hwin => ?_⟩
    rw [hkey]
    rcases winning_of_step hI.elector he hwin with hwas | ⟨n, rfl | rfl⟩
    · exact hI.held (hpast hnone) hwas
    · exact absurd rfl (hgrant n)
    · exact hprobe n rfl
  | @acquired n _ _ k reply hk he hkey hgranted hlate =>
    obtain ⟨hinv, hapart⟩ := hI.elector_step he hover nofun
    have hprec := precedes_of_acquired hI.elector hI.apart he hk
    refine ⟨hinv, hapart, fun c hc => ?_, fun c hc => ?_, fun hnone hwin => ?_⟩
    · rcases hkey with hsame | hnew
      · exact precedes_step he (hI.precedes c (hsame ▸ hc))
      · obtain rfl : k.number = c := by simpa using hnew.symm.trans hc
        exact hprec
    · rcases hlate c hc with hold | rfl
      · exact precedes_step he (hI.late c hold)
      · exact hprec
    · rcases winning_of_step hI.elector he hwin with hwas | ⟨n', hreply | hreply⟩
      · rcases hkey with hsame | hnew
        · rw [hsame]
          exact hI.held (hpast hnone) hwas
        · rw [hnew]
          rfl
      · rw [hgranted (Action.acquired.inj hreply).2]
        rfl
      · cases hreply
  | @lateAcquire _ _ c hc helector hkey hlate =>
    refine ⟨helector ▸ hI.elector, helector ▸ hI.apart, fun c' hc' => ?_,
      fun c' hc' => helector ▸ hI.late c' (hlate c' hc'), fun hnone hwin => ?_⟩
    · rcases hkey with hsame | hnew
      · exact helector ▸ hI.precedes c' (hsame ▸ hc')
      · obtain rfl : c = c' := by simpa using hnew.symm.trans hc'
        exact helector ▸ hI.late c hc
    · rcases hkey with hsame | hnew
      · rw [hsame]
        exact hI.held (hpast hnone) (helector ▸ hwin)
      · rw [hnew]
        rfl
  | released he hpending hbegin hreply hkept hlate =>
    -- nothing is won while a delete is pending
    obtain ⟨hinv, hapart⟩ := hI.elector_step he hover fun ha => absurd ha hbegin
    refine ⟨hinv, hapart, fun c hc => precedes_step he (hI.precedes c (hkept c hc)),
      fun c hc => precedes_step he (hI.late c (hlate ▸ hc)), fun _ hwin => ?_⟩
    rcases winning_of_step hI.elector he hwin with hwas | ⟨n, h | h⟩
    · exact absurd hwas (hI.apart.not_winning hpending)
    · exact absurd h (hreply n).1
    · exact absurd h (hreply n).2
  | environment helector hlate hfree henv =>
    have hnot : ∀ c, y'.key ≠ some (.mine c) := by
      intro c hc
      rw [hc] at hfree
      exact nomatch hfree
    refine ⟨helector ▸ hI.elector, helector ▸ hI.apart, fun c hc => absurd hc (hnot c),
      fun c hc => helector ▸ hI.late c (hlate ▸ hc), fun hnone hwin => ?_⟩
    have hmine := hI.held (hpast hnone) (helector ▸ hwin)
    rcases henv with rfl | hforeign
    · exact absurd ⟨rfl, hmine⟩ (hnone _ List.mem_cons_self)
    · exact nomatch hmine.symm.trans hforeign

/-- **What a delete executes is pending.** -/
theorem pending_of_executed (hs : y.step b l = some y') {r : ℕ}
    (hexec : executed ⟨y, l, y'⟩ = some r) : y.elector.Pending r := by
  cases l with
  | release m fault =>
    obtain ⟨he, -⟩ := Sys.advance_eq_some hs
    obtain ⟨r', hr', hpending⟩ := pending_of_deleted he
    simp only [executed] at hexec
    split_ifs at hexec
    rw [hr'] at hexec
    cases hexec
    exact hpending
  | lateRelease j => exact .inr (List.mem_of_getElem? hexec)
  | _ => cases hexec

theorem not_removesLater (hI : KeyInv h y) (hs : y.step b l = some y') :
    ¬RemovesLater ⟨y, l, y'⟩ := by
  rintro ⟨⟨r, c⟩, hp, hlt⟩
  simp only [removed] at hp
  split at hp
  next hexec hkey =>
    cases hp
    exact ((hI.precedes c hkey).2 r (pending_of_executed hs hexec)).asymm hlt
  next => cases hp

/-- **A resign spares a later leadership if no campaign overtakes a resign**, that is, in
every run of the elector in which no campaign begins while the delete of a resign is still
to come. -/
theorem resign_spares_later_leadership (hr : Run (Sys.step b) init h y)
    (hseq : ∀ ev ∈ h, ¬Overtakes ev) : SparesLater h y := by
  have hguard : Always (fun _ ev => ¬Overtakes ev) h := always_iff_forall_mem.mpr hseq
  have hI : KeyInv h y ∧ ∀ ev ∈ h, ¬RemovesLater ev :=
    hr.invariant_of (P := fun h y => KeyInv h y ∧ ∀ ev ∈ h, ¬RemovesLater ev) hguard
      ⟨keyInv_init, fun _ h => (nomatch h)⟩
      fun h y l y' hI hs hover => ⟨keyInv_step hI.1 hs hover,
        List.forall_mem_cons.mpr ⟨not_removesLater hI.1 hs, hI.2⟩⟩
  exact ⟨hI.2, fun hnone howned => hI.1.held hnone (.inl howned)⟩

end Steps

/-- A campaign, its leadership, a resign that runs to its end, and a second leadership. -/
theorem resign_spares_later_leadership_twice : ∃ h y,
    Run (Sys.step .redis) init h y ∧ (∀ ev ∈ h, ¬Overtakes ev) ∧ (∀ ev ∈ h, ¬Expires ev) ∧
    h.filterMap removed = [(1, 0)] ∧ y.key = some (.mine 2) ∧ y.elector.flags.owned = true ∧
    SparesLater h y := by
  obtain ⟨h, y, hr, hseq, hexp, hremoved, hkey, howned⟩ := exists_run (Sys.step .redis) init
    [.act .beginCampaign, .acquire 0 .none, .act (.startRenewal 0), .act (.endCampaign 0),
      .renew 0 .none, .act .clearOwnership, .act (.cancel 0), .act (.quit 0), .act (.join 0),
      .release 0 .none, .act (.finishResign 0), .act .beginCampaign, .acquire 0 .lost,
      .probe 0 false, .act (.startRenewal 0), .act (.endCampaign 0)]
    (fun h y => (∀ ev ∈ h, ¬Overtakes ev) ∧ (∀ ev ∈ h, ¬Expires ev) ∧
      h.filterMap removed = [(1, 0)] ∧ y.key = some (.mine 2) ∧
      y.elector.flags.owned = true) (by decide +kernel)
  exact ⟨h, y, hr, hseq, hexp, hremoved, hkey, howned, resign_spares_later_leadership hr hseq⟩

/-- Two overlapping resigns, with either backend. Both start while the elector is the
leader; the first deletes the key and clears `cleanup`; a campaign begins, writes the key
and becomes the leader; then the second resign deletes that key. No lease has expired, and
the elector still reports leadership. -/
theorem not_sparesLater_of_overlap {b : Backend} (hb : b ≠ .postgres) :
    ¬∀ h y, Run (Sys.step b) init h y → SparesLater h y := by
  have hrun : ∃ h y, Run (Sys.step b) init h y ∧ (∃ ev ∈ h, RemovesLater ev) ∧
      (∀ ev ∈ h, ¬Expires ev) ∧ y.elector.flags.owned = true ∧ y.key = none := by
    refine exists_run _ _
      [.act .beginCampaign, .acquire 0 .none, .act (.startRenewal 0), .act (.endCampaign 0),
        .act .clearOwnership, .act .clearOwnership, .act (.cancel 0), .act (.cancel 1),
        .act (.quit 0), .act (.join 0), .release 0 .none, .act (.finishResign 0),
        .act .beginCampaign, .acquire 0 .none, .act (.startRenewal 0), .act (.endCampaign 0),
        .act (.join 0), .release 0 .none] _ ?_
    cases b with
    | redis | mongo => decide +kernel
    | postgres => exact absurd rfl hb
  intro hall
  obtain ⟨h, y, hr, ⟨ev, hev, hremoves⟩, -⟩ := hrun
  exact (hall h y hr).1 ev hev hremoves

/-- **A resign can destroy a later leadership**, of the Redis and of the Mongo
elector. -/
theorem resign_removes_later_leadership :
    (¬∀ h y, Run (Sys.step .redis) init h y → SparesLater h y) ∧
    ¬∀ h y, Run (Sys.step .mongo) init h y → SparesLater h y :=
  ⟨not_sparesLater_of_overlap (by decide), not_sparesLater_of_overlap (by decide)⟩

end Bluetape.Leader.Redis
