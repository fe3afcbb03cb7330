import Bluetape.Jwt.Cached

/-!
# What a cached parse has checked

Whatever the cached providers return was accepted by the parse without a cache at a moment: for a
reader that was kept, when the clock was read to revalidate it; for one that was parsed, when the
clock was read for its claims (`CheckedAt`). That takes an argument, since the key is looked up at
another moment than the clock is read. It is looked up once more afterwards, and a key that is gone
does not come back (`World.Le`): so it was there all the time (`parse_at_reading`).

The moment lies in the call, unless the result is that of a flight that the call has joined later.
-/

namespace Bluetape.Jwt

open GoString Conc Protocol List

/-! ### How the world changes -/

/-- **What a later world has in common with an earlier one.** -/
structure World.Le (w w' : World) : Prop where
  now_le : w.now ≤ w'.now
  used : ∀ k ∈ w.used, k ∈ w'.used
  /-- A key that had been stored is there later only if it was there before. -/
  back : ∀ k ∈ w'.keys, k ∈ w.used → k ∈ w.keys
  seen : ∀ x ∈ w.seen, x ∈ w'.seen
  wiped : ∀ x ∈ w.wiped, x ∈ w'.wiped
  started : ∀ (id : ℕ) (l : Launch), w.started[id]? = some l → w'.started[id]? = some l

namespace World.Le

variable {w w' w'' : World}

theorem refl (w : World) : w.Le w :=
  ⟨Int.le_refl _, fun _ h => h, fun _ h _ => h, fun _ h => h, fun _ h => h, fun _ _ h => h⟩

theorem trans (h : w.Le w') (h' : w'.Le w'') : w.Le w'' where
  now_le := Int.le_trans h.now_le h'.now_le
  used k hk := h'.used k (h.used k hk)
  back k hk hused := h.back k (h'.back k hk (h.used k hused)) hused
  seen x hx := h'.seen x (h.seen x hx)
  wiped x hx := h'.wiped x (h.wiped x hx)
  started id l hl := h'.started id l (h.started id l hl)

end World.Le

/-- **What holds of a world**: the keys have different kids, and those that were deleted are gone,
also from what is seen later. -/
structure World.Ok (t : ℕ) (w : World) : Prop where
  keys : ∀ k ∈ w.keys, k ∈ w.used
  distinct : DistinctKids w.used
  seen_lt : ∀ x ∈ w.seen, x.1 < t
  wiped_lt : ∀ x ∈ w.wiped, x.1 < t
  gone : ∀ x ∈ w.wiped, ∀ k ∈ x.2, k ∈ w.used ∧ k ∉ w.keys
  unseen : ∀ x ∈ w.wiped, ∀ y ∈ w.seen, x.1 < y.1 → ∀ k ∈ x.2, k ∉ y.2.keys

namespace World.Ok

variable {t : ℕ} {w : World}

theorem idle (h : w.Ok t) : w.Ok (t + 1) :=
  ⟨h.keys, h.distinct, fun x hx => Nat.lt_succ_of_lt (h.seen_lt x hx),
    fun x hx => Nat.lt_succ_of_lt (h.wiped_lt x hx), h.gone, h.unseen⟩

theorem tick (h : w.Ok t) (d : ℕ) : World.Ok (t + 1) { w with now := w.now + d } :=
  ⟨h.keys, h.distinct, h.idle.seen_lt, h.idle.wiped_lt, h.gone, h.unseen⟩

theorem le_tick (w : World) (d : ℕ) : w.Le { w with now := w.now + d } :=
  ⟨by change w.now ≤ w.now + d; omega, fun _ h => h, fun _ h _ => h, fun _ h => h, fun _ h => h,
    fun _ _ h => h⟩

theorem look (h : w.Ok t) : (w.look t).Ok (t + 1) where
  keys := h.keys
  distinct := h.distinct
  seen_lt := forall_mem_cons.mpr ⟨Nat.lt_succ_self t, h.idle.seen_lt⟩
  wiped_lt := h.idle.wiped_lt
  gone := h.gone
  unseen x hx := forall_mem_cons.mpr ⟨fun _ k hk => (h.gone x hx k hk).2, h.unseen x hx⟩

theorem le_look (w : World) (t : ℕ) : w.Le (w.look t) :=
  ⟨Int.le_refl _, fun _ h => h, fun _ h _ => h, fun _ h => mem_cons_of_mem _ h, fun _ h => h,
    fun _ _ h => h⟩

theorem wipe (h : w.Ok t) : (w.wipe t).Ok (t + 1) where
  keys := nofun
  distinct := h.distinct
  seen_lt := h.idle.seen_lt
  wiped_lt := forall_mem_cons.mpr ⟨Nat.lt_succ_self t, h.idle.wiped_lt⟩
  gone := forall_mem_cons.mpr
    ⟨fun _ hk => ⟨hk, not_mem_nil⟩, fun x hx _ hk => ⟨(h.gone x hx _ hk).1, not_mem_nil⟩⟩
  unseen := forall_mem_cons.mpr
    ⟨fun y hy hlt => absurd (h.seen_lt y hy) (Nat.not_lt_of_lt hlt), h.unseen⟩

theorem le_wipe (w : World) (t : ℕ) : w.Le (w.wipe t) :=
  ⟨Int.le_refl _, fun _ h => h, nofun, fun _ h => h, fun _ h => mem_cons_of_mem _ h, fun _ _ h => h⟩

theorem deleteAll (h : w.Ok t) : World.Ok (t + 1) { w with keys := [] } :=
  ⟨nofun, h.distinct, h.idle.seen_lt, h.idle.wiped_lt,
    fun x hx k hk => ⟨(h.gone x hx k hk).1, not_mem_nil⟩, h.unseen⟩

theorem le_deleteAll (w : World) : w.Le { w with keys := [] } :=
  ⟨Int.le_refl _, fun _ h => h, nofun, fun _ h => h, fun _ h => h, fun _ _ h => h⟩

theorem launch (h : w.Ok t) (l : Launch) : (w.launch l).Ok (t + 1) :=
  ⟨h.keys, h.distinct, h.idle.seen_lt, h.idle.wiped_lt, h.gone, h.unseen⟩

theorem le_launch (w : World) (l : Launch) : w.Le (w.launch l) :=
  ⟨Int.le_refl _, fun _ h => h, fun _ h _ => h, fun _ h => h, fun _ h => h, fun id l' h => by
    rw [World.launch, getElem?_append_left (List.getElem?_eq_some_iff.mp h).1]
    exact h⟩

variable {keys : List KeyChain} {key : KeyChain}

theorem of_rotate {w' : World} (h : w.rotate key keys = some w') :
    (∀ k ∈ w.used, k.kid ≠ key.kid) ∧ Rotates key w.keys keys ∧
      w' = { w with keys := keys, used := key :: w.used } := by
  obtain ⟨⟨hnew, hrot⟩, hw⟩ := Option.ite_none_right_eq_some.mp h
  exact ⟨hnew, hrot, (Option.some.inj hw).symm⟩

theorem rotate (h : w.Ok t) {w' : World} (hrot : w.rotate key keys = some w') : w'.Ok (t + 1) := by
  obtain ⟨hnew, hkeys, rfl⟩ := of_rotate hrot
  have hfresh : ∀ k ∈ w.used, k ≠ key := fun k hk heq => hnew k hk (heq ▸ rfl)
  refine ⟨fun k hk => ?_, fun k hk k' hk' hkid => ?_,
    h.idle.seen_lt, h.idle.wiped_lt, fun x hx k hk => ?_, h.unseen⟩
  · rcases hkeys k hk with rfl | hold
    · exact mem_cons_self
    · exact mem_cons_of_mem _ (h.keys k hold)
  · rcases mem_cons.mp hk with rfl | hold
    · rcases mem_cons.mp hk' with rfl | hold'
      · rfl
      · exact absurd hkid.symm (hnew k' hold')
    · rcases mem_cons.mp hk' with rfl | hold'
      · exact absurd hkid (hnew k hold)
      · exact h.distinct k hold k' hold' hkid
  · obtain ⟨hused, hgone⟩ := h.gone x hx k hk
    refine ⟨mem_cons_of_mem _ hused, fun hback => ?_⟩
    rcases hkeys k hback with heq | hold
    · exact hfresh k hused heq
    · exact hgone hold

theorem le_rotate {w' : World} (hrot : w.rotate key keys = some w') : w.Le w' := by
  obtain ⟨hnew, hkeys, rfl⟩ := of_rotate hrot
  refine ⟨Int.le_refl _, fun _ h => mem_cons_of_mem _ h, fun k hk hused => ?_, fun _ h => h,
    fun _ h => h, fun _ _ h => h⟩
  rcases hkeys k hk with rfl | hold
  · exact absurd rfl (hnew k hused)
  · exact hold

end World.Ok

/-! ### Moments -/

variable (E : Setup)

/-- **The parse without a cache has accepted the token** when the clock was read. -/
def CheckedAt (w : World) (cfg : ParseConfig) (token : Text) (c : Checked) : Prop :=
  ∃ x : Snapshot, (c.time, x) ∈ w.seen ∧
    parse E.jws E.provider x.keys x.now cfg token = some c.reader

variable {cfg : ParseConfig} {token : Text} {w w' : World}

theorem CheckedAt.mono {E : Setup} {c : Checked} (h : CheckedAt E w cfg token c) (hle : w.Le w') :
    CheckedAt E w' cfg token c := by
  obtain ⟨x, hx, hparse⟩ := h
  exact ⟨x, hle.seen _ hx, hparse⟩

abbrev VettedIn (w : World) (cfg : ParseConfig) (token : Text) (r : Reader) : Prop :=
  Vetted E.jws E.provider w.used w.now cfg token r

variable {r : Reader}

theorem VettedIn.mono {E : Setup} (h : VettedIn E w cfg token r) (hle : w.Le w') :
    VettedIn E w' cfg token r :=
  Vetted.mono h hle.used hle.now_le

/-- What is known of a key that was found, in a world between two others. -/
def FoundBetween (w w' : World) (kid : Text) (k : KeyChain) : Prop :=
  match E.provider.fixedKey with
  | some _ => E.provider.find [] kid 0 = some k
  | none => ∃ v : World, ∃ now, w.Le v ∧ v.Le w' ∧ (∃ t, v.Ok t) ∧ w.now ≤ now ∧
      repoFind v.keys kid now = some k

variable {k : KeyChain}

/-- **The token was accepted when the clock was read**: it had been vetted by then, its claims were
valid, and the key was found later. -/
theorem parse_at_reading {E : Setup} {t : ℕ} (hok : w.Ok t) (hvetted : VettedIn E w cfg token r)
    (hvalid : E.jws.validClaims cfg w.now r.claims = true) (hfound : FoundBetween E w w' r.kid k) :
    parse E.jws E.provider w.keys w.now cfg token = some r := by
  refine parse_of_vetted hvetted hok.keys hok.distinct (fun hfixed => ?_) hvalid
  unfold FoundBetween at hfound
  rw [hfixed] at hfound
  obtain ⟨v, now, hwv, -, ⟨_, hvok⟩, hnow, hfind⟩ := hfound
  obtain ⟨-, hmem, hkid, hlive⟩ := of_repoFind_eq_some hfind
  obtain ⟨key, hknown, -⟩ := hvetted.signed
  unfold Provider.Known at hknown
  rw [hfixed] at hknown
  obtain ⟨hused, hkkid, -⟩ := hknown
  -- The key that was found is the one that had been stored before, so it was there all the time.
  obtain rfl : k = key :=
    hvok.distinct k (hvok.keys k hmem) key (hwv.used key hused) (hkid.trans hkkid.symm)
  exact ⟨k, hwv.back k hmem hused, hkid, KeyChain.not_expired_of_le hnow hlive⟩

/-! ### What a thread knows -/

/-- What a thread knows: the world and the time of its last action, when it began, and whether it
has got the result of a flight that was checked before. -/
structure Ghost where
  world : World
  time : ℕ
  began : ℕ
  stale : Bool

structure Ghost.Le (g g' : Ghost) : Prop where
  world : g.world.Le g'.world
  time : g.time ≤ g'.time
  began : g'.began = g.began
  stale : g'.stale = g.stale

theorem Ghost.Le.refl (g : Ghost) : g.Le g := ⟨World.Le.refl _, Nat.le_refl _, rfl, rfl⟩

theorem Ghost.Le.trans {g g' g'' : Ghost} (h : g.Le g') (h' : g'.Le g'') : g.Le g'' :=
  ⟨h.world.trans h'.world, Nat.le_trans h.time h'.time, h'.began.trans h.began,
    h'.stale.trans h.stale⟩

structure Launch.Proper (l : Launch) : Prop where
  clock : l.cfg.customClock = false
  leeway : 0 ≤ l.cfg.leeway
  key : l.key = E.key l.cfg l.token

def VettedFor (w : World) (key : Text) (r : Reader) : Prop :=
  ∀ cfg token, cfg.customClock = false → E.key cfg token = key → VettedIn E w cfg token r

/-- **Which actions are allowed.** -/
def Allowed (g : Ghost) : Action → Prop
  | .setIfEpoch key r _ => VettedFor E g.world key r
  | .doChan l => l.Proper E
  | .finish id (.ok c) => ∃ l, g.world.started[id]? = some l ∧ CheckedAt E g.world l.cfg l.token c
  | _ => True

/-- **What an answer tells**, at a time and in a shared state. -/
def Told (t : ℕ) (s : Shared) (g g' : Ghost) : (a : Action) → a.Answer → Prop
  | .now, x => x = (s.world.now, t) ∧ (t, s.world.snapshot) ∈ g'.world.seen
  | .find kid now, .ok k => repoFind s.world.keys kid now = some k
  | .deleteAll, .ok _ => (t, s.world.used) ∈ g'.world.wiped
  | .get key, .hit r => VettedFor E s.world key r
  | .doChan l, (id : ℕ) => ∃ l' : Launch, g'.world.started[id]? = some l' ∧ l'.Proper E ∧
      l'.key = l.key
  | .wait id, some (.ok c) => ∀ l, g.world.started[id]? = some l →
      CheckedAt E s.world l.cfg l.token c
  | .take id, l => g'.world.started[id]? = some l ∧ l.Proper E
  | _, _ => True

/-- Whether the answer is the result of a flight that was checked before the thread began. -/
def Stale (began : ℕ) : (a : Action) → a.Answer → Bool
  | .wait _, some (.ok c) => decide (c.time < began)
  | _, _ => false

/-- **How what a thread knows moves with an action.** -/
structure Moved (t : ℕ) (s : Shared) (g : Ghost) (a : Action) (x : a.Answer) (g' : Ghost) :
    Prop where
  before : g.world.Le s.world
  after : s.world.Le g'.world
  ok : s.world.Ok t
  time_le : g.time ≤ t
  time : g'.time = t
  began : g'.began = g.began
  stale : g'.stale = (g.stale || Stale g.began a x)
  told : Told E t s g g' a x

def protocol : Protocol Action Action.Answer Shared Ghost where
  allowed := Allowed E
  move := Moved E

/-- The program ends with what `Q` says, and the thread knows more than before. -/
def Spec {ρ : Type} (p : Program ρ) (g : Ghost) (Q : ρ → Ghost → Prop) : Prop :=
  ∀ J : Loop → Ghost → Prop, (protocol E).wp J (fun r g' => g.Le g' ∧ Q r g') p g

variable {E}

theorem Moved.le {t : ℕ} {s : Shared} {g g' : Ghost} {a : Action} {x : a.Answer}
    (h : Moved E t s g a x g') (hstale : Stale g.began a x = false) : g.Le g' :=
  ⟨h.before.trans h.after, h.time ▸ h.time_le, h.began, by rw [h.stale, hstale, Bool.or_false]⟩

namespace Spec

variable {ρ τ : Type} {g : Ghost} {Q : ρ → Ghost → Prop}

theorem pure {r : ρ} (h : Q r g) : Spec E (pure r) g Q :=
  fun _ => ⟨Ghost.Le.refl g, h⟩

theorem error {f : Failure} {P : ρ → Ghost → Prop} :
    Spec E (Pure.pure (.error f)) g fun (x : Except Failure ρ) g' => ∀ r, x = .ok r → P r g' :=
  pure (by rintro r ⟨⟩)

theorem act {a : Action} {Q : a.Answer → Ghost → Prop} (ha : Allowed E g a)
    (hstale : ∀ x, Stale g.began a x = false)
    (h : ∀ t s x g', Moved E t s g a x g' → g.Le g' → Q x g') : Spec E (act a) g Q :=
  fun _ => ⟨ha, fun t s x g' hmove => ⟨hmove.le (hstale x), h t s x g' hmove (hmove.le (hstale x))⟩⟩

theorem bind {p : Program ρ} {f : ρ → Program τ} {Q' : τ → Ghost → Prop} (hp : Spec E p g Q)
    (hf : ∀ r g', g.Le g' → Q r g' → Spec E (f r) g' Q') : Spec E (p >>= f) g Q' := by
  intro J
  refine wp_bind (wp_mono ?_ (hp J))
  rintro r g' ⟨hle, hQ⟩
  refine wp_mono ?_ (hf r g' hle hQ J)
  rintro r' g'' ⟨hle', hQ'⟩
  exact ⟨hle.trans hle', hQ'⟩

theorem ite {c : Prop} [Decidable c] {p q : Program ρ} (hp : c → Spec E p g Q)
    (hq : ¬c → Spec E q g Q) : Spec E (if c then p else q) g Q := by
  split_ifs with hc
  · exact hp hc
  · exact hq hc

theorem act_any {a : Action} (ha : Allowed E g a) (hstale : ∀ x, Stale g.began a x = false) :
    Spec E (Jwt.act a) g fun _ _ => True :=
  act ha hstale fun _ _ _ _ _ _ => trivial

end Spec

/-! ### Reading the clock and finding a key -/

structure Reading (g g' : Ghost) (w : World) (x : ℤ × ℕ) : Prop where
  before : g.world.Le w
  after : w.Le g'.world
  ok : ∃ t, w.Ok t
  now : x.1 = w.now
  time : g.time ≤ x.2
  seen : (x.2, w.snapshot) ∈ g'.world.seen

theorem Reading.mono {g g' g'' : Ghost} {w : World} {x : ℤ × ℕ} (h : Reading g g' w x)
    (hle : g'.Le g'') : Reading g g'' w x :=
  ⟨h.before, h.after.trans hle.world, h.ok, h.now, h.time, hle.world.seen _ h.seen⟩

theorem spec_now (g : Ghost) : Spec E (act .now) g fun x g' => ∃ w, Reading g g' w x := by
  refine Spec.act trivial (fun _ => rfl) fun t s x g' hmove _ => ?_
  obtain ⟨rfl, hseen⟩ := hmove.told
  exact ⟨s.world, hmove.before, hmove.after, ⟨t, hmove.ok⟩, rfl, hmove.time_le, hseen⟩

theorem spec_clock (hclock : cfg.customClock = false) (g : Ghost) :
    Spec E (clock cfg) g fun x g' => ∃ w, Reading g g' w x := by
  rw [clock, if_neg (by rw [hclock]; exact Bool.false_ne_true)]
  exact spec_now g

theorem FoundBetween.mono {v w w' v' : World} {kid : Text} (h : FoundBetween E w w' kid k)
    (hle : v.Le w) (hle' : w'.Le v') : FoundBetween E v v' kid k := by
  unfold FoundBetween at h ⊢
  cases hfixed : E.provider.fixedKey with
  | some fixed =>
    rw [hfixed] at h
    exact h
  | none =>
    rw [hfixed] at h
    obtain ⟨u, now, hwu, hu, hok, hnow, hfind⟩ := h
    exact ⟨u, now, hle.trans hwu, hu.trans hle', hok, Int.le_trans hle.now_le hnow, hfind⟩

theorem FoundBetween.known {kid : Text} (h : FoundBetween E w w' kid k) :
    E.provider.Known w'.used kid k := by
  unfold FoundBetween at h
  unfold Provider.Known
  cases hfixed : E.provider.fixedKey with
  | some fixed =>
    simp only [Provider.find, hfixed] at h
    obtain ⟨hkid, heq⟩ := Option.ite_none_right_eq_some.mp h
    exact ⟨(Option.some.inj heq).symm, hkid⟩
  | none =>
    rw [hfixed] at h
    obtain ⟨u, now, -, hu, ⟨_, hok⟩, -, hfind⟩ := h
    obtain ⟨hvalid, hmem, hkid, -⟩ := of_repoFind_eq_some hfind
    exact ⟨hu.used k (hok.keys k hmem), hkid, hvalid⟩

/-- **Looking up the key of a token.** -/
theorem spec_keyOf (hclock : cfg.customClock = false) (kid : Text) (g : Ghost) :
    Spec E (keyOf E cfg kid) g fun x g' =>
      ∀ k, x = .ok k → FoundBetween E g.world g'.world kid k := by
  unfold keyOf
  cases hfixed : E.provider.fixedKey with
  | some key =>
    refine Spec.ite (fun hkid => Spec.pure ?_) fun _ => Spec.error
    rintro k ⟨rfl⟩
    simp only [FoundBetween, hfixed, Provider.find, if_pos hkid]
  | none =>
    refine (spec_clock hclock g).bind fun x g' hle hread => ?_
    obtain ⟨w, hread⟩ := hread
    refine Spec.act trivial (fun _ => rfl) fun t s found g'' hmove _ => ?_
    rintro k rfl
    have hfind : repoFind s.world.keys kid x.1 = some k := hmove.told
    simp only [FoundBetween, hfixed]
    refine ⟨s.world, x.1, hle.world.trans hmove.before, hmove.after, ⟨t, hmove.ok⟩, ?_, hfind⟩
    rw [hread.now]
    exact hread.before.now_le

theorem spec_findKeyChain (kid : Text) (g : Ghost) :
    Spec E (findKeyChain E kid) g fun x g' =>
      ∀ k, x = .ok k → FoundBetween E g.world g'.world kid k :=
  spec_keyOf rfl kid g

/-! ### Revalidating -/

theorem spec_dropStale (key : Text) (g : Ghost) :
    Spec E (dropStale key) g fun x _ => ∀ time, x ≠ .ok (some time) := by
  refine Spec.bind (Spec.act_any trivial fun _ => rfl) fun deleted g' _ _ => ?_
  refine Spec.ite (fun _ => Spec.pure ?_) fun _ => Spec.pure ?_
  · rintro time ⟨⟩
  · rintro time ⟨⟩

/-- **A reader that is found to be valid** would have been accepted when the clock was read. -/
theorem spec_revalidate {g : Ghost} (key : Text) (hleeway : 0 ≤ cfg.leeway)
    (hvetted : VettedIn E g.world cfg token r) :
    Spec E (revalidate E key r) g fun x g' => ∀ time, x = .ok (some time) →
      CheckedAt E g'.world cfg token ⟨r, time⟩ ∧ g.time ≤ time := by
  have hdrop : ∀ g₁ : Ghost, Spec E (dropStale key) g₁ fun x g' => ∀ time, x = .ok (some time) →
      CheckedAt E g'.world cfg token ⟨r, time⟩ ∧ g.time ≤ time := fun g₁ J =>
    wp_mono (fun x g' h => ⟨h.1, fun time htime => absurd htime (h.2 time)⟩)
      (spec_dropStale key g₁ J)
  refine Spec.bind (Spec.act_any trivial fun _ => rfl) fun ended g₁ hle₁ _ => ?_
  refine Spec.ite (fun _ => Spec.pure nofun) fun _ => ?_
  refine (spec_now g₁).bind fun x g₂ hle₂ hread => ?_
  obtain ⟨w, hread⟩ := hread
  refine Spec.ite (fun _ => hdrop g₂) fun hlive => ?_
  refine (spec_findKeyChain r.kid g₂).bind fun found g₃ hle₃ hfound => ?_
  cases found with
  | error f => exact hdrop g₃
  | ok k =>
    refine Spec.ite (fun _ => hdrop g₃) fun _ => Spec.pure ?_
    rintro time ⟨rfl⟩
    obtain ⟨t, hok⟩ := hread.ok
    have hvetted' : VettedIn E w cfg token r := hvetted.mono (hle₁.world.trans hread.before)
    have hexp : r.isExpired w.now = false := by
      rw [← hread.now]
      exact eq_false_of_ne_true fun h => hlive (.inr h)
    refine ⟨⟨w.snapshot, (hread.mono hle₃).seen, ?_⟩, Nat.le_trans hle₁.time hread.time⟩
    exact parse_at_reading hok hvetted' (hvetted'.valid_now hleeway hexp)
      ((hfound k rfl).mono hread.after (World.Le.refl _))

/-! ### Parsing -/

/-- The token was accepted at a reading of the clock, but for the presence of its key. -/
def ParsedAt (E : Setup) (g g' : Ghost) (cfg : ParseConfig) (token : Text) (c : Checked) : Prop :=
  ∃ w : World, ∃ now, Reading g g' w (now, c.time) ∧ VettedIn E w cfg token c.reader ∧
    E.jws.validClaims cfg w.now c.reader.claims = true

theorem spec_checkClaims {g : Ghost} (hclock : cfg.customClock = false) (htoken : token ≠ [])
    (hdecoded : E.jws.decode token = some r) (haccepted : E.provider.accepts E.jws r = true)
    (hknown : E.provider.Known g.world.used r.kid k)
    (hsigned : E.provider.signedBy E.jws token k = true) :
    Spec E (checkClaims E cfg r) g fun x g' => ∀ c, x = .ok c → ParsedAt E g g' cfg token c := by
  refine (spec_clock hclock g).bind fun x g' _ hread => ?_
  obtain ⟨w, hread⟩ := hread
  refine Spec.ite (fun hvalid => Spec.pure ?_) fun _ => Spec.error
  rintro c ⟨rfl⟩
  rw [hread.now] at hvalid
  refine ⟨w, x.1, hread,
    ⟨htoken, hdecoded, haccepted, ⟨k, ?_, hsigned⟩, w.now, Int.le_refl _, hvalid⟩,
    hvalid⟩
  exact Provider.Known.mono hknown hread.before.used

/-- **Parsing a token.** -/
theorem spec_parseToken (hclock : cfg.customClock = false) (token : Text) (g : Ghost) :
    Spec E (parseToken E cfg token) g fun x g' => ∀ c, x = .ok c → ParsedAt E g g' cfg token c := by
  refine Spec.ite (fun _ => Spec.error) fun htoken => ?_
  cases hdec : (E.jws.decode token).filter (E.provider.accepts E.jws) with
  | none => exact Spec.error
  | some r =>
    obtain ⟨hdecoded, haccepted⟩ := Option.filter_eq_some_iff.mp hdec
    refine (spec_keyOf hclock r.kid g).bind fun found g' hle hfound => ?_
    cases found with
    | error f => exact Spec.error
    | ok k =>
      refine Spec.ite (fun hsigned J => ?_) fun _ => Spec.error
      refine wp_mono ?_ (spec_checkClaims hclock htoken hdecoded haccepted
        (hfound k rfl).known hsigned J)
      rintro x g'' ⟨hle', hparsed⟩
      refine ⟨hle', fun c hc => ?_⟩
      obtain ⟨w, now, hread, hrest⟩ := hparsed c hc
      exact ⟨w, now, ⟨hle.world.trans hread.before, hread.after, hread.ok, hread.now,
        Nat.le_trans hle.time hread.time, hread.seen⟩, hrest⟩

theorem spec_readerTTL (r : Reader) (g : Ghost) :
    Spec E (readerTTL E r) g fun x g' => ∀ ttl, x = .ok ttl →
      ∃ k, FoundBetween E g.world g'.world r.kid k := by
  refine (spec_now g).bind fun x g₁ hle₁ _ => ?_
  refine (spec_findKeyChain r.kid g₁).bind fun found g₂ _ hfound => ?_
  cases found with
  | error f => exact Spec.error
  | ok k =>
    refine Spec.ite (fun _ => Spec.pure ?_) fun _ => Spec.error
    exact fun _ _ => ⟨k, (hfound k rfl).mono hle₁.world (World.Le.refl _)⟩

/-! ### Flights and calls -/

section Calls

variable (hsha : ∀ a b, E.sha256 a = E.sha256 b → a = b)

include hsha

variable {token : Text} {l : Launch}

theorem Launch.Proper.eq_of_key (hl : l.Proper E) (hclock : cfg.customClock = false)
    (hkey : E.key cfg token = l.key) : cfg = l.cfg ∧ token = l.token :=
  cacheKey_injective hsha hclock hl.clock (hkey.trans hl.key)

/-- **What was parsed is kept.** Its key is found once more, so it was accepted when the clock was
read for the claims. -/
theorem spec_keep (hl : l.Proper E) {c : Checked} {g₀ g : Ghost}
    (hparsed : ParsedAt E g₀ g l.cfg l.token c) :
    Spec E (keep E l c) g fun x g' => ∀ c', x = .ok c' → CheckedAt E g'.world l.cfg l.token c' := by
  obtain ⟨w, now, hread, hvetted, hexp⟩ := hparsed
  refine (spec_readerTTL c.reader g).bind fun ttl g₁ hle₁ hfound => ?_
  cases ttl with
  | error f => exact Spec.error
  | ok ttl =>
    obtain ⟨k, hfound⟩ := hfound ttl rfl
    obtain ⟨t, hok⟩ := hread.ok
    have hchecked : CheckedAt E g₁.world l.cfg l.token c := by
      refine ⟨w.snapshot, hle₁.world.seen _ hread.seen, ?_⟩
      exact parse_at_reading hok hvetted hexp (hfound.mono hread.after (World.Le.refl _))
    have hallowed : VettedFor E g₁.world l.key c.reader := by
      intro cfg token hclock hkey
      obtain ⟨rfl, rfl⟩ := hl.eq_of_key hsha hclock hkey
      exact hvetted.mono (hread.after.trans hle₁.world)
    refine Spec.ite (fun _ => ?_) fun _ => Spec.pure ?_
    · refine Spec.bind (Spec.act_any hallowed fun _ => rfl) fun stored g₂ hle₂ _ => ?_
      refine Spec.ite (fun _ => Spec.pure ?_) fun _ => Spec.error
      rintro c' ⟨rfl⟩
      exact hchecked.mono hle₂.world
    · rintro c' ⟨rfl⟩
      exact hchecked

theorem spec_load (hl : l.Proper E) (g : Ghost) :
    Spec E (load E l) g fun x g' => ∀ c, x = .ok c → CheckedAt E g'.world l.cfg l.token c := by
  refine (spec_parseToken hl.clock l.token g).bind fun parsed g' _ hparsed => ?_
  cases parsed with
  | error f => exact Spec.error
  | ok c => exact spec_keep hsha hl (hparsed c rfl)

/-- **What a flight returns was accepted when the clock was read.** -/
theorem spec_flight (hl : l.Proper E) (g : Ghost) :
    Spec E (flight E l) g fun x g' => ∀ c, x = .ok c → CheckedAt E g'.world l.cfg l.token c := by
  refine Spec.bind (Spec.act_any trivial fun _ => rfl) fun ended g₁ hle₁ _ => ?_
  refine Spec.ite (fun _ => Spec.error) fun _ => ?_
  have hget : Spec E (act (.get l.key)) g₁ fun x g' =>
      ∀ r, x = .hit r → VettedIn E g'.world l.cfg l.token r := by
    refine Spec.act trivial (fun _ => rfl) fun t s x g' hmove _ => ?_
    rintro r rfl
    exact (hmove.told l.cfg l.token hl.clock hl.key.symm).mono hmove.after
  refine hget.bind fun cached g₂ _ hcached => ?_
  cases cached with
  | failed => exact Spec.error
  | miss => exact spec_load hsha hl g₂
  | hit r =>
    refine (spec_revalidate l.key hl.leeway (hcached r rfl)).bind fun valid g₃ _ hvalid => ?_
    rcases valid with f | _ | time
    · exact Spec.error
    · exact spec_load hsha hl g₃
    · refine Spec.pure ?_
      rintro c ⟨rfl⟩
      exact (hvalid time rfl).1

omit hsha

/-- A call of `ParseContext` that is cached. -/
def CachedParse (op : Op) (cfg : ParseConfig) (token : Text) : Prop :=
  ∃ options, op = .parse token options ∧ normalizeParseConfig options = .ok cfg ∧
    cfg.customClock = false

def InLoop (op : Op) (t : ℕ) (l : Loop) (g : Ghost) : Prop :=
  CachedParse op l.cfg l.token ∧ g.began = t

/-- **What holds of a call that has ended.** -/
def Post (E : Setup) (op : Op) (t : ℕ) (r : Outcome) (g : Ghost) : Prop :=
  (∀ cfg token c, CachedParse op cfg token → r = .parsed (.ok c) →
    CheckedAt E g.world cfg token c ∧ (g.stale = false → t ≤ c.time)) ∧
  (op = .deleteKeyChains → r = .ended (.ok ()) → ∃ x ∈ g.world.wiped, t ≤ x.1)

variable {g : Ghost} {t : ℕ} {op : Op}

/-- A call of `ParseContext` that has failed. -/
theorem post_error {options : List (Option ParseOption)} (hop : op = .parse token options)
    (f : Failure) : Post E op t (.parsed (.error f)) g := by
  refine ⟨?_, ?_⟩
  · rintro cfg token' c - ⟨⟩
  · rintro rfl ⟨⟩

theorem CachedParse.unique {cfg cfg' : ParseConfig} {token token' : Text}
    (h : CachedParse op cfg token) (h' : CachedParse op cfg' token') :
    cfg = cfg' ∧ token = token' := by
  obtain ⟨options, rfl, hcfg, -⟩ := h
  obtain ⟨options', hop, hcfg', -⟩ := h'
  cases hop
  exact ⟨Except.ok.inj (hcfg.symm.trans hcfg'), rfl⟩

theorem CachedParse.proper (h : CachedParse op cfg token) (epoch : ℕ) :
    (⟨E.key cfg token, token, cfg, epoch⟩ : Launch).Proper E := by
  obtain ⟨options, -, hcfg, hclock⟩ := h
  exact ⟨hclock, leeway_nonneg hcfg, rfl⟩

theorem CachedParse.post {c : Checked} (h : CachedParse op cfg token)
    (hchecked : CheckedAt E g.world cfg token c) (htime : g.stale = false → t ≤ c.time) :
    Post E op t (.parsed (.ok c)) g := by
  refine ⟨?_, ?_⟩
  · rintro cfg' token' c' h' ⟨rfl⟩
    obtain ⟨rfl, rfl⟩ := h.unique h'
    exact ⟨hchecked, htime⟩
  · rintro rfl ⟨⟩

/-- **A cached parse**, up to its loop. -/
theorem wp_parseWithCache (hparse : CachedParse op cfg token) (hbegan : g.began = t)
    (htime : t ≤ g.time) :
    (protocol E).wp (InLoop op t) (Post E op t) (parseWithCache E cfg token) g := by
  obtain ⟨options, hop, hcfg, hclock⟩ := id hparse
  refine wp_call_bind trivial fun _ _ cached g₁ hmove₁ => ?_
  have hbegan₁ : g₁.began = t := hmove₁.began.trans hbegan
  cases cached with
  | failed => exact post_error hop _
  | miss => exact ⟨hparse, hbegan₁⟩
  | hit r =>
    have hvetted : VettedIn E g₁.world cfg token r :=
      VettedIn.mono (hmove₁.told cfg token hclock rfl) hmove₁.after
    refine wp_bind (wp_mono ?_
      (spec_revalidate (E.key cfg token) (leeway_nonneg hcfg) hvetted (InLoop op t)))
    rintro valid g₂ ⟨hle₂, hvalid⟩
    rcases valid with f | _ | time
    · exact post_error hop _
    · exact ⟨hparse, hle₂.began.trans hbegan₁⟩
    · obtain ⟨hchecked, hle⟩ := hvalid time rfl
      refine hparse.post hchecked fun _ => ?_
      have := hmove₁.time
      have := hmove₁.time_le
      change t ≤ time
      omega

theorem spec_parseToken_any (cfg : ParseConfig) (token : Text) (g : Ghost) :
    Spec E (parseToken E cfg token) g fun _ _ => True := by
  have hclock : ∀ g₁, Spec E (clock cfg) g₁ fun _ _ => True := fun g₁ =>
    Spec.ite (fun _ => Spec.bind (Spec.act_any trivial fun _ => rfl) fun _ _ _ _ =>
      Spec.pure trivial) fun _ => Spec.act_any trivial fun _ => rfl
  refine Spec.ite (fun _ => Spec.pure trivial) fun _ => ?_
  cases (E.jws.decode token).filter (E.provider.accepts E.jws) with
  | none => exact Spec.pure trivial
  | some r =>
    have hkey : Spec E (keyOf E cfg r.kid) g fun _ _ => True := by
      unfold keyOf
      cases E.provider.fixedKey with
      | some key => exact Spec.ite (fun _ => Spec.pure trivial) fun _ => Spec.pure trivial
      | none => exact (hclock g).bind fun _ _ _ _ => Spec.act_any trivial fun _ => rfl
    refine hkey.bind fun found g₁ _ _ => ?_
    cases found with
    | error f => exact Spec.pure trivial
    | ok k =>
      refine Spec.ite (fun _ => ?_) fun _ => Spec.pure trivial
      exact (hclock g₁).bind fun _ _ _ _ =>
        Spec.ite (fun _ => Spec.pure trivial) fun _ => Spec.pure trivial

/-- **`ParseContext`.** -/
theorem wp_parseContext {options : List (Option ParseOption)} (hbegan : g.began = t)
    (htime : t ≤ g.time) :
    (protocol E).wp (InLoop (.parse token options) t) (Post E (.parse token options) t)
      (parseContext E token options) g := by
  refine wp_call_bind trivial fun _ _ ended g₁ hmove₁ => ?_
  cases ended with
  | true => exact post_error rfl _
  | false =>
    by_cases htoken : token = []
    · simp only [if_pos htoken]
      exact post_error rfl _
    · simp only [if_neg htoken]
      cases hcfg : normalizeParseConfig options with
      | error err => exact post_error rfl _
      | ok cfg =>
        by_cases hclock : cfg.customClock = true
        · simp only [if_pos hclock]
          refine wp_bind (wp_mono ?_ (spec_parseToken_any cfg token g₁ _))
          rintro result g₂ -
          refine ⟨?_, ?_⟩
          · rintro cfg' token' c ⟨options', hop, hcfg', hclock'⟩ -
            cases hop
            obtain rfl := Except.ok.inj (hcfg.symm.trans hcfg')
            exact nomatch hclock'.symm.trans hclock
          · rintro ⟨⟩
        · simp only [if_neg hclock]
          refine wp_parseWithCache ⟨options, rfl, hcfg, eq_false_of_ne_true hclock⟩
            (hmove₁.began.trans hbegan) ?_
          have := hmove₁.time
          have := hmove₁.time_le
          omega

theorem post_other (r : Outcome) (hparse : ∀ token options, op ≠ .parse token options)
    (hdelete : op ≠ .deleteKeyChains) : Post E op t r g := by
  refine ⟨?_, fun hop => absurd hop hdelete⟩
  rintro cfg token c ⟨options, hop, -⟩
  exact absurd hop (hparse token options)

/-- `ClearCache`, as it is or at the end of another operation. -/
theorem wp_clearCache {J : Loop → Ghost → Prop} {Q : Outcome → Ghost → Prop}
    (hQ : ∀ r g', g.Le g' → Q (.ended r) g') : (protocol E).wp J Q clearCache g := by
  refine wp_call_bind trivial fun _ _ ended g₁ hmove₁ => ?_
  have hle₁ : g.Le g₁ := hmove₁.le rfl
  cases ended with
  | true => exact hQ _ _ hle₁
  | false =>
    refine wp_call_bind trivial fun _ _ cleared g₂ hmove₂ => ?_
    cases cleared with
    | true | false => exact hQ _ _ (hle₁.trans (hmove₂.le rfl))

/-- **`DeleteKeyChainsContext`**: when it returns nil the keys have been deleted. -/
theorem wp_deleteKeyChains (htime : t ≤ g.time) :
    (protocol E).wp (InLoop .deleteKeyChains t) (Post E .deleteKeyChains t) deleteKeyChains g := by
  have hfail : ∀ f g', Post E .deleteKeyChains t (.ended (.error f)) g' := by
    refine fun f g' => ⟨?_, ?_⟩
    · rintro cfg token c - ⟨⟩
    · rintro - ⟨⟩
  refine wp_call_bind trivial fun _ _ ended g₁ hmove₁ => ?_
  cases ended with
  | true => exact hfail _ _
  | false =>
    refine wp_call_bind trivial fun t₂ s₂ deleted g₂ hmove₂ => ?_
    cases deleted with
    | error f => exact hfail _ _
    | ok u =>
      have hwiped : (t₂, s₂.world.used) ∈ g₂.world.wiped := hmove₂.told
      refine wp_clearCache fun r g₃ hle₃ => ⟨?_, fun _ _ => ?_⟩
      · rintro cfg token c - ⟨⟩
      · refine ⟨_, hle₃.world.wiped _ hwiped, ?_⟩
        have := hmove₁.time
        have := hmove₁.time_le
        have := hmove₂.time_le
        omega

theorem wp_forcedRotate :
    (protocol E).wp (InLoop .forcedRotate t) (Post E .forcedRotate t) (forcedRotate E) g := by
  have hend : ∀ r g', Post E .forcedRotate t r g' := fun r g' =>
    post_other r nofun nofun
  refine wp_call_bind trivial fun _ _ ended g₁ _ => ?_
  cases ended with
  | true => exact hend _ _
  | false =>
    by_cases hfixed : E.provider.fixedKey.isSome = true
    · simp only [if_pos hfixed]
      exact hend _ _
    · simp only [if_neg hfixed]
      refine wp_call_bind trivial fun _ _ rotated g₂ _ => ?_
      cases rotated with
      | error f => exact hend _ _
      | ok u => exact wp_clearCache fun r g₃ _ => hend _ _

include hsha

/-- **The goroutine of a flight.** -/
theorem wp_fly {id : ℕ} :
    (protocol E).wp (InLoop (.fly id) t) (Post E (.fly id) t) (fly E id) g := by
  refine wp_call_bind trivial fun _ _ l g₁ hmove₁ => ?_
  obtain ⟨hstarted, hl⟩ := hmove₁.told
  refine wp_bind (wp_mono ?_ (spec_flight hsha hl g₁ _))
  rintro result g₂ ⟨hle₂, hresult⟩
  have hallowed : Allowed E g₂ (.finish id result) := by
    cases result with
    | error f => exact trivial
    | ok c => exact ⟨l, hle₂.world.started id l hstarted, hresult c rfl⟩
  refine wp_call_bind hallowed fun _ _ _ g₃ _ => ?_
  exact post_other _ nofun nofun

/-- **The loop of a cached parse.** -/
theorem wp_parseLoop {l : Loop} (h : InLoop op t l g) :
    (protocol E).wp (InLoop op t) (Post E op t) (parseLoop E l) g := by
  obtain ⟨hparse, hbegan⟩ := h
  obtain ⟨options, hop, -⟩ := id hparse
  refine wp_call_bind trivial fun _ _ epoch g₁ hmove₁ => ?_
  refine wp_call_bind (hparse.proper epoch) fun _ _ id g₂ hmove₂ => ?_
  obtain ⟨l', hstarted, hproper, hkey⟩ := hmove₂.told
  refine wp_call_bind trivial fun t₃ s₃ result g₃ hmove₃ => ?_
  have hbegan₂ : g₂.began = t := hmove₂.began.trans (hmove₁.began.trans hbegan)
  rcases result with _ | f | c
  · exact post_error hop _
  · cases f with
    | other => exact post_error hop _
    | context =>
      refine wp_call_bind trivial fun _ _ ended g₄ hmove₄ => ?_
      cases ended with
      | true => exact post_error hop _
      | false =>
        refine wp_call_bind trivial fun _ _ _ g₅ hmove₅ => ?_
        refine ⟨hparse, ?_⟩
        exact hmove₅.began.trans (hmove₄.began.trans (hmove₃.began.trans hbegan₂))
  · -- The flight was started for the same token and options.
    obtain ⟨hcfg, htoken⟩ : l.cfg = l'.cfg ∧ l.token = l'.token :=
      hproper.eq_of_key hsha (hparse.proper (E := E) epoch).clock hkey.symm
    refine hparse.post ?_ fun hstale => ?_
    · rw [hcfg, htoken]
      exact (hmove₃.told l' hstarted).mono hmove₃.after
    · have hfresh := hmove₃.stale.symm.trans hstale
      rw [Bool.or_eq_false_iff] at hfresh
      have hnot := of_decide_eq_false hfresh.2
      omega

end Calls

end Bluetape.Jwt
