import Bluetape.Leader.Options
import Bluetape.Library.Expiry
import Bluetape.Library.Run
import Bluetape.Library.SortedSet
import Mathlib.Data.Fintype.Basic

/-!
# The scripts of a Redis group elector

The slots of a group are the members of one sorted set, each with the server time at which
it expires as its score. `groupAcquireScript` drops the expired members and adds one if
there is room, `groupRenewScript` gives a member a new score, `groupReleaseScript` removes
it and `groupStatusScript` counts. The sorted set is a key, and the key has an expiry of its
own, which acquiring and renewing set to five seconds after the *caller's* lease.

That expiry belongs to all slots, and it is set as if there were only one. With leases that differ
by more than five seconds a short lease takes the key, and with it a slot that has long to live: the
scripts then grant slots beyond `MaxLeaders`. The number of slots held is within `MaxLeaders` in
every run **exactly** if one of these holds (`bounded_iff`):

* there is room for one leader only, so that no second lease is ever there;
* no lease is longer than another by more than the five seconds (`Group.LeasesClose`);
* there are no more electors than slots.

A lease below a millisecond is no lease for the scripts, so electors are counted only if
theirs is longer. Whether a key is gone at its deadline or after it is left open
(`Expiry`); the two readings differ by one millisecond.
-/

namespace Bluetape.Leader.Slots

open Lts Function SortedSet Finset

/-! ### The group and its sorted set -/

/-- **The electors of one group**: they agree on the key and on `MaxLeaders`; the rest of
their options may differ. -/
structure Group (ι : Type) where
  options : ι → AcceptedGroup
  key : String
  maxLeaders : ℕ
  key_eq : ∀ i, (options i).key = key
  maxLeaders_eq : ∀ i, (options i).options.maxLeaders = maxLeaders

def Group.ttl {ι : Type} (g : Group ι) (i : ι) : ℤ := (g.options i).ttlMillis

theorem Group.ttl_nonneg {ι : Type} (g : Group ι) (i : ι) : 0 ≤ g.ttl i :=
  (g.options i).ttlMillis_nonneg

def keyGrace : ℤ := 5000

structure Sys (ι : Type) where
  /-- The sorted set; it is without members when the key is not there. -/
  slots : SortedSet ι
  expireAt : ℤ
  clock : ℤ
  /-- The expiry of the slot that a script last granted an elector or renewed for it, unless
  it was released since. -/
  granted : ι → Option ℤ

def Sys.init (ι : Type) : Sys ι := ⟨empty, 0, 0, fun _ => none⟩

/-- The elector holds, at time `t`, an unexpired slot that it has not released. -/
def Sys.holds {ι : Type} (y : Sys ι) (i : ι) (t : ℤ) : Bool :=
  (y.granted i).any fun expiry => decide (t < expiry)

variable {t : ℤ}

theorem Sys.holds_iff {ι : Type} {y : Sys ι} {i : ι} :
    y.holds i t = true ↔ ∃ expiry, y.granted i = some expiry ∧ t < expiry := by
  rw [Sys.holds]
  cases y.granted i <;> simp

/-- **The slots held are at most `MaxLeaders`**, from now on. -/
def Bounded {ι : Type} (g : Group ι) (y : Sys ι) : Prop :=
  ∀ t, y.clock ≤ t → ∀ S : Finset ι, (∀ i ∈ S, y.holds i t = true) → S.card ≤ g.maxLeaders

variable {ι : Type} [DecidableEq ι] (g : Group ι) (x : Expiry)

/-! ### The scripts -/

def Sys.found (y : Sys ι) (t : ℤ) : SortedSet ι :=
  if x.Gone y.expireAt t then empty else y.slots

/-- The sorted set once its expired members are dropped, as all scripts but the release
begin. -/
def Sys.cleaned (y : Sys ι) (t : ℤ) : SortedSet ι := (y.found x t).removeRange 0 t

/-- The slot is added or gets a new score, and the key its expiry. -/
def Sys.grant (y : Sys ι) (i : ι) (t : ℤ) : Sys ι where
  slots := (y.cleaned x t).add (t + g.ttl i) i
  expireAt := t + g.ttl i + keyGrace
  clock := t
  granted := update y.granted i (some (t + g.ttl i))

/-- `groupAcquireScript`. -/
def acquireScript (y : Sys ι) (i : ι) (t : ℤ) : Sys ι :=
  if (y.cleaned x t).card < g.maxLeaders then y.grant g x i t
  else { y with slots := y.cleaned x t, clock := t }

/-- `groupRenewScript`. -/
def renewScript (y : Sys ι) (i : ι) (t : ℤ) : Sys ι :=
  if (y.cleaned x t).score i ≠ none then y.grant g x i t
  else { y with slots := y.cleaned x t, clock := t }

/-- `groupReleaseScript`. -/
def releaseScript (y : Sys ι) (i : ι) (t : ℤ) : Sys ι :=
  { y with
    slots := (y.found x t).remove i
    clock := t
    granted := update y.granted i none }

/-- `groupStatusScript`, which also returns the count. -/
def statusScript (y : Sys ι) (t : ℤ) : Sys ι × ℕ :=
  ({ y with slots := y.cleaned x t, clock := t }, (y.cleaned x t).card)

inductive Script (ι : Type) where
  | acquire (i : ι)
  | renew (i : ι)
  | release (i : ι)
  | status

/-- **One script at a server time**, which does not decrease. -/
def step (y : Sys ι) (a : Script ι × ℤ) : Option (Sys ι) :=
  if a.2 < y.clock then none
  else
    match a.1 with
    | .acquire i => some (acquireScript g x y i a.2)
    | .renew i => some (renewScript g x y i a.2)
    | .release i => some (releaseScript x y i a.2)
    | .status => some (statusScript x y a.2).1

/-! ### What a script does -/

variable {g x}

/-- **What a script does**: it grants a slot, to a member or because there is room; it drops
the expired members; or it releases one. -/
inductive Move (g : Group ι) (x : Expiry) (y : Sys ι) (t : ℤ) : Sys ι → Prop
  | grant {i : ι} : (y.cleaned x t).card < g.maxLeaders ∨ (y.cleaned x t).score i ≠ none →
      Move g x y t (y.grant g x i t)
  | clean : Move g x y t { y with slots := y.cleaned x t, clock := t }
  | release {i : ι} : Move g x y t (releaseScript x y i t)

variable {a : Script ι × ℤ} {y y' : Sys ι}

theorem move_of_step (h : step g x y a = some y') : y.clock ≤ a.2 ∧ Move g x y a.2 y' := by
  obtain ⟨script, t⟩ := a
  unfold step at h
  split_ifs at h with hclock
  refine ⟨not_lt.mp hclock, ?_⟩
  cases script with
  | acquire i =>
    cases h
    simp only [acquireScript]
    split_ifs with hroom
    · exact .grant (.inl hroom)
    · exact .clean
  | renew i =>
    cases h
    simp only [renewScript]
    split_ifs with hmember
    · exact .grant (.inr hmember)
    · exact .clean
  | release i =>
    cases h
    exact .release
  | status =>
    cases h
    exact .clean

theorem slack_lt_keyGrace : x.slack < keyGrace := by cases x <;> decide

variable {y : Sys ι} {i : ι}

theorem score_of_found {t u : ℤ} (h : (y.found x t).score i = some u) :
    y.slots.score i = some u := score_of_gone h

theorem score_of_cleaned {t u : ℤ} (h : (y.cleaned x t).score i = some u) :
    y.slots.score i = some u :=
  score_of_found (score_eq_some_of_removeRange h).1

omit [DecidableEq ι] in
theorem card_found_le : (y.found x t).card ≤ y.slots.card := by
  rw [Sys.found]
  split_ifs
  · exact Nat.zero_le _
  · exact le_rfl

omit [DecidableEq ι] in
theorem card_cleaned_le : (y.cleaned x t).card ≤ y.slots.card :=
  card_removeRange_le.trans card_found_le

theorem score_of_removed {t u : ℤ} {i j : ι} (h : ((y.found x t).remove i).score j = some u) :
    y.slots.score j = some u :=
  score_of_found (score_of_remove h).2

/-! ### What holds of every run -/

def Recent (g : Group ι) (y : Sys ι) : Prop :=
  ∀ i u, y.granted i = some u → u ≤ y.clock + g.ttl i

theorem recent_step (hrecent : Recent g y) (h : step g x y a = some y') : Recent g y' := by
  obtain ⟨hclock, hmove⟩ := move_of_step h
  intro i u hu
  have hbefore : y.granted i = some u → u ≤ a.2 + g.ttl i := by
    intro hwas
    have hle := hrecent i u hwas
    omega
  cases hmove with
  | grant =>
    rcases update_eq_some hu with ⟨rfl, rfl⟩ | ⟨-, hu'⟩
    · exact le_rfl
    · exact hbefore hu'
  | clean => exact hbefore hu
  | release => exact hbefore (update_none_eq_some hu).2

theorem recent_of_run {h : List (Event (Sys ι) (Script ι × ℤ))}
    (hr : Run (step g x) (.init ι) h y) : Recent g y :=
  hr.invariant nofun
    fun _ _ _ hrecent hstep => recent_step hrecent hstep

/-! ### Leases that are close -/

/-- No lease exceeds another by more than what the key's expiry does. -/
def Group.LeasesClose (g : Group ι) (x : Expiry) : Prop :=
  ∀ i j, g.ttl i ≤ g.ttl j + keyGrace + x.slack

/-- **What holds while no key takes a live slot with it.** -/
structure Inv (g : Group ι) (x : Expiry) (y : Sys ι) : Prop where
  covered : ∀ i u, y.granted i = some u → u ≤ y.clock ∨ y.slots.score i = some u
  kept : ∀ i u, y.slots.score i = some u → u ≤ y.expireAt + x.slack
  recent : ∀ i u, y.slots.score i = some u → u ≤ y.clock + g.ttl i
  card_le : y.slots.card ≤ g.maxLeaders

theorem inv_init : Inv g x (.init ι) where
  covered := nofun
  kept := nofun
  recent := nofun
  card_le := Nat.zero_le _

/-- **A live slot survives the loss of the key**: the key goes after its slots. -/
theorem Inv.covered_found (hinv : Inv g x y) {t u : ℤ} (hclock : y.clock ≤ t)
    (hu : y.granted i = some u) : u ≤ t ∨ (y.found x t).score i = some u := by
  rcases hinv.covered i u hu with hpast | hscore
  · exact .inl (hpast.trans hclock)
  · rw [Sys.found]
    split_ifs with hgone
    · exact .inl ((hinv.kept i u hscore).trans hgone)
    · exact .inr hscore

theorem Inv.covered_cleaned (hinv : Inv g x y) {t u : ℤ} (hclock : y.clock ≤ t)
    (hu : y.granted i = some u) : u ≤ t ∨ (y.cleaned x t).score i = some u := by
  by_cases hpast : u ≤ t
  · exact .inl hpast
  · have hfound := (hinv.covered_found hclock hu).resolve_left hpast
    exact .inr (score_removeRange_of_lt hfound (not_le.mp hpast))

theorem Inv.clean (hinv : Inv g x y) (hclock : y.clock ≤ t) :
    Inv g x { y with slots := y.cleaned x t, clock := t } where
  covered := fun _ _ hu => hinv.covered_cleaned hclock hu
  kept := fun i u hu => hinv.kept i u (score_of_cleaned hu)
  recent := fun i u hu => by
    have hle := hinv.recent i u (score_of_cleaned hu)
    have hle' : u ≤ t + g.ttl i := by omega
    exact hle'
  card_le := card_cleaned_le.trans hinv.card_le

theorem Inv.release (hinv : Inv g x y) (hclock : y.clock ≤ t) :
    Inv g x (releaseScript x y i t) where
  covered := fun j u hu => by
    obtain ⟨hji, hu'⟩ := update_none_eq_some hu
    change u ≤ t ∨ ((y.found x t).remove i).score j = some u
    rw [score_remove_of_ne hji]
    exact hinv.covered_found hclock hu'
  kept := fun j u hu => hinv.kept j u (score_of_removed hu)
  recent := fun j u hu => by
    have hle := hinv.recent j u (score_of_removed hu)
    have hle' : u ≤ t + g.ttl j := by omega
    exact hle'
  card_le := card_remove_le.trans (card_found_le.trans hinv.card_le)

theorem two_le_card {z : SortedSet ι} {i j : ι} (hij : j ≠ i) (hi : z.score i ≠ none)
    (hj : z.score j ≠ none) : 2 ≤ z.card := by
  rw [← card_pair hij]
  refine finset_card_le fun k hk => ?_
  rcases mem_insert.mp hk with rfl | hk
  · exact hj
  · rwa [mem_singleton.mp hk]

/-- **Granting a slot keeps the invariant** if there is one slot only, or if leases are
close: the new expiry of the key is then late enough for every member. -/
theorem Inv.grant (hinv : Inv g x y) (hsafe : g.maxLeaders ≤ 1 ∨ g.LeasesClose x)
    (hclock : y.clock ≤ t)
    (hpre : (y.cleaned x t).card < g.maxLeaders ∨ (y.cleaned x t).score i ≠ none) :
    Inv g x (y.grant g x i t) where
  covered := fun j u hu => by
    change u ≤ t ∨ ((y.cleaned x t).add (t + g.ttl i) i).score j = some u
    rcases update_eq_some hu with ⟨rfl, rfl⟩ | ⟨hji, hu'⟩
    · exact .inr score_add_self
    · rw [score_add_of_ne hji]
      exact hinv.covered_cleaned hclock hu'
  kept := fun j u hu => by
    change u ≤ t + g.ttl i + keyGrace + x.slack
    have hgrace := slack_lt_keyGrace (x := x)
    have hslack := x.slack_nonneg
    rcases score_of_add hu with ⟨-, rfl⟩ | ⟨hji, hu'⟩
    · omega
    · rcases hsafe with hone | hclose
      · -- a second member: then there was no room, and the first one is not alone
        have hj : (y.cleaned x t).score j ≠ none := by simp [hu']
        have hle := (card_cleaned_le (x := x) (t := t)).trans hinv.card_le
        rcases hpre with hroom | hi
        · have hcard := finset_card_le (S := {j}) (s := y.cleaned x t) (by simpa using hj)
          rw [card_singleton] at hcard
          omega
        · have hcard := two_le_card hji hi hj
          omega
      · have hrecent := hinv.recent j u (score_of_cleaned hu')
        have hlease := hclose j i
        omega
  recent := fun j u hu => by
    change u ≤ t + g.ttl j
    rcases score_of_add hu with ⟨rfl, rfl⟩ | ⟨-, hu'⟩
    · exact le_rfl
    · have hrecent := hinv.recent j u (score_of_cleaned hu')
      omega
  card_le := by
    rcases hpre with hroom | hi
    · exact card_add_le.trans hroom
    · obtain ⟨u, hu⟩ := Option.ne_none_iff_exists'.mp hi
      exact (card_add_of_score hu).trans (card_cleaned_le.trans hinv.card_le)

theorem inv_step (hsafe : g.maxLeaders ≤ 1 ∨ g.LeasesClose x) (hinv : Inv g x y)
    (h : step g x y a = some y') : Inv g x y' := by
  obtain ⟨hclock, hmove⟩ := move_of_step h
  cases hmove with
  | grant hpre => exact hinv.grant hsafe hclock hpre
  | clean => exact hinv.clean hclock
  | release => exact hinv.release hclock

theorem Inv.bounded (hinv : Inv g x y) : Bounded g y := by
  intro t ht S hS
  refine (finset_card_le fun i hi => ?_).trans hinv.card_le
  obtain ⟨u, hu, hlt⟩ := Sys.holds_iff.mp (hS i hi)
  rcases hinv.covered i u hu with hpast | hscore
  · omega
  · simp [hscore]

omit [DecidableEq ι] in
theorem ttl_pos_of_holds (hrecent : Recent g y) (ht : y.clock ≤ t) (hholds : y.holds i t = true) :
    0 < g.ttl i := by
  obtain ⟨u, hu, hlt⟩ := Sys.holds_iff.mp hholds
  have hle := hrecent i u hu
  omega

/-! ### Leases that are not -/

/-- While there is room, an acquisition is granted; the others keep what they have. -/
theorem step_acquire (hclock : y.clock ≤ t) (hroom : (y.cleaned x t).card < g.maxLeaders) :
    step g x y (.acquire i, t) = some (y.grant g x i t) := by
  simp only [step]
  rw [if_neg (not_lt.mpr hclock), acquireScript, if_pos hroom]

theorem card_cleaned_grant_le : ((y.grant g x i t).cleaned x t).card ≤ (y.cleaned x t).card + 1 :=
  card_cleaned_le.trans card_add_le

/-- **As many electors as there is room for** can acquire one after the other. -/
theorem exists_run_acquire {l : List ι} {k : ℕ} {h : List (Event (Sys ι) (Script ι × ℤ))}
    (hr : Run (step g x) (.init ι) h y) (hclock : y.clock ≤ t)
    (hcard : (y.cleaned x t).card ≤ k) (hroom : k + l.length ≤ g.maxLeaders) :
    ∃ h' y', Run (step g x) (.init ι) h' y' ∧ y'.clock ≤ t ∧
      (∀ i ∈ l, y'.granted i = some (t + g.ttl i)) ∧ ∀ i ∉ l, y'.granted i = y.granted i := by
  -- each acquisition leaves one slot less
  induction l generalizing k h y with
  | nil => exact ⟨h, y, hr, hclock, nofun, fun _ _ => rfl⟩
  | cons i l ih =>
    rw [List.length_cons] at hroom
    have hstep := step_acquire (g := g) (i := i) hclock (lt_of_le_of_lt hcard (by omega))
    obtain ⟨h', y', hr', hclock', hgot, hkept⟩ := ih (k := k + 1) (hr.snoc hstep) le_rfl
      (card_cleaned_grant_le.trans (Nat.add_le_add_right hcard 1)) (by omega)
    refine ⟨h', y', hr', hclock', fun j hj => ?_, fun j hj => ?_⟩
    · by_cases hjl : j ∈ l
      · exact hgot j hjl
      · obtain rfl := (List.mem_cons.mp hj).resolve_right hjl
        rw [hkept j hjl]
        exact update_self _ _ _
    · obtain ⟨hji, hjl⟩ := not_or.mp (mt List.mem_cons.mpr hj)
      rw [hkept j hjl]
      exact update_of_ne hji _ _

/-- **A short lease takes a long one's slot with it**: when the key expires, the slot is
still held and the sorted set has no member. -/
theorem exists_run_lost (hmax : 2 ≤ g.maxLeaders) {a j : ι}
    (hlong : g.ttl j + keyGrace + x.slack < g.ttl a) :
    ∃ h y, Run (step g x) (.init ι) h y ∧ y.clock ≤ g.ttl j + keyGrace + x.slack ∧
      y.cleaned x (g.ttl j + keyGrace + x.slack) = empty ∧
      y.granted a = some (g.ttl a) := by
  have hj := g.ttl_nonneg j
  have hgrace := slack_lt_keyGrace (x := x)
  have hslack := x.slack_nonneg
  have haj : a ≠ j := by
    rintro rfl
    omega
  have hfirst : ((Sys.init ι).cleaned x 0).card = 0 := Nat.le_zero.mp card_cleaned_le
  have hone := Run.nil.snoc (step_acquire (g := g) (x := x) (y := .init ι) (i := a)
    (t := 0) le_rfl (by omega))
  have htwo := hone.snoc (step_acquire (i := j) (t := 0) le_rfl
    (lt_of_le_of_lt card_cleaned_grant_le (by omega)))
  refine ⟨_, _, htwo, ?_, ?_, ?_⟩
  · change (0 : ℤ) ≤ _
    omega
  · rw [Sys.cleaned, Sys.found, if_pos]
    · rfl
    · change 0 + g.ttl j + keyGrace + x.slack ≤ _
      omega
  · change update (update (Sys.init ι).granted a (some (0 + g.ttl a))) j
      (some (0 + g.ttl j)) a = some (g.ttl a)
    rw [update_of_ne haj, update_self, zero_add]

/-- **Leases that are not close exceed the slots**, if there are electors enough. -/
theorem exists_run_not_bounded (hmax : 2 ≤ g.maxLeaders) (hclose : ¬ g.LeasesClose x)
    {S : Finset ι} (hS : ∀ i ∈ S, 0 < g.ttl i) (hcard : g.maxLeaders < S.card) :
    ∃ h y, Run (step g x) (.init ι) h y ∧ ¬ Bounded g y := by
  obtain ⟨a, hclose⟩ := not_forall.mp hclose
  obtain ⟨j, hlong⟩ := not_forall.mp hclose
  obtain ⟨h, y, hr, hclock, hgone, ha⟩ := exists_run_lost hmax (not_le.mp hlong)
  -- the new slots go to electors other than the one that lost its own
  obtain ⟨T, hTS, hTcard⟩ : ∃ T ⊆ S.erase a, T.card = g.maxLeaders := by
    refine exists_subset_card_eq ?_
    have hpred := pred_card_le_card_erase (a := a) (s := S)
    omega
  have haT : a ∉ T := fun hmem => notMem_erase a S (hTS hmem)
  obtain ⟨h', y', hr', hclock', hgot, hkept⟩ := exists_run_acquire (l := T.toList) (k := 0) hr
    hclock (by rw [hgone]; exact le_rfl) (by rw [length_toList]; omega)
  refine ⟨h', y', hr', fun hbounded => ?_⟩
  have hheld := hbounded _ hclock' (insert a T) fun i hi => ?_
  · rw [card_insert_of_notMem haT] at hheld
    omega
  · rcases mem_insert.mp hi with rfl | hiT
    · refine Sys.holds_iff.mpr ⟨g.ttl i, ?_, not_le.mp hlong⟩
      rw [hkept i (by simpa using haT), ha]
    · refine Sys.holds_iff.mpr ⟨_, hgot i (mem_toList.mpr hiT), ?_⟩
      have hpos := hS i (mem_of_mem_erase (hTS hiT))
      omega

/-! ### The two together -/

/-- **The slots held never exceed `MaxLeaders`, in any run, exactly if** there is one slot,
or the leases are close, or the electors that can hold a slot are no more than the slots. -/
theorem bounded_iff (g : Group ι) (x : Expiry) :
    (∀ h y, Run (step g x) (.init ι) h y → Bounded g y) ↔ g.maxLeaders ≤ 1 ∨ g.LeasesClose x ∨
        ∀ S : Finset ι, (∀ i ∈ S, 0 < g.ttl i) → S.card ≤ g.maxLeaders := by
  constructor
  · intro hall
    by_contra hnone
    obtain ⟨hmax, hnone⟩ := not_or.mp hnone
    obtain ⟨hclose, hfew⟩ := not_or.mp hnone
    obtain ⟨S, hfew⟩ := not_forall.mp hfew
    obtain ⟨hS, hcard⟩ := Classical.not_imp.mp hfew
    obtain ⟨h, y, hr, hnot⟩ := exists_run_not_bounded (not_le.mp hmax) hclose hS (not_le.mp hcard)
    exact hnot (hall h y hr)
  · intro hcond h y hr
    rcases or_assoc.mpr hcond with hsafe | hfew
    · exact (hr.invariant inv_init fun _ _ _ hinv hstep => inv_step hsafe hinv hstep).bounded
    · intro t ht S hS
      exact hfew S fun i hi => ttl_pos_of_holds (recent_of_run hr) ht (hS i hi)

/-! ### Three electors for two slots -/

/-- Options of one group with two slots and a lease of `seconds`. -/
def twoSlots (seconds : ℤ) : GroupOptions :=
  ⟨⟨"reports", "worker", seconds * Go.second, Go.second, defaultGroupKeyPrefix⟩, 2⟩

/-- A lease of a minute, one of a second, and another of a second. -/
def threeLeases : Fin 3 → GroupOptions
  | 0 => twoSlots 60
  | _ => twoSlots 1

theorem normalize_threeLeases : ∀ i, (threeLeases i).normalize = .ok (threeLeases i) := by
  decide +kernel

def threeElectors : Group (Fin 3) where
  options := fun i => ⟨threeLeases i, threeLeases i, normalize_threeLeases i⟩
  key := "bluetape:leader-group:reports"
  maxLeaders := 2
  key_eq := by decide +kernel
  maxLeaders_eq := by decide +kernel

/-- **A slot too many.** The first two electors acquire at once, the second with the short
lease; the key expires after six seconds, when the first still has most of its minute; the
other two then find no one there. -/
theorem short_lease_exceeds_slots :
    ∃ h y, Run (step threeElectors .afterDeadline) (.init (Fin 3)) h y ∧
      ¬ Bounded threeElectors y := by
  obtain ⟨h, y, hr, hclock, hholds⟩ := exists_run (step threeElectors .afterDeadline)
    (.init (Fin 3)) [(.acquire 0, 0), (.acquire 1, 0), (.acquire 1, 6001), (.acquire 2, 6001)]
    (fun _ y => y.clock ≤ 6001 ∧ ∀ i ∈ (univ : Finset (Fin 3)),
      y.holds i 6001 = true) (by decide +kernel)
  refine ⟨h, y, hr, fun hbounded => ?_⟩
  exact nomatch hbounded 6001 hclock univ hholds

end Bluetape.Leader.Slots
