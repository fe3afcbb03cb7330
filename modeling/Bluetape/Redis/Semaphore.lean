import Bluetape.Go
import Bluetape.Library.Run
import Bluetape.Library.SortedSet

/-!
# The Redis semaphore

A semaphore is a sorted set: the members are the owner tokens of the leases, and the score of one is
the millisecond in which its lease ends. `acquireScript` first removes the members whose lease has
ended, then counts, and adds a member if there is a permit left; `releaseScript` removes one member.
Both run atomically, at a time of the server that never goes back. The clients may have different
options, so each execution comes with its own permits and its own time to live.

Nothing in the set says which leases are live, and members whose lease has ended stay until the next
acquisition. The leases are therefore read off the history: `lease` is the end of the last lease of
a token that was granted and not released. **The members whose score is ahead are the leases that
are live** (`Agrees`); so the count that decides is the number of live leases, and that number is
never more than the permits of who was admitted last, or the number before (`never_over_admits`). No
live lease is lost (`release_finds`).
-/

namespace Bluetape.Semaphore

open Go Lts Option SortedSet

/-- Options that `normalize` accepts. -/
structure Options where
  permits : ℕ
  permits_pos : 0 < permits
  ttl : ℤ
  millisecond_le_ttl : millisecond ≤ ttl

/-- In milliseconds. -/
def Options.ttlMillis (o : Options) : ℤ := o.ttl / millisecond

/-- The milliseconds of `TIME`, which answers seconds and microseconds. -/
def nowMillis (t : ℤ) : ℤ := t / 1000000 * 1000 + t % 1000000 / 1000

theorem nowMillis_mono {t t' : ℤ} (h : t ≤ t') : nowMillis t ≤ nowMillis t' := by
  unfold nowMillis
  omega

variable {α : Type} [DecidableEq α]

/-- `acquireScript`: whether a permit was left, and the set. -/
def acquireScript (s : SortedSet α) (t : ℤ) (o : Options) (owner : α) : Bool × SortedSet α :=
  let live := s.removeUpTo (nowMillis t)
  if o.permits ≤ live.card then (false, live)
  else (true, live.add (nowMillis t + o.ttlMillis) owner)

/-- `releaseScript`: whether there was the member, and the set. -/
def releaseScript (s : SortedSet α) (owner : α) : Bool × SortedSet α :=
  ((s.score owner).isSome, s.remove owner)

/-! ### Executions -/

/-- The set, and the time. -/
structure Sys (α : Type) where
  now : ℤ
  set : SortedSet α

/-- No leases. -/
def Sys.new (now : ℤ) : Sys α := ⟨now, .empty⟩

/-- The scripts. -/
inductive Label (α : Type) where
  | acquire (t : ℤ) (o : Options) (owner : α)
  | release (t : ℤ) (owner : α)

/-- The permits of the caller. -/
def Label.permits : Label α → ℕ
  | .acquire _ o _ => o.permits
  | .release _ _ => 0

/-- **One script.** -/
def step (y : Sys α) : Label α → Option (Sys α)
  | .acquire t o owner =>
    if y.now ≤ t then some ⟨t, (acquireScript y.set t o owner).2⟩ else none
  | .release t owner =>
    if y.now ≤ t then some ⟨t, (releaseScript y.set owner).2⟩ else none

/-- A step. -/
abbrev Ev (α : Type) : Type := Event (Sys α) (Label α)

/-- The end of the lease of a token: of the last one that was granted, if it was not released
since. -/
def lease : List (Ev α) → α → Option ℤ
  | [], _ => none
  | ⟨y, .acquire t o owner, _⟩ :: h, a =>
    if owner = a ∧ (acquireScript y.set t o owner).1 = true then some (nowMillis t + o.ttlMillis)
    else lease h a
  | ⟨_, .release _ owner, _⟩ :: h, a => if owner = a then none else lease h a

/-- **The token has a live lease**: granted, not released, and not past its end. -/
def Live (h : List (Ev α)) (t : ℤ) (a : α) : Prop := ∃ x, lease h a = some x ∧ nowMillis t < x

/-! ### The set and the leases -/

/-- **The members whose score is ahead are the live leases**, and no member is not a lease. -/
structure Agrees (h : List (Ev α)) (y : Sys α) : Prop where
  lease_of_score : ∀ a x, y.set.score a = some x → lease h a = some x
  score_of_lease : ∀ a x, lease h a = some x → nowMillis y.now < x → y.set.score a = some x

theorem agrees_new (now : ℤ) : Agrees [] (Sys.new now : Sys α) where
  lease_of_score _ _ h := nomatch h
  score_of_lease _ _ h := nomatch h

section Steps

variable {h : List (Ev α)} {y : Sys α} {t : ℤ} {o : Options} {owner : α}

/-- What is left when the leases that have ended are removed are the live ones. -/
theorem Agrees.score_live (hA : Agrees h y) (ht : y.now ≤ t) {a : α} {x : ℤ} :
    (y.set.removeUpTo (nowMillis t)).score a = some x ↔ lease h a = some x ∧ nowMillis t < x := by
  rw [score_removeUpTo]
  constructor
  · rintro ⟨hscore, hlt⟩
    exact ⟨hA.lease_of_score a x hscore, hlt⟩
  · rintro ⟨hlease, hlt⟩
    exact ⟨hA.score_of_lease a x hlease ((nowMillis_mono ht).trans_lt hlt), hlt⟩

/-- **An acquisition is refused exactly when there are as many live leases as permits.** -/
theorem Agrees.refused_iff (hA : Agrees h y) (ht : y.now ≤ t) :
    (acquireScript y.set t o owner).1 = false ↔
      ∃ S : Finset α, o.permits ≤ S.card ∧ ∀ a ∈ S, Live h t a := by
  have hcard : (acquireScript y.set t o owner).1 = false ↔
      o.permits ≤ (y.set.removeUpTo (nowMillis t)).card := by
    rw [acquireScript]
    split_ifs with hfull
    · exact ⟨fun _ => hfull, fun _ => rfl⟩
    · exact ⟨fun hfalse => hfalse.elim, fun hle => absurd hle hfull⟩
  rw [hcard]
  constructor
  · intro hfull
    obtain ⟨S, hS, hmem⟩ := exists_finset_card (y.set.removeUpTo (nowMillis t))
    refine ⟨S, hS ▸ hfull, fun a ha => ?_⟩
    obtain ⟨x, hx⟩ := hmem a ha
    exact ⟨x, (hA.score_live ht).mp hx⟩
  · rintro ⟨S, hle, hlive⟩
    refine hle.trans (finset_card_le fun a ha => ?_)
    obtain ⟨x, hx⟩ := hlive a ha
    exact (hA.score_live ht).mpr hx ▸ some_ne_none x

theorem Agrees.acquire (hA : Agrees h y) (ht : y.now ≤ t) :
    Agrees (⟨y, .acquire t o owner, ⟨t, (acquireScript y.set t o owner).2⟩⟩ :: h)
      ⟨t, (acquireScript y.set t o owner).2⟩ := by
  by_cases hfull : o.permits ≤ (y.set.removeUpTo (nowMillis t)).card
  · have hrefused : acquireScript y.set t o owner =
        (false, y.set.removeUpTo (nowMillis t)) := if_pos hfull
    have hsame : ∀ a,
        lease (⟨y, .acquire t o owner, ⟨t, (acquireScript y.set t o owner).2⟩⟩ :: h) a =
        lease h a := by
      intro a
      rw [lease, hrefused]
      exact if_neg fun hand => Bool.false_ne_true hand.2
    refine ⟨fun a x hscore => ?_, fun a x hlease hlt => ?_⟩
    · rw [hrefused] at hscore
      exact (hsame a).trans ((hA.score_live ht).mp hscore).1
    · rw [hsame] at hlease
      rw [hrefused]
      exact (hA.score_live ht).mpr ⟨hlease, hlt⟩
  · have hgranted : acquireScript y.set t o owner = (true,
        (y.set.removeUpTo (nowMillis t)).add (nowMillis t + o.ttlMillis) owner) := if_neg hfull
    have hlease' : ∀ a, lease (⟨y, .acquire t o owner, ⟨t, (acquireScript y.set t o owner).2⟩⟩ ::
        h) a = if owner = a then some (nowMillis t + o.ttlMillis) else lease h a := by
      intro a
      rw [lease, hgranted]
      by_cases howner : owner = a
      · rw [if_pos howner, if_pos ⟨howner, rfl⟩]
      · rw [if_neg howner, if_neg fun hand => howner hand.1]
    refine ⟨fun a x hscore => ?_, fun a x hlease hlt => ?_⟩
    · rw [hgranted] at hscore
      rw [hlease']
      rcases score_of_add hscore with ⟨rfl, rfl⟩ | ⟨hne, hold⟩
      · exact if_pos rfl
      · rw [if_neg hne.symm]
        exact ((hA.score_live ht).mp hold).1
    · rw [hlease'] at hlease
      rw [hgranted]
      by_cases howner : owner = a
      · subst howner
        rw [if_pos rfl] at hlease
        rw [← hlease]
        exact score_add_self
      · rw [if_neg howner] at hlease
        rw [score_add_of_ne (Ne.symm howner)]
        exact (hA.score_live ht).mpr ⟨hlease, hlt⟩

theorem Agrees.release (hA : Agrees h y) (ht : y.now ≤ t) :
    Agrees (⟨y, .release t owner, ⟨t, (releaseScript y.set owner).2⟩⟩ :: h)
      ⟨t, (releaseScript y.set owner).2⟩ := by
  refine ⟨fun a x hscore => ?_, fun a x hlease hlt => ?_⟩
  · obtain ⟨hne, hold⟩ := score_of_remove hscore
    rw [lease, if_neg hne.symm]
    exact hA.lease_of_score a x hold
  · obtain ⟨hne, hlease⟩ := ite_none_left_eq_some.mp hlease
    change (y.set.remove owner).score a = some x
    rw [score_remove_of_ne (Ne.symm hne)]
    exact hA.score_of_lease a x hlease ((nowMillis_mono ht).trans_lt hlt)

theorem Agrees.step {l : Label α} {y' : Sys α} (hA : Agrees h y) (hs : step y l = some y') :
    Agrees (⟨y, l, y'⟩ :: h) y' := by
  cases l with
  | acquire t o owner =>
    obtain ⟨ht, ⟨⟩⟩ := ite_none_right_eq_some.mp hs
    exact hA.acquire ht
  | release t owner =>
    obtain ⟨ht, ⟨⟩⟩ := ite_none_right_eq_some.mp hs
    exact hA.release ht

theorem card_le_of_step {l : Label α} {y' : Sys α} {P : ℕ} (hle : y.set.card ≤ P)
    (hs : Semaphore.step y l = some y')
    (hP : l.permits ≤ P) : y'.set.card ≤ P := by
  cases l with
  | acquire t o owner =>
    obtain ⟨-, ⟨⟩⟩ := ite_none_right_eq_some.mp hs
    rw [acquireScript]
    split_ifs with hfull
    · exact card_removeUpTo_le.trans hle
    · have hpermits : o.permits ≤ P := hP
      have hadd : ((y.set.removeUpTo (nowMillis t)).add (nowMillis t + o.ttlMillis) owner).card ≤
        (y.set.removeUpTo (nowMillis t)).card + 1 := card_add_le
      dsimp only
      omega
  | release t owner =>
    obtain ⟨-, ⟨⟩⟩ := ite_none_right_eq_some.mp hs
    exact card_remove_le.trans hle

end Steps

/-- **The semaphore never admits too many.** At any moment there are at most as many live leases as
the largest number of permits anybody has; an acquisition is refused exactly when there are as many
live leases as its own permits; and a release leaves the members of other tokens alone. -/
theorem never_over_admits {now : ℤ} {h : List (Ev α)} {y : Sys α} (hr : Run step (.new now) h y) :
    (∀ P, (∀ ev ∈ h, ev.label.permits ≤ P) →
      ∀ t, y.now ≤ t → ∀ S : Finset α, (∀ a ∈ S, Live h t a) → S.card ≤ P) ∧
    Always (fun older ev => ∀ t o owner, ev.label = .acquire t o owner →
      ((acquireScript ev.before.set t o owner).1 = false ↔
        ∃ S : Finset α, o.permits ≤ S.card ∧ ∀ a ∈ S, Live older t a)) h ∧
    ∀ ev ∈ h, ∀ t owner, ev.label = .release t owner →
      ev.after.set.score owner = none ∧
        ∀ a, a ≠ owner → ev.after.set.score a = ev.before.set.score a := by
  have hagrees : Agrees h y := by
    induction hr with
    | nil => exact agrees_new now
    | snoc _ hs ih => exact ih.step hs
  refine ⟨fun P hP t ht S hS => ?_, ?_, ?_⟩
  · have hcard : y.set.card ≤ P := by
      exact hr.invariant_of_mem (P := fun y => y.set.card ≤ P) hP (Nat.zero_le _)
        fun _ _ _ hle hs hc => card_le_of_step hle hs hc
    refine le_trans (finset_card_le fun a ha => ?_) hcard
    obtain ⟨x, hlease, hlt⟩ := hS a ha
    exact hagrees.score_of_lease a x hlease ((nowMillis_mono ht).trans_lt hlt) ▸ some_ne_none x
  · refine hr.always (I := Agrees) (agrees_new now) (fun _ _ _ _ hA hs => hA.step hs) ?_
    rintro older y₁ l y₂ hA hs t o owner rfl
    obtain ⟨ht, -⟩ := ite_none_right_eq_some.mp hs
    exact hA.refused_iff ht
  · refine hr.forall_mem (I := fun _ => True) trivial (fun _ _ _ _ _ => trivial) ?_
    rintro y₁ l y₂ - hs t owner rfl
    obtain ⟨-, ⟨⟩⟩ := ite_none_right_eq_some.mp hs
    exact ⟨score_remove_self, fun a hne => score_remove_of_ne hne⟩

theorem millisecond_le_ten : millisecond ≤ 10 * millisecond := by decide

/-- Leases of ten milliseconds. -/
def withPermits (n : ℕ) : Options :=
  ⟨n + 1, Nat.succ_pos n, 10 * millisecond, millisecond_le_ten⟩

/-- A client with two permits takes both, one with a single permit is refused, and when the first
lease has ended a third is granted. -/
theorem never_over_admits_two :
    ∃ h y, Run (step (α := ℕ)) (.new 0) h y ∧ y.set.card = 2 ∧
      ∀ S : Finset ℕ, (∀ a ∈ S, Live h 12000 a) → S.card ≤ 2 := by
  obtain ⟨h, y, hr, hcard, hnow, hpermits⟩ := exists_run (step (α := ℕ)) (.new 0)
    [.acquire 0 (withPermits 1) 0, .acquire 5000 (withPermits 1) 1, .acquire 6000 (withPermits 0) 2,
      .acquire 11000 (withPermits 1) 3]
    (fun h y => y.set.card = 2 ∧ y.now ≤ 12000 ∧ ∀ ev ∈ h, ev.label.permits ≤ 2)
    (by decide +kernel)
  exact ⟨h, y, hr, hcard, (never_over_admits hr).1 2 hpermits 12000 hnow⟩

/-- **No live lease is lost.** A release finds a member as long as the lease of its token is live,
whatever the others have done; and what it finds was granted and not released since, but it may
have ended. -/
theorem release_finds {now : ℤ} {h : List (Ev α)} {y : Sys α} (hr : Run step (.new now) h y) :
    Always (fun older ev => ∀ t owner, ev.label = .release t owner →
      (Live older t owner → (releaseScript ev.before.set owner).1 = true) ∧
      ((releaseScript ev.before.set owner).1 = true → ∃ x, lease older owner = some x)) h := by
  refine hr.always (I := Agrees) (agrees_new now) (fun _ _ _ _ hA hs => hA.step hs) ?_
  rintro older y₁ l y₂ hA hs t owner rfl
  obtain ⟨ht, -⟩ := ite_none_right_eq_some.mp hs
  refine ⟨?_, fun hfound => ?_⟩
  · rintro ⟨x, hlease, hlt⟩
    have hscore := hA.score_of_lease owner x hlease ((nowMillis_mono ht).trans_lt hlt)
    exact isSome_iff_exists.mpr ⟨x, hscore⟩
  · obtain ⟨x, hscore⟩ := isSome_iff_exists.mp hfound
    exact ⟨x, hA.lease_of_score owner x hscore⟩

/-- The permit is taken, another client is refused, and the lease can still be released. -/
theorem release_finds_contended :
    ∃ h y, Run (step (α := ℕ)) (.new 0) h y ∧ Live h 9000 0 ∧ (releaseScript y.set 0).1 = true := by
  obtain ⟨h, y, hr, hnow, hlease⟩ := exists_run (step (α := ℕ)) (.new 0)
    [.acquire 0 (withPermits 0) 0, .acquire 2000 (withPermits 0) 1]
    (fun h y => y.now ≤ 9000 ∧ lease h 0 = some 10) (by decide +kernel)
  have hlive : Live h 9000 0 := ⟨10, hlease, by decide⟩
  have hs : step y (.release 9000 0) = some ⟨9000, y.set.remove 0⟩ := if_pos hnow
  exact ⟨h, y, hr, hlive, (release_finds (hr.snoc hs) h _ List.suffix_rfl 9000 0 rfl).1 hlive⟩

end Bluetape.Semaphore
