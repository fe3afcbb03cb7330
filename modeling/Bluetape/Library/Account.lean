import Mathlib.Algebra.BigOperators.Group.List.Basic
import Mathlib.Tactic.Linarith
import Mathlib.Tactic.Ring

/-!
# Accounts that refill at a bounded rate

An account holds at most `cap`, refills by at most `rate` per unit of time, and
hands out **grants**. What it has handed out is a list of times and amounts, newest
first, and all that is known of the account itself is a sequence of levels that fits
this list: a **ledger** (`Account.Ledger`). A refused request is a grant of zero.

A ledger does not say *how* the account refills. It asks that a level together with
the grant before it does not exceed the cap, nor the previous level plus what the time
in between may have added. So it covers an account that rounds its refill down, one
that caps it, and one that is dropped and opened afresh at the cap – provided that by
then the old one would have been full.

* `Account.Ledger.grantedIn_le`: within any interval of time from `a` to `b` the grants
  add up to at most `cap + rate * (b - a)`.
* `Account.Ledger.total_le`: so do all grants together, from a time before the first to
  the time of the last.

Times and amounts are elements of one ordered ring.
-/

namespace Account

variable {R : Type} [CommRing R] [LinearOrder R]

/-- The grants, with their times, whose time lies between `a` and `b`, added up. -/
def grantedIn (a b : R) (grants : List (R × R)) : R :=
  ((grants.filter fun g => decide (a ≤ g.1) && decide (g.1 ≤ b)).map Prod.snd).sum

theorem grantedIn_nil (a b : R) : grantedIn a b ([] : List (R × R)) = 0 := rfl

theorem grantedIn_cons_of_mem {a b t g : R} {grants : List (R × R)} (ha : a ≤ t) (hb : t ≤ b) :
    grantedIn a b ((t, g) :: grants) = g + grantedIn a b grants := by
  simp [grantedIn, ha, hb]

theorem grantedIn_cons_of_lt {a b t g : R} {grants : List (R × R)} (h : t < a ∨ b < t) :
    grantedIn a b ((t, g) :: grants) = grantedIn a b grants := by
  have hno : ¬(a ≤ t ∧ t ≤ b) := by
    rintro ⟨ha, hb⟩
    rcases h with h | h
    · exact absurd h (not_lt.mpr ha)
    · exact absurd h (not_lt.mpr hb)
  simp [grantedIn, hno]

/-- **A ledger**: grants, newest first, that an account of this cap and rate can have
handed out, with the time of the newest and the level it left. -/
inductive Ledger (cap rate : R) : List (R × R) → R → R → Prop
  | opened {t level granted : R} : 0 ≤ level → level + granted ≤ cap →
      Ledger cap rate [(t, granted)] t level
  | grant {grants : List (R × R)} {t level t' level' granted : R} :
      Ledger cap rate grants t level → t ≤ t' → 0 ≤ level' → level' + granted ≤ cap →
      level' + granted ≤ level + rate * (t' - t) →
      Ledger cap rate ((t', granted) :: grants) t' level'

namespace Ledger

variable [IsStrictOrderedRing R] {cap rate a b : R} {grants : List (R × R)} {t level : R}

omit [IsStrictOrderedRing R] in
theorem level_nonneg (hl : Ledger cap rate grants t level) : 0 ≤ level := by
  cases hl with
  | opened h _ | grant _ _ h _ _ => exact h

omit [IsStrictOrderedRing R] in
/-- Before the interval nothing is counted. -/
theorem grantedIn_eq_zero (hl : Ledger cap rate grants t level) (hta : t < a) :
    grantedIn a b grants = 0 := by
  induction hl with
  | opened _ _ => rw [grantedIn_cons_of_lt (.inl hta), grantedIn_nil]
  | grant _ htt' _ _ _ ih =>
    rw [grantedIn_cons_of_lt (.inl hta), ih (lt_of_le_of_lt htt' hta)]

/-- **Inside the interval**, what has been granted and what is left fit into the cap and
the refill since the interval began. -/
theorem grantedIn_add_level_le (hrate : 0 ≤ rate) (hl : Ledger cap rate grants t level)
    (hat : a ≤ t) (htb : t ≤ b) : grantedIn a b grants + level ≤ cap + rate * (t - a) := by
  induction hl with
  | @opened t level granted _ hcap =>
    rw [grantedIn_cons_of_mem hat htb, grantedIn_nil]
    have hnonneg : 0 ≤ rate * (t - a) := mul_nonneg hrate (sub_nonneg.mpr hat)
    linarith
  | @grant grants t level t' level' granted hl htt' _ hcap hrefill ih =>
    rw [grantedIn_cons_of_mem hat htb]
    rcases lt_or_ge t a with hta | hat'
    · -- the first grant of the interval: the account is at most full
      rw [hl.grantedIn_eq_zero hta]
      have hnonneg : 0 ≤ rate * (t' - a) := mul_nonneg hrate (sub_nonneg.mpr hat)
      linarith
    · have hprev := ih hat' (htt'.trans htb)
      linarith

/-- **Within any interval the grants are bounded** by the cap and the refill over the
interval. -/
theorem grantedIn_le (hcap : 0 ≤ cap) (hrate : 0 ≤ rate) (hab : a ≤ b)
    (hl : Ledger cap rate grants t level) : grantedIn a b grants ≤ cap + rate * (b - a) := by
  have hbound : 0 ≤ cap + rate * (b - a) :=
    add_nonneg hcap (mul_nonneg hrate (sub_nonneg.mpr hab))
  have hinside : ∀ {gs : List (R × R)} {u l : R}, Ledger cap rate gs u l → u ≤ b →
      grantedIn a b gs ≤ cap + rate * (b - a) := by
    intro gs u l hl hub
    rcases lt_or_ge u a with hua | hau
    · rw [hl.grantedIn_eq_zero hua]
      exact hbound
    · have hle := hl.grantedIn_add_level_le hrate hau hub
      have hmono : rate * (u - a) ≤ rate * (b - a) :=
        mul_le_mul_of_nonneg_left (by linarith) hrate
      have hnonneg := hl.level_nonneg
      linarith
  induction hl with
  | @opened t level granted h h' =>
    rcases le_or_gt t b with htb | hbt
    · exact hinside (.opened h h') htb
    · rw [grantedIn_cons_of_lt (.inr hbt), grantedIn_nil]
      exact hbound
  | @grant grants t level t' level' granted hl htt' h h' hrefill ih =>
    rcases le_or_gt t' b with htb | hbt
    · exact hinside (.grant hl htt' h h' hrefill) htb
    · rw [grantedIn_cons_of_lt (.inr hbt)]
      exact ih

/-- **All grants together**, with what is left, fit into the cap and the refill since a
time before the first of them. -/
theorem total_le (hrate : 0 ≤ rate) (hl : Ledger cap rate grants t level)
    (hfirst : ∀ g ∈ grants, a ≤ g.1) :
    (grants.map Prod.snd).sum + level ≤ cap + rate * (t - a) := by
  induction hl with
  | @opened t level granted _ hcap =>
    have hat : a ≤ t := hfirst (t, granted) (by simp)
    have hnonneg : 0 ≤ rate * (t - a) := mul_nonneg hrate (sub_nonneg.mpr hat)
    simp only [List.map_cons, List.map_nil, List.sum_cons, List.sum_nil]
    linarith
  | @grant grants t level t' level' granted hl htt' _ hcap hrefill ih =>
    have hprev := ih fun g hg => hfirst g (List.mem_cons_of_mem _ hg)
    simp only [List.map_cons, List.sum_cons]
    linarith

end Ledger

end Account
