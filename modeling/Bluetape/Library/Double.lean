import Mathlib.Data.Int.Log
import Mathlib.Data.Rat.Floor
import Mathlib.Tactic.Linarith
import Mathlib.Tactic.NormNum
import Mathlib.Tactic.Ring

/-!
# Numbers of double precision

The result of an operation on numbers of double precision is the exact one, rounded to the nearest
number that has 53 binary digits, and to the even one of two (`Double.nearest`). The range of the
exponent plays no part: no number that is rounded here comes near its ends.

Three facts are enough, and that rounding is monotone is not among them.

* It does not step over a whole number below `2 ^ 53` (`Double.le_nearest`, `Double.nearest_le`), so
  these are rounded to themselves (`Double.nearest_intCast`).
* It keeps the sign of a whole number (`Double.nearest_pos_iff`).
* The quotient of two of them, **rounded down after it has been rounded**, is the quotient of the
  integers (`Double.floor_nearest_div`): the error is smaller than the distance to the next whole
  number.
-/

namespace Double

/-- The distance of the numbers of double precision around a positive one. -/
def ulp (q : ℚ) : ℚ := 2 ^ (Int.log 2 q - 52)

/-- The nearest whole number, and the even one of two. -/
def roundEven (q : ℚ) : ℤ :=
  if q - ⌊q⌋ < 1 / 2 ∨ (q - ⌊q⌋ = 1 / 2 ∧ ⌊q⌋ % 2 = 0) then ⌊q⌋ else ⌊q⌋ + 1

/-- **The nearest number of double precision**, and the even one of two. -/
def nearest (q : ℚ) : ℚ := if q = 0 then 0 else roundEven (q / ulp |q|) * ulp |q|

/-! ### Rounding to a whole number -/

theorem le_roundEven {k : ℤ} {q : ℚ} (h : (k : ℚ) ≤ q) : k ≤ roundEven q := by
  have hfloor : k ≤ ⌊q⌋ := Int.le_floor.mpr h
  unfold roundEven
  split <;> omega

theorem roundEven_le {k : ℤ} {q : ℚ} (h : q ≤ k) : roundEven q ≤ k := by
  unfold roundEven
  split
  · exact Int.cast_le.mp ((Int.floor_le q).trans h)
  · next hup =>
    -- a number that is rounded up is no whole number
    have hlt : (⌊q⌋ : ℚ) < k := by
      refine lt_of_lt_of_le ?_ h
      by_contra hge
      exact hup (.inl (by linarith))
    exact Int.add_one_le_of_lt (Int.cast_lt.mp hlt)

theorem roundEven_le_add (q : ℚ) : (roundEven q : ℚ) ≤ q + 1 / 2 := by
  unfold roundEven
  split
  · linarith [Int.floor_le q]
  · next hup =>
    have hhalf : 1 / 2 ≤ q - ⌊q⌋ := not_lt.mp fun hlt => hup (.inl hlt)
    push_cast
    linarith

/-! ### Rounding a positive number -/

section Positive

variable {q : ℚ}

theorem ulp_pos (q : ℚ) : 0 < ulp q := zpow_pos (by norm_num) _

variable (h : 0 < q)
include h

theorem nearest_of_pos : nearest q = roundEven (q / ulp q) * ulp q := by
  rw [nearest, if_neg h.ne', abs_of_pos h]

/-- The distance is small, compared with the number. -/
theorem ulp_mul_le : ulp q * 2 ^ 52 ≤ q := by
  have hpow : (2 : ℚ) ^ (52 : ℤ) = 2 ^ 52 := by norm_num
  rw [ulp, zpow_sub₀ (by norm_num), hpow, div_mul_cancel₀ _ (by norm_num)]
  exact Int.zpow_log_le_self one_lt_two h

/-- Whole numbers are among the numbers of double precision around one below `2 ^ 53`. -/
theorem exists_eq_mul_ulp (hlt : q < 2 ^ 53) (k : ℤ) : ∃ m : ℤ, (k : ℚ) = m * ulp q := by
  have hlog : Int.log 2 q < 53 := (Int.lt_zpow_iff_log_lt one_lt_two h).mp (by exact_mod_cast hlt)
  refine ⟨k * 2 ^ (52 - Int.log 2 q).toNat, ?_⟩
  push_cast
  rw [ulp, mul_assoc, ← zpow_natCast, Int.toNat_of_nonneg (by omega), ← zpow_add₀ (by norm_num),
    sub_add_sub_cancel, sub_self, zpow_zero, mul_one]

/-- **Rounding does not step over a whole number from above.** -/
theorem le_nearest {k : ℤ} (hk : k < 2 ^ 53) (hle : (k : ℚ) ≤ q) : (k : ℚ) ≤ nearest q := by
  rw [nearest_of_pos h]
  by_cases hlt : q < 2 ^ 53
  · obtain ⟨m, hm⟩ := exists_eq_mul_ulp h hlt k
    rw [hm] at hle ⊢
    have hround : m ≤ roundEven (q / ulp q) := le_roundEven ((le_div_iff₀ (ulp_pos q)).mpr hle)
    exact mul_le_mul_of_nonneg_right (Int.cast_le.mpr hround) (ulp_pos q).le
  · -- the power of two below the number is no smaller
    have hlog : 53 ≤ Int.log 2 q :=
      (Int.zpow_le_iff_le_log one_lt_two h).mp (by exact_mod_cast not_lt.mp hlt)
    have hulp : (2 : ℚ) ^ (1 : ℤ) ≤ ulp q := zpow_le_zpow_right₀ (by norm_num) (by omega)
    have hround : (2 ^ 52 : ℤ) ≤ roundEven (q / ulp q) := by
      refine le_roundEven ((le_div_iff₀ (ulp_pos q)).mpr ?_)
      push_cast
      linarith [ulp_mul_le h]
    have hround' : (2 ^ 52 : ℚ) ≤ roundEven (q / ulp q) := by exact_mod_cast hround
    calc (k : ℚ) ≤ 2 ^ 53 := by exact_mod_cast hk.le
      _ = 2 ^ 52 * 2 ^ (1 : ℤ) := by norm_num
      _ ≤ roundEven (q / ulp q) * ulp q :=
        mul_le_mul hround' hulp (by norm_num) (le_trans (by norm_num) hround')

/-- **Rounding does not step over a whole number from below.** -/
theorem nearest_le {k : ℤ} (hk : k < 2 ^ 53) (hle : q ≤ k) : nearest q ≤ k := by
  have hlt : q < 2 ^ 53 := lt_of_le_of_lt hle (by exact_mod_cast hk)
  obtain ⟨m, hm⟩ := exists_eq_mul_ulp h hlt k
  rw [nearest_of_pos h, hm]
  rw [hm] at hle
  have hround : roundEven (q / ulp q) ≤ m := roundEven_le ((div_le_iff₀ (ulp_pos q)).mpr hle)
  exact mul_le_mul_of_nonneg_right (Int.cast_le.mpr hround) (ulp_pos q).le

/-- The error of rounding, compared with the number. -/
theorem nearest_le_add : nearest q ≤ q + q / 2 ^ 53 := by
  have hround := mul_le_mul_of_nonneg_right (roundEven_le_add (q / ulp q)) (ulp_pos q).le
  rw [add_mul, div_mul_cancel₀ _ (ulp_pos q).ne', ← nearest_of_pos h] at hround
  linarith [ulp_mul_le h]

end Positive

/-! ### Whole numbers -/

theorem nearest_zero : nearest 0 = 0 := if_pos rfl

theorem nearest_intCast {n : ℤ} (hn : 0 ≤ n) (hlt : n < 2 ^ 53) : nearest n = n := by
  rcases hn.eq_or_lt with rfl | hpos
  · exact nearest_zero
  · have hpos' : (0 : ℚ) < n := Int.cast_pos.mpr hpos
    exact le_antisymm (nearest_le hpos' hlt le_rfl) (le_nearest hpos' hlt le_rfl)

/-- **Rounding keeps the sign** of a whole number. -/
theorem nearest_pos_iff {n : ℤ} : 0 < nearest n ↔ 0 < n := by
  constructor
  · contrapose!
    intro hn
    rcases hn.eq_or_lt with rfl | hneg
    · exact nearest_zero.le
    · have hneg' : (n : ℚ) < 0 := Int.cast_lt_zero.mpr hneg
      rw [nearest, if_neg hneg'.ne]
      have hround : roundEven (n / ulp |(n : ℚ)|) ≤ 0 := roundEven_le (by
        push_cast
        exact div_nonpos_of_nonpos_of_nonneg hneg'.le (ulp_pos _).le)
      exact mul_nonpos_of_nonpos_of_nonneg (by exact_mod_cast hround) (ulp_pos _).le
  · intro hn
    have hone := le_nearest (k := 1) (Int.cast_pos.mpr hn) (by norm_num) (by exact_mod_cast hn)
    push_cast at hone
    linarith

/-- **A quotient that is rounded down after it has been rounded** is the quotient of the
integers. -/
theorem floor_nearest_div {n d : ℤ} (hn : 0 ≤ n) (hlt : n < 2 ^ 53) (hd : 0 < d) :
    ⌊nearest (n / d)⌋ = n / d := by
  rcases hn.eq_or_lt with rfl | hpos
  · simp [nearest_zero]
  · have hd' : (0 : ℚ) < d := Int.cast_pos.mpr hd
    have hq : (0 : ℚ) < n / d := div_pos (Int.cast_pos.mpr hpos) hd'
    have hdm := Int.mul_ediv_add_emod n d
    have hmod := Int.emod_lt_of_pos n hd
    rw [Int.floor_eq_iff]
    constructor
    · refine le_nearest hq ((Int.ediv_le_self _ hn).trans_lt hlt) ?_
      rw [le_div_iff₀ hd']
      exact_mod_cast Int.ediv_mul_le n hd.ne'
    · -- the next whole number is farther away than the error
      have hsmall : (n : ℚ) / d / 2 ^ 53 < 1 / d := by
        rw [div_div, mul_comm (d : ℚ), ← div_div]
        refine div_lt_div_of_pos_right ?_ hd'
        rw [div_lt_one (by norm_num)]
        exact_mod_cast hlt
      have hnext : (n : ℚ) / d + 1 / d ≤ (n / d : ℤ) + 1 := by
        rw [← add_div, div_le_iff₀ hd']
        have hle : n + 1 ≤ (n / d + 1) * d := by linarith
        exact_mod_cast hle
      linarith [nearest_le_add hq]

end Double
