import Mathlib.Tactic.Linarith
import Mathlib.Tactic.Ring

/-!
# Amounts that accrue, read in whole units

Over an `elapsed` time an amount of `elapsed * rate / unit` accrues, rounded down. A
counter that is **restarted** at a reading keeps the whole amount and forgets the
fraction, so what has accrued after a restart may fall short of what would have accrued
without it (`Accrual.add_le`). By how much depends on the remainder of the rate: each
unit of time leaves a fraction of `rate % unit`, and these add up to one whole after
the **carry time** (`Accrual.carryTime`).

* `Accrual.restart_eq`: under a cap, a restart loses nothing if there is no remainder, or
  if the cap is reached before the fractions carry.
* `Accrual.restart_lt`: otherwise a restart after one unit of time is noticed, at the
  carry time.
-/

namespace Accrual

variable {unit rate : ℤ}

/-- **Restarting never gains.** -/
theorem add_le (rate : ℤ) (hunit : 0 < unit) (a c : ℤ) :
    a * rate / unit + c * rate / unit ≤ (a + c) * rate / unit := by
  refine Int.le_ediv_of_mul_le hunit ?_
  have ha : a * rate / unit * unit ≤ a * rate := Int.ediv_mul_le _ hunit.ne'
  have hc : c * rate / unit * unit ≤ c * rate := Int.ediv_mul_le _ hunit.ne'
  linarith

/-- What accrues is the whole part of the rate, and what the fractions add up to. -/
theorem eq_add_remainder (hunit : 0 < unit) (e : ℤ) :
    e * rate / unit = e * (rate / unit) + e * (rate % unit) / unit := by
  have hsplit : e * rate = e * (rate % unit) + e * (rate / unit) * unit := by
    have hdiv := Int.emod_add_mul_ediv rate unit
    calc e * rate = e * (rate % unit + unit * (rate / unit)) := by rw [hdiv]
      _ = _ := by ring
  rw [hsplit, Int.add_mul_ediv_right _ _ hunit.ne']
  ring

theorem mul_le (rate : ℤ) (hunit : 0 < unit) {e : ℤ} (he : 0 ≤ e) :
    e * (rate / unit) ≤ e * rate / unit := by
  rw [eq_add_remainder hunit]
  have hrem : 0 ≤ e * (rate % unit) / unit :=
    Int.ediv_nonneg (mul_nonneg he (Int.emod_nonneg _ hunit.ne')) hunit.le
  linarith

/-- As long as the fractions do not carry, only the whole part accrues. -/
theorem eq_mul_of_lt (hunit : 0 < unit) {e : ℤ} (he : 0 ≤ e) (hlt : e * (rate % unit) < unit) :
    e * rate / unit = e * (rate / unit) := by
  rw [eq_add_remainder hunit,
    Int.ediv_eq_zero_of_lt (mul_nonneg he (Int.emod_nonneg _ hunit.ne')) hlt, add_zero]

/-- The time after which the fractions of a rate add up to a whole, rounded up. -/
def carryTime (unit rate : ℤ) : ℤ := -(-unit / (rate % unit))

theorem lt_carryTime_iff (hrem : 0 < rate % unit) {e : ℤ} :
    e < carryTime unit rate ↔ e * (rate % unit) < unit := by
  have h := Int.ediv_lt_iff_lt_mul (a := -unit) (b := -e) hrem
  unfold carryTime
  constructor
  · intro hlt
    have := h.mp (by linarith)
    linarith
  · intro hlt
    have := h.mpr (by linarith)
    linarith

theorem one_lt_carryTime (hunit : 0 < unit) (hrem : 0 < rate % unit) : 1 < carryTime unit rate := by
  rw [lt_carryTime_iff hrem, one_mul]
  exact Int.emod_lt_of_pos rate hunit

/-- **A restart loses nothing that the cap leaves to see** if the rate has no remainder, or the cap
is reached before the carry time. -/
theorem restart_eq {cap level a c : ℤ} (hunit : 0 < unit) (hrate : 0 ≤ rate) (hlevel : 0 ≤ level)
    (ha : 0 ≤ a) (hc : 0 ≤ c)
    (hsteady : unit ∣ rate ∨ cap ≤ carryTime unit rate * (rate / unit)) :
    min cap (level + a * rate / unit + c * rate / unit) =
      min cap (level + (a + c) * rate / unit) := by
  -- while the fractions do not carry, all three amounts are whole multiples
  have hexact : (a + c) * (rate % unit) < unit →
      level + a * rate / unit + c * rate / unit = level + (a + c) * rate / unit := by
    intro hlt
    have hrem := Int.emod_nonneg rate hunit.ne'
    have hac : (a + c) * (rate % unit) = a * (rate % unit) + c * (rate % unit) := by ring
    have hma := mul_nonneg ha hrem
    have hmc := mul_nonneg hc hrem
    rw [eq_mul_of_lt hunit ha (by omega), eq_mul_of_lt hunit hc (by omega),
      eq_mul_of_lt hunit (by omega) hlt]
    ring
  by_cases hdvd : unit ∣ rate
  · rw [hexact (by rwa [Int.emod_eq_zero_of_dvd hdvd, mul_zero])]
  · have hcap := hsteady.resolve_left hdvd
    have hrem : 0 < rate % unit := (Int.emod_pos_of_not_dvd hdvd).resolve_left hunit.ne'
    by_cases hcarry : a + c < carryTime unit rate
    · rw [hexact ((lt_carryTime_iff hrem).mp hcarry)]
    · -- past the carry time the cap is reached either way
      have hfull : cap ≤ level + a * rate / unit + c * rate / unit := by
        have hq : 0 ≤ rate / unit := Int.ediv_nonneg hrate hunit.le
        have htime : carryTime unit rate * (rate / unit) ≤ (a + c) * (rate / unit) :=
          mul_le_mul_of_nonneg_right (not_lt.mp hcarry) hq
        have hma := mul_le rate hunit ha
        have hmc := mul_le rate hunit hc
        linarith
      have hadd := add_le rate hunit a c
      rw [min_eq_left hfull, min_eq_left (by linarith)]

/-- **A restart after one unit of time is noticed at the carry time**: by then one more
would have accrued without it. -/
theorem restart_lt (hunit : 0 < unit) (hrem : 0 < rate % unit) :
    rate / unit + (carryTime unit rate - 1) * rate / unit =
        carryTime unit rate * (rate / unit) ∧
      carryTime unit rate * (rate / unit) < carryTime unit rate * rate / unit := by
  have hone := one_lt_carryTime hunit hrem
  have hbefore : (carryTime unit rate - 1) * (rate % unit) < unit :=
    (lt_carryTime_iff hrem).mp (by omega)
  have hafter : unit ≤ carryTime unit rate * (rate % unit) :=
    not_lt.mp fun h => absurd ((lt_carryTime_iff hrem).mpr h) (lt_irrefl _)
  constructor
  · rw [eq_mul_of_lt hunit (by omega) hbefore]
    ring
  · rw [eq_add_remainder hunit (carryTime unit rate)]
    have hcarry : 1 ≤ carryTime unit rate * (rate % unit) / unit :=
      Int.le_ediv_of_mul_le hunit (by rwa [one_mul])
    linarith

end Accrual
