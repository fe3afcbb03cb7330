import Mathlib.Algebra.Order.Group.Unbundled.Int
import Mathlib.Data.Rat.Defs

/-!
# Go integers, durations and times

The part of Go's arithmetic that the modelled code can observe. Integers are
mathematical integers; where a 64-bit width shows – a product that wraps, a
difference of times that saturates – the operation says so.

A `time.Duration` is a signed number of nanoseconds, and a `time.Time` is a number of nanoseconds
from a fixed origin; both are written `ℤ`. The one operation with a surprise is `time.Time.Sub`,
which clamps its result to the range of a duration (`timeSub`): comparing a difference with a
duration is nevertheless comparing the true difference (`le_timeSub_iff`), because the duration lies
in the range itself.

A `float64` is read as the rational number it denotes, or as one of the values that denote none
(`Float64`), and arithmetic on finite values as exact arithmetic.
-/

namespace Bluetape.Go

/-- `math.MaxInt64`. -/
def maxInt64 : ℤ := 9223372036854775807

/-- `math.MinInt64`. -/
def minInt64 : ℤ := -9223372036854775808

/-- The value an `int64` operation stores: the result modulo `2 ^ 64`, in the
signed range. -/
def wrap64 (n : ℤ) : ℤ := (n - minInt64) % 18446744073709551616 + minInt64

/-- In nanoseconds. -/
def microsecond : ℤ := 1000

/-- In nanoseconds. -/
def millisecond : ℤ := 1000000

/-- In nanoseconds. -/
def second : ℤ := 1000000000

/-- In nanoseconds. -/
def minute : ℤ := 60000000000

/-- `t.Sub(u)`: the difference, clamped to the range of a duration. -/
def timeSub (t u : ℤ) : ℤ := max minInt64 (min maxInt64 (t - u))

theorem le_sub_of_le_timeSub {t u d : ℤ} (hd : 0 ≤ d) (h : d ≤ timeSub t u) : d ≤ t - u := by
  simp only [timeSub, minInt64, maxInt64] at h
  omega

/-- **Comparing a clamped difference with a duration is comparing the true
difference with it.** -/
theorem le_timeSub_iff {t u d : ℤ} (hd : 0 ≤ d) (hmax : d ≤ maxInt64) :
    d ≤ timeSub t u ↔ d ≤ t - u := by
  simp only [timeSub, minInt64, maxInt64] at hmax ⊢
  omega

theorem timeSub_le_of_le {t u : ℤ} (h : u ≤ t) : timeSub t u ≤ t - u := by
  simp only [timeSub, minInt64, maxInt64]
  omega

/-- A `float64`, its finite values read as rational numbers. -/
inductive Float64 where
  | finite (value : ℚ)
  | nan
  | inf (negative : Bool)
  deriving DecidableEq

/-- `unicode.IsSpace`. -/
def isSpace (c : Char) : Bool :=
  [0x09, 0x0A, 0x0B, 0x0C, 0x0D, 0x20, 0x85, 0xA0, 0x1680, 0x2028, 0x2029, 0x202F, 0x205F,
    0x3000].contains c.toNat || (0x2000 ≤ c.toNat && c.toNat ≤ 0x200A)

/-- `strings.TrimSpace`. -/
def trimSpace (s : String) : String :=
  String.ofList ((s.toList.dropWhile isSpace).reverse.dropWhile isSpace).reverse

end Bluetape.Go
