import Mathlib.Data.Rat.Floor
import Mathlib.Tactic.Positivity
import Bluetape.Go
import Bluetape.Library.Double

/-!
# What the rate limiters share

The three limiters – in memory, on Redis and on PostgreSQL – check their options with
the same few functions: the time a number of tokens takes to refill, and the
conversion of rates and amounts to millionths of a token. The packages hold copies of
them; here they are stated once.

The one fact everything rests on is `burst_le_rate_mul`: an idle time of at least `refillDuration`
is enough to refill the whole burst – unless the refill takes longer than a duration can express,
where `refillDuration` stops at the largest one. It is a fact about rates for which the quotient and
the product that `refillDuration` takes are exact, and they are read as exact here; the product of
`rateToMicros` is rounded.
-/

namespace Bluetape.RateLimit

open Go

/-- What `Allow` answers. -/
structure Result where
  allowed : Bool
  requested : ℤ
  remaining : ℤ
  retryAfter : ℤ
  resetAfter : ℤ
  deriving DecidableEq, Repr

def minDefaultIdleTTL : ℤ := minute

/-- Millionths of a token in one. -/
def tokenScale : ℤ := 1000000

/-- A `RatePerSecond` that is neither positive nor finite is refused with this
message. -/
def positiveRate (rate : Float64) (message : String) : Except String ℚ :=
  match rate with
  | .finite value => if value ≤ 0 then .error message else .ok value
  | _ => .error message

theorem positiveRate_spec {rate : Float64} {message : String} {value : ℚ}
    (h : positiveRate rate message = .ok value) : rate = .finite value ∧ 0 < value := by
  unfold positiveRate at h
  split at h
  · split at h
    · cases h
    · next hpos =>
      cases h
      exact ⟨rfl, not_le.mp hpos⟩
  · cases h

/-- `durationForTokens`: the time in which this many tokens are refilled, rounded up,
and at most the largest duration. -/
def durationForTokens (tokens ratePerSecond : ℚ) : ℤ :=
  if tokens ≤ 0 ∨ ratePerSecond ≤ 0 then 0
  else if (2 ^ 63 : ℚ) / second ≤ tokens / ratePerSecond then maxInt64
  else min maxInt64 ⌈tokens / ratePerSecond * second⌉

/-- `refillDuration`, the same for a whole number of tokens. -/
def refillDuration (tokens : ℤ) (ratePerSecond : ℚ) : ℤ := durationForTokens tokens ratePerSecond

/-- **An idle time of at least the refill duration refills the burst**, if the refill
takes no longer than the largest duration. -/
theorem burst_le_rate_mul {burst ttl : ℤ} {rate : ℚ} (hburst : 0 < burst) (hrate : 0 < rate)
    (hfits : (burst : ℚ) * second ≤ rate * maxInt64) (httl : refillDuration burst rate ≤ ttl) :
    (burst : ℚ) * second ≤ rate * ttl := by
  have hburst' : ¬((burst : ℚ) ≤ 0 ∨ rate ≤ 0) := by
    rintro (h | h)
    · exact absurd (Int.cast_pos.mpr hburst) (not_lt.mpr h)
    · exact absurd hrate (not_lt.mpr h)
  -- a time to live of the largest duration is enough by hypothesis
  have hmax : maxInt64 ≤ ttl → (burst : ℚ) * second ≤ rate * ttl := by
    intro hle
    have hcast : (maxInt64 : ℚ) ≤ ttl := Int.cast_le.mpr hle
    exact hfits.trans (mul_le_mul_of_nonneg_left hcast hrate.le)
  rw [refillDuration, durationForTokens, if_neg hburst'] at httl
  split at httl
  · exact hmax httl
  · rcases le_total maxInt64 ⌈(burst : ℚ) / rate * second⌉ with hle | hle
    · rw [min_eq_left hle] at httl
      exact hmax httl
    · rw [min_eq_right hle] at httl
      have hceil : (burst : ℚ) / rate * second ≤ ttl := Int.ceil_le.mp httl
      calc (burst : ℚ) * second = rate * (burst / rate * second) := by
            field_simp
        _ ≤ rate * ttl := mul_le_mul_of_nonneg_left hceil hrate.le

/-- `rateToMicros`, for a positive rate: the product is rounded to a `float64`, `math.Round`
rounds it half up, and a result outside the range of an `int64` wraps. -/
def rateToMicros (ratePerSecond : ℚ) : Except String ℤ :=
  if Double.nearest ((2 ^ 63 : ℚ) / tokenScale) < ratePerSecond then
    .error "rate per second is too large"
  else
    let micros := wrap64 ⌊Double.nearest (ratePerSecond * tokenScale) + 1 / 2⌋
    if micros ≤ 0 then .error "rate per second is too small" else .ok micros

theorem rateToMicros_pos {rate : ℚ} {micros : ℤ} (h : rateToMicros rate = .ok micros) :
    0 < micros := by
  unfold rateToMicros at h
  split at h
  · cases h
  · dsimp only at h
    split at h
    · cases h
    · next hpos =>
      cases h
      exact not_le.mp hpos

/-- `tokensToMicros`. -/
def tokensToMicros (tokens : ℤ) : Except String ℤ :=
  if tokens ≤ 0 then .error "tokens must be positive"
  else if maxInt64 / tokenScale < tokens then .error "tokens are too large"
  else .ok (tokens * tokenScale)

theorem tokensToMicros_one : tokensToMicros 1 = .ok 1000000 := by decide

theorem tokenMicros_pos : (0 : ℤ) < 1000000 := by decide

theorem tokensToMicros_spec {tokens micros : ℤ} (h : tokensToMicros tokens = .ok micros) :
    0 < tokens ∧ micros = tokens * tokenScale := by
  unfold tokensToMicros at h
  split at h
  · cases h
  · next hpos =>
    split at h
    · cases h
    · exact ⟨not_le.mp hpos, (Except.ok.inj h).symm⟩

/-- The idle time that is used when the caller leaves it out: twice the refill, in
`int64` arithmetic, and at least a minute. -/
def defaultIdleTTL (fullRefill : ℤ) : ℤ := max minDefaultIdleTTL (wrap64 (fullRefill * 2))

end Bluetape.RateLimit
