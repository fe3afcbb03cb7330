import Bluetape.Library.Double
import Bluetape.Library.Expiry
import Bluetape.Library.Run
import Bluetape.RateLimit.Options

/-!
# The token bucket on Redis

A model of `ratelimit/redis`: the options, the checks of `Allow`, and `consumeScript`,
which Redis runs as one command. Amounts are millionths of a token, times are those of
the server: the script works in whole milliseconds, and stores the bucket with an
expiry (`PEXPIRE`) that every call pushes back.

A bucket whose deadline has passed is gone, which for the script is the same as a full one. Whether
it is gone *at* its deadline or only after is up to the server; the model carries the choice along
(`Expiry`), and the two cases differ by one millisecond in how long a bucket lives
(`Normalized.lifetime`).

The numbers of the script are of double precision, so every result is rounded (`Double.nearest`);
only times are not, which are far too small for it to show. As long as a thousand times the burst is
below `2 ^ 53` (`Normalized.Precise`) rounding changes nothing (`refilled_some`): a product that is
large enough to be rounded is the refill of more than the burst.

The system (`Sys`) is one bucket under any sequence of calls at server times that do not decrease.
-/

namespace Bluetape.RateLimit.Redis

open Go Double

/-! ### Options -/

/-- `Options`; of the client it matters whether there is one. -/
structure Options where
  client : Bool
  namespace_ : String
  ratePerSecond : Float64
  burst : ℤ
  idleTTL : ℤ
  maxKeyBytes : ℤ

/-- `options`, which only `normalize` makes. -/
@[ext] structure Normalized where
  namespace_ : String
  ratePerSecond : ℚ
  rateMicrosPerSecond : ℤ
  burst : ℤ
  burstMicros : ℤ
  idleTTL : ℤ
  maxKeyBytes : ℤ
  rate_pos : 0 < rateMicrosPerSecond
  burst_pos : 0 < burst
  burstMicros_eq : tokensToMicros burst = .ok burstMicros
  refill_le : refillDuration burst ratePerSecond ≤ idleTTL

instance : DecidableEq Normalized := fun _ _ => decidable_of_iff _ Normalized.ext_iff.symm

def defaultMaxKeyBytes : ℤ := 512

def Options.normalize (o : Options) : Except String Normalized :=
  let ns := if o.namespace_ = "" then "default" else trimSpace o.namespace_
  if o.client = false then .error "redis client must not be nil"
  else if ns = "" then .error "namespace must not be blank"
  else match positiveRate o.ratePerSecond "rate per second must be positive" with
    | .error e => .error e
    | .ok rate =>
      match hrate : rateToMicros rate with
      | .error e => .error e
      | .ok rateMicros =>
        if hburst : o.burst ≤ 0 then .error "burst must be positive"
        else match hmicros : tokensToMicros o.burst with
          | .error e => .error ("burst: " ++ e)
          | .ok burstMicros =>
            if o.idleTTL < 0 then .error "idle ttl must not be negative"
            else
              let fullRefill := refillDuration o.burst rate
              let idleTTL := if o.idleTTL = 0 then defaultIdleTTL fullRefill else o.idleTTL
              let maxKeyBytes :=
                if o.maxKeyBytes = 0 then defaultMaxKeyBytes else o.maxKeyBytes
              if hidle : idleTTL < fullRefill then
                .error "idle ttl must be at least one full refill duration"
              else if maxKeyBytes < 0 then .error "max key bytes must not be negative"
              else
                .ok {
                  namespace_ := ns
                  ratePerSecond := rate
                  rateMicrosPerSecond := rateMicros
                  burst := o.burst
                  burstMicros := burstMicros
                  idleTTL := idleTTL
                  maxKeyBytes := maxKeyBytes
                  rate_pos := rateToMicros_pos hrate
                  burst_pos := not_le.mp hburst
                  burstMicros_eq := hmicros
                  refill_le := not_lt.mp hidle }

/-- A token a second, one at a time, with the default of the idle time. -/
def perSecond : Options where
  client := true
  namespace_ := ""
  ratePerSecond := .finite 1
  burst := 1
  idleTTL := 0
  maxKeyBytes := 0

/-- What `normalize` makes of them. -/
def perSecondNormalized : Normalized where
  namespace_ := "default"
  ratePerSecond := 1
  rateMicrosPerSecond := 1000000
  burst := 1
  burstMicros := 1000000
  idleTTL := minute
  maxKeyBytes := defaultMaxKeyBytes
  rate_pos := tokenMicros_pos
  burst_pos := Int.one_pos
  burstMicros_eq := tokensToMicros_one
  refill_le := by decide +kernel

namespace Normalized

variable (o : Normalized)

/-- `idleTTL.Milliseconds()`, which the script gets as its `ttl`. -/
def ttl : ℤ := o.idleTTL.tdiv millisecond

theorem burstMicros_eq_mul : o.burstMicros = o.burst * tokenScale :=
  (tokensToMicros_spec o.burstMicros_eq).2

theorem burstMicros_pos : 0 < o.burstMicros := by
  rw [burstMicros_eq_mul]
  exact mul_pos o.burst_pos (by decide)

end Normalized

/-! ### The script -/

/-- The hash of a bucket, with the time in milliseconds at which it expires. -/
@[ext] structure Bucket where
  tokens : ℤ
  updatedMs : ℤ
  expireAt : ℤ
  deriving DecidableEq, Repr

/-- The bucket that `HMGET` finds. -/
def live (x : Expiry) (bucket : Option Bucket) (nowMs : ℤ) : Option Bucket :=
  bucket.bind fun b => if x.Gone b.expireAt nowMs then none else some b

/-- What the script returns. -/
structure Reply where
  allowed : Bool
  remaining : ℤ
  retryAfterMs : ℤ
  resetAfterMs : ℤ
  deriving DecidableEq, Repr

/-- `math.ceil(missing * 1000 / rate)`, for a difference that is rounded first. -/
def untilRefilled (missing rate : ℚ) : ℤ := ⌈nearest (nearest (nearest missing * 1000) / rate)⌉

/-- The time of the script, from the seconds and microseconds that `TIME` returns for a
server time in microseconds. -/
def nowMs (time : ℤ) : ℤ := time / 1000000 * 1000 + time % 1000000 / 1000

theorem nowMs_eq (time : ℤ) : nowMs time = time / 1000 := by
  unfold nowMs
  omega

theorem nowMs_mul (now : ℤ) : nowMs (now * 1000) = now := by
  rw [nowMs_eq]
  omega

variable {t : ℤ}

theorem nowMs_mono {t' : ℤ} (h : t ≤ t') : nowMs t ≤ nowMs t' := by
  rw [nowMs_eq, nowMs_eq]
  omega

/-- `tokens` and `updated_ms` after the refill: a bucket that is not there is full. -/
def refilled (burst rate : ℚ) (bucket : Option Bucket) (now : ℤ) : ℚ × ℤ :=
  match bucket with
  | none => (burst, now)
  | some b =>
    let elapsed := max 0 (now - b.updatedMs)
    if 0 < elapsed then
      let refill := ⌊nearest (nearest (elapsed * rate) / 1000)⌋
      (min burst (nearest (b.tokens + refill)), now)
    else (b.tokens, b.updatedMs)

/-- `consumeScript` at a time in milliseconds: the bucket it stores, and its reply. Its
arguments are rounded when `tonumber` reads them. -/
def consumeScript (requested burst rate ttl scale : ℤ) (bucket : Option Bucket) (now : ℤ) :
    Except String (Bucket × Reply) :=
  if nearest requested ≤ 0 ∨ nearest burst ≤ 0 ∨ nearest rate ≤ 0 ∨ nearest ttl ≤ 0 then
    .error "invalid token bucket arguments"
  else
    let (tokens, updatedMs) := refilled (nearest burst) (nearest rate) bucket now
    let allowed := decide (nearest requested ≤ tokens)
    let left := if allowed then nearest (tokens - nearest requested) else tokens
    .ok
      (⟨⌊left⌋, updatedMs, now + ttl⟩,
        { allowed := allowed
          remaining := ⌊nearest (left / nearest scale)⌋
          retryAfterMs :=
            if allowed then 0 else untilRefilled (nearest requested - left) (nearest rate)
          resetAfterMs := untilRefilled (nearest burst - left) (nearest rate) })

/-! ### One bucket under any sequence of calls -/

/-- A decision: when it was taken, what was asked for, whether it was allowed. -/
structure Decision where
  nowMs : ℤ
  requested : ℤ
  allowed : Bool
  deriving DecidableEq, Repr

/-- The stored bucket, the server time in microseconds, and the decisions, newest
first. -/
structure Sys where
  bucket : Option Bucket := none
  clock : ℤ := 0
  decisions : List Decision := []
  deriving DecidableEq, Repr

/-- A call of `Allow` for some tokens, whose script runs at a server time. -/
structure Label where
  tokens : ℤ
  time : ℤ
  deriving DecidableEq, Repr

variable (o : Normalized) (x : Expiry)

/-- The checks of `Allow`: what is asked for, in millionths. -/
def checkRequest (tokens : ℤ) : Except String ℤ :=
  if o.burst < tokens then .error "tokens must not exceed burst" else tokensToMicros tokens

/-- The script, as `Allow` runs it. -/
def consume (bucket : Option Bucket) (requested now : ℤ) : Except String (Bucket × Reply) :=
  consumeScript requested o.burstMicros o.rateMicrosPerSecond o.ttl tokenScale
    (live x bucket now) now

/-- **One call.** The server time does not decrease; a script that refuses its arguments
leaves the bucket alone. -/
def step (y : Sys) (e : Label) : Option Sys :=
  match checkRequest o e.tokens with
  | .error _ => none
  | .ok requested =>
    if e.time < y.clock then none
    else match consume o x y.bucket requested (nowMs e.time) with
      | .error _ => some { y with clock := e.time }
      | .ok (bucket, reply) =>
        some {
          bucket := some bucket
          clock := e.time
          decisions := ⟨nowMs e.time, requested, reply.allowed⟩ :: y.decisions }

abbrev Ev := Lts.Event Sys Label

/-- **The calls of one bucket**, from some state on. -/
abbrev Runs (init : Sys) (h : List Ev) (y : Sys) : Prop := Lts.Run (step o x) init h y

/-- What the refill makes of a bucket, if it does not expire; a whole number. -/
def refill (bucket : Option Bucket) (now : ℤ) : ℤ :=
  ⌊(refilled (nearest o.burstMicros) (nearest o.rateMicrosPerSecond) bucket now).1⌋

/-- The tokens a call would find at a time in milliseconds. -/
def available (bucket : Option Bucket) (now : ℤ) : ℤ := refill o (live x bucket now) now

/-- The time, in milliseconds after its last call, from which a bucket is gone. -/
def Normalized.lifetime : ℤ := o.ttl + x.slack

/-- **The burst is within the precision of the script**: it is below nine million tokens. -/
class Normalized.Precise : Prop where
  lt : 1000 * o.burstMicros < 2 ^ 53

/-! ### What a call does -/

variable {o x}

theorem checkRequest_bounds {tokens requested : ℤ} (h : checkRequest o tokens = .ok requested) :
    0 < requested ∧ requested ≤ o.burstMicros := by
  unfold checkRequest at h
  split at h
  · cases h
  · next hle =>
    obtain ⟨hpos, rfl⟩ := tokensToMicros_spec h
    rw [Normalized.burstMicros_eq_mul]
    simp only [tokenScale]
    omega

theorem checkRequest_burst : checkRequest o o.burst = .ok o.burstMicros := by
  rw [checkRequest, if_neg (lt_irrefl _), o.burstMicros_eq]

/-- Rounding does not make the script refuse or accept an argument. -/
theorem invalid_iff {requested burst rate ttl : ℤ} :
    (nearest requested ≤ 0 ∨ nearest burst ≤ 0 ∨ nearest rate ≤ 0 ∨ nearest ttl ≤ 0) ↔
      (requested ≤ 0 ∨ burst ≤ 0 ∨ rate ≤ 0 ∨ ttl ≤ 0) := by
  simp only [← not_lt, nearest_pos_iff]

theorem lifetime_pos (httl : 0 < o.ttl) : 0 < o.lifetime x := by
  have := x.slack_nonneg
  unfold Normalized.lifetime
  omega

/-- The stored buckets the script leaves behind: within the burst, not ahead of the
clock, and expiring a time to live after their last update. -/
structure Bucket.Ok (o : Normalized) (b : Bucket) (now : ℤ) : Prop where
  nonneg : 0 ≤ b.tokens
  le_burst : b.tokens ≤ o.burstMicros
  updated_le : b.updatedMs ≤ now
  expireAt : b.expireAt = b.updatedMs + o.ttl

variable {now : ℤ} {b : Bucket}

/-- **A bucket is gone from its lifetime on.** -/
theorem live_eq (hok : b.Ok o now) :
    live x (some b) t = if o.lifetime x ≤ t - b.updatedMs then none else some b := by
  have hexp := hok.expireAt
  refine if_congr ?_ rfl rfl
  unfold Expiry.Gone Normalized.lifetime
  omega

variable [hp : o.Precise]

theorem nearest_burstMicros : nearest o.burstMicros = o.burstMicros :=
  nearest_intCast o.burstMicros_pos.le (by have := hp.lt; have := o.burstMicros_pos; omega)

/-- **The refill in double precision** is the one in integers, within the burst. -/
theorem min_nearest_refill {tokens e : ℤ} (hnonneg : 0 ≤ tokens)
    (hle : tokens ≤ o.burstMicros) (he : 0 < e) :
    min (o.burstMicros : ℚ)
        (nearest (tokens + ⌊nearest (nearest (e * nearest o.rateMicrosPerSecond) / 1000)⌋)) =
      (min o.burstMicros (tokens + e * o.rateMicrosPerSecond / 1000) : ℤ) := by
  have hlt := hp.lt
  have hburst := o.burstMicros_pos
  have hrate := o.rate_pos
  by_cases hsmall : e * o.rateMicrosPerSecond < 1000 * o.burstMicros
  · -- nothing is rounded
    have hone : o.rateMicrosPerSecond ≤ e * o.rateMicrosPerSecond :=
      le_mul_of_one_le_left hrate.le he
    have hdiv : ⌊nearest ((e * o.rateMicrosPerSecond : ℤ) / (1000 : ℤ))⌋ =
        e * o.rateMicrosPerSecond / 1000 := floor_nearest_div (by omega) (by omega) (by decide)
    push_cast at hdiv
    rw [nearest_intCast hrate.le (by omega), ← Int.cast_mul, nearest_intCast (by omega) (by omega),
      Int.cast_mul, hdiv, ← Int.cast_add, nearest_intCast (by omega) (by omega), Int.cast_min]
  · -- the bucket is full in either case
    have hfull : o.burstMicros ≤ e * o.rateMicrosPerSecond / 1000 := by omega
    have hrounded : ((1000 * o.burstMicros : ℤ) : ℚ) ≤ e * nearest o.rateMicrosPerSecond := by
      by_cases hfits : o.rateMicrosPerSecond < 2 ^ 53
      · rw [nearest_intCast hrate.le hfits]
        exact_mod_cast not_lt.mp hsmall
      · have hrate' := le_nearest (Int.cast_pos.mpr hrate) hlt
          (Int.cast_le.mpr (by omega : 1000 * o.burstMicros ≤ o.rateMicrosPerSecond))
        exact hrate'.trans (le_mul_of_one_le_left (le_trans (by positivity) hrate')
          (by exact_mod_cast he))
    have hproduct := le_nearest (lt_of_lt_of_le (by positivity) hrounded) hlt hrounded
    have hquotient : (o.burstMicros : ℚ) ≤
        nearest (nearest (e * nearest o.rateMicrosPerSecond) / 1000) := by
      have hle' : (o.burstMicros : ℚ) ≤ nearest (e * nearest o.rateMicrosPerSecond) / 1000 := by
        push_cast at hproduct
        linarith
      exact le_nearest (lt_of_lt_of_le (by positivity) hle') (by omega) hle'
    have hrefill := Int.le_floor.mpr hquotient
    have hsum : (o.burstMicros : ℚ) ≤
        tokens + ⌊nearest (nearest (e * nearest o.rateMicrosPerSecond) / 1000)⌋ := by
      exact_mod_cast (by omega : o.burstMicros ≤ tokens + _)
    rw [min_eq_left (le_nearest (lt_of_lt_of_le (by positivity) hsum) (by omega) hsum),
      min_eq_left (by omega)]

/-- A bucket in order is refilled with what has accrued, rounded down, within the
burst. -/
theorem refilled_some (hok : b.Ok o now) (ht : now ≤ t) :
    (refilled (nearest o.burstMicros) (nearest o.rateMicrosPerSecond) (some b) t).1 =
      (min o.burstMicros (b.tokens + (t - b.updatedMs) * o.rateMicrosPerSecond / 1000) : ℤ) := by
  have hle := hok.updated_le
  have hmax : max 0 (t - b.updatedMs) = t - b.updatedMs := max_eq_right (by omega)
  simp only [refilled, hmax]
  by_cases hpos : 0 < t - b.updatedMs
  · rw [if_pos hpos, nearest_burstMicros]
    exact min_nearest_refill hok.nonneg hok.le_burst hpos
  · have hzero : t - b.updatedMs = 0 := by omega
    rw [if_neg hpos, hzero, zero_mul, Int.zero_ediv, add_zero, min_eq_right hok.le_burst]

theorem refill_some (hok : b.Ok o now) (ht : now ≤ t) :
    refill o (some b) t =
      min o.burstMicros (b.tokens + (t - b.updatedMs) * o.rateMicrosPerSecond / 1000) := by
  rw [refill, refilled_some hok ht, Int.floor_intCast]

theorem refill_none : refill o none t = o.burstMicros := by
  rw [refill, refilled, nearest_burstMicros, Int.floor_intCast]

/-- What a call finds in a bucket, written out: all of it once it is gone, and otherwise
the refill. -/
theorem available_some (hok : b.Ok o now) (ht : now ≤ t) :
    available o x (some b) t =
      if o.lifetime x ≤ t - b.updatedMs then o.burstMicros
      else min o.burstMicros (b.tokens + (t - b.updatedMs) * o.rateMicrosPerSecond / 1000) := by
  rw [available, live_eq hok]
  by_cases hgone : o.lifetime x ≤ t - b.updatedMs
  · rw [if_pos hgone, if_pos hgone, refill_none]
  · rw [if_neg hgone, if_neg hgone, refill_some hok ht]

/-- **A lifetime that covers the burst may be forgotten**: a bucket that is gone would
have been full anyway. -/
theorem available_of_cover (hcover : 1000 * o.burstMicros ≤ o.lifetime x * o.rateMicrosPerSecond)
    (hok : b.Ok o now) (ht : now ≤ t) :
    available o x (some b) t =
      min o.burstMicros (b.tokens + (t - b.updatedMs) * o.rateMicrosPerSecond / 1000) := by
  rw [available_some hok ht]
  split
  · next hgone =>
    have hmul : 1000 * o.burstMicros ≤ (t - b.updatedMs) * o.rateMicrosPerSecond :=
      hcover.trans (mul_le_mul_of_nonneg_right hgone o.rate_pos.le)
    have hnonneg := hok.nonneg
    rw [min_eq_left (by omega)]
  · rfl

def Sys.Ok (o : Normalized) (y : Sys) : Prop := ∀ b, y.bucket = some b → b.Ok o (nowMs y.clock)

variable {bucket : Option Bucket}

theorem available_bounds (hok : ∀ b, bucket = some b → b.Ok o now) (ht : now ≤ t) :
    0 ≤ available o x bucket t ∧ available o x bucket t ≤ o.burstMicros := by
  have hburst := o.burstMicros_pos
  cases bucket with
  | none =>
    have hfull : available o x none t = o.burstMicros := refill_none
    rw [hfull]
    exact ⟨hburst.le, le_rfl⟩
  | some b =>
    have hb := hok b rfl
    rw [available_some hb ht]
    split
    · exact ⟨hburst.le, le_rfl⟩
    · have hrefill : 0 ≤ (t - b.updatedMs) * o.rateMicrosPerSecond / 1000 :=
        Int.ediv_nonneg (mul_nonneg (by linarith [hb.updated_le]) o.rate_pos.le) (by decide)
      exact ⟨le_min hburst.le (add_nonneg hb.nonneg hrefill), min_le_left _ _⟩

variable (o x) in
/-- The bucket that a call leaves behind, at a time in milliseconds. -/
def served (bucket : Option Bucket) (requested now : ℤ) : Bucket :=
  { tokens :=
      if requested ≤ available o x bucket now then available o x bucket now - requested
      else available o x bucket now
    updatedMs := now
    expireAt := now + o.ttl }

variable (o x) in
def Sys.serve (y : Sys) (requested time : ℤ) : Sys :=
  { bucket := some (served o x y.bucket requested (nowMs time))
    clock := time
    decisions :=
      ⟨nowMs time, requested, decide (requested ≤ available o x y.bucket (nowMs time))⟩ ::
        y.decisions }

/-- **What the script finds** are the tokens available, and the present time. -/
theorem refilled_live (hok : ∀ b, bucket = some b → b.Ok o now) (ht : now ≤ t) :
    refilled (nearest o.burstMicros) (nearest o.rateMicrosPerSecond) (live x bucket t) t =
      ((available o x bucket t : ℚ), t) := by
  have hfull : refill o none t = o.burstMicros := refill_none
  cases bucket with
  | none =>
    rw [available]
    exact Prod.ext (hfull ▸ nearest_burstMicros) rfl
  | some b =>
    have hb := hok b rfl
    have hle := hb.updated_le
    rw [available, live_eq hb]
    split
    · exact Prod.ext (hfull ▸ nearest_burstMicros) rfl
    · refine Prod.ext ?_ ?_
      · rw [refilled_some hb ht, refill_some hb ht]
      · dsimp only [refilled]
        split
        · rfl
        · -- the script keeps the old time, which is the present one
          next hzero =>
          omega

/-- **What the script does**, if it accepts its arguments: rounding plays no part. -/
theorem consume_eq {requested : ℤ} (hok : ∀ b, bucket = some b → b.Ok o now) (ht : now ≤ t)
    (httl : 0 < o.ttl) (hpos : 0 < requested) (hle : requested ≤ o.burstMicros) :
    ∃ reply, consume o x bucket requested t = .ok (served o x bucket requested t, reply) ∧
      reply.allowed = decide (requested ≤ available o x bucket t) := by
  have hprecise := hp.lt
  have hargs : ¬(requested ≤ 0 ∨ o.burstMicros ≤ 0 ∨ o.rateMicrosPerSecond ≤ 0 ∨ o.ttl ≤ 0) := by
    have := o.burstMicros_pos
    have := o.rate_pos
    omega
  rw [← invalid_iff] at hargs
  have hround : nearest requested = requested := nearest_intCast hpos.le (by omega)
  rw [consume, consumeScript, if_neg hargs, refilled_live hok ht]
  simp only [hround, Int.cast_le, decide_eq_true_eq, served]
  by_cases hallowed : requested ≤ available o x bucket t
  · have hmax := (available_bounds (x := x) hok ht).2
    have hleft : ⌊nearest ((available o x bucket t : ℚ) - requested)⌋ =
        available o x bucket t - requested := by
      rw [← Int.cast_sub, nearest_intCast (by omega) (by omega), Int.floor_intCast]
    simp only [if_pos hallowed, hleft]
    exact ⟨_, rfl, rfl⟩
  · simp only [if_neg hallowed, Int.floor_intCast]
    exact ⟨_, rfl, rfl⟩

/-- **What a call does**, if the script accepts its arguments. -/
theorem step_eq {y : Sys} {e : Label} {requested : ℤ} (hok : y.Ok o) (httl : 0 < o.ttl)
    (hreq : checkRequest o e.tokens = .ok requested) (htime : y.clock ≤ e.time) :
    step o x y e = some (y.serve o x requested e.time) := by
  obtain ⟨hpos, hle⟩ := checkRequest_bounds hreq
  obtain ⟨reply, hconsume, hallowed⟩ :=
    consume_eq (x := x) hok (nowMs_mono htime) httl hpos hle
  simp only [step, hreq, if_neg (not_lt.mpr htime), hconsume, hallowed]
  rfl

/-- **What a step can do**: nothing but advance the clock, if the script refuses its
arguments, and serve a call otherwise. -/
theorem step_cases {y y' : Sys} {e : Label} (hok : y.Ok o) (h : step o x y e = some y') :
    y.clock ≤ e.time ∧ ∃ requested, checkRequest o e.tokens = .ok requested ∧
      ((o.ttl ≤ 0 ∧ y' = { y with clock := e.time }) ∨
        (0 < o.ttl ∧ y' = y.serve o x requested e.time)) := by
  cases hreq : checkRequest o e.tokens with
  | error err => simp [step, hreq] at h
  | ok requested =>
    by_cases htime : e.time < y.clock
    · simp [step, hreq, htime] at h
    · refine ⟨not_lt.mp htime, requested, rfl, ?_⟩
      by_cases httl : 0 < o.ttl
      · rw [step_eq hok httl hreq (not_lt.mp htime)] at h
        exact .inr ⟨httl, (Option.some.inj h).symm⟩
      · have hargs : requested ≤ 0 ∨ o.burstMicros ≤ 0 ∨ o.rateMicrosPerSecond ≤ 0 ∨ o.ttl ≤ 0 :=
          .inr (.inr (.inr (not_lt.mp httl)))
        rw [← invalid_iff] at hargs
        simp only [step, hreq, if_neg htime, consume, consumeScript, if_pos hargs,
          Option.some.injEq] at h
        exact .inl ⟨not_lt.mp httl, h.symm⟩

theorem served_ok {requested : ℤ} (hok : ∀ b, bucket = some b → b.Ok o now) (ht : now ≤ t)
    (hpos : 0 < requested) : (served o x bucket requested t).Ok o t := by
  obtain ⟨hnonneg, hle⟩ := available_bounds (x := x) hok ht
  refine ⟨?_, ?_, le_rfl, rfl⟩
  · simp only [served]
    split <;> omega
  · simp only [served]
    split <;> omega

/-- **Every step leaves the bucket in order.** -/
theorem ok_step {y y' : Sys} {e : Label} (hok : y.Ok o) (h : step o x y e = some y') : y'.Ok o := by
  obtain ⟨htime, requested, hreq, ⟨-, rfl⟩ | ⟨-, rfl⟩⟩ := step_cases hok h
  · intro b hb
    obtain ⟨hnonneg, hle, hupd, hexp⟩ := hok b hb
    exact ⟨hnonneg, hle, hupd.trans (nowMs_mono htime), hexp⟩
  · intro b hb
    cases hb
    exact served_ok hok (nowMs_mono htime) (checkRequest_bounds hreq).1

end Bluetape.RateLimit.Redis
