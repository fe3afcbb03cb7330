import Bluetape.Library.Run
import Bluetape.RateLimit.Options

/-!
# The token bucket on PostgreSQL

A model of `ratelimit/sql`: the options, the checks of `Allow` and `Cleanup`, and the two
statements they run. `allowQuery` is one upsert. It inserts a bucket that has already paid
for the request, or else refills the bucket it finds, up to the time it has observed or the
time of the last update, whichever is later, and debits the request if that covers it.
`cleanupQuery` deletes buckets whose time of expiry it has observed.

The system (`Sys`) is a table of buckets under any sequence of these statements, each with the time
it has observed: nothing makes the observations follow the order of the statements. With every key
goes what its buckets have granted, which the table itself does not store.

What holds of it in every run is the subject of `Bluetape.RateLimit.SqlAccounting`. Here is
only what ties it to the code around the statements:

* `allow_step`: an `Allow` that returns a result is a step.
* `covers_of_normalize`: what `normalize` demands of the idle time.

Amounts are millionths of a token, times are microseconds.
-/

namespace Bluetape.RateLimit.Sql

open Go

/-! ### Options -/

/-- `Options`. -/
structure Options where
  namespace_ : String
  ratePerSecond : Float64
  burst : ℤ
  idleTTL : ℤ
  maxKeyBytes : ℤ

/-- What the statements are given of the options, all positive: the rate and the burst in
millionths of a token, the idle time in microseconds. -/
@[ext] structure Config where
  rateMicrosPerSecond : ℤ
  burstMicros : ℤ
  idleTTLMicros : ℤ
  rate_pos : 0 < rateMicrosPerSecond
  burst_pos : 0 < burstMicros
  ttl_pos : 0 < idleTTLMicros

instance : DecidableEq Config := fun _ _ => decidable_of_iff _ Config.ext_iff.symm

/-- `options`, which only `normalize` makes. -/
structure Normalized extends Config where
  namespace_ : String
  burst : ℤ
  maxKeyBytes : ℤ
  burstMicros_eq : tokensToMicros burst = .ok burstMicros

/-- In bytes. -/
def defaultMaxKeyBytes : ℤ := 512

/-- In bytes. -/
def maxMaxKeyBytes : ℤ := 1024

/-- In bytes. -/
def maxNamespaceBytes : ℕ := 128

/-- At most the largest duration. -/
def saturatedDouble (value : ℤ) : ℤ := if maxInt64 / 2 < value then maxInt64 else value * 2

/-- In microseconds, rounded up. -/
def durationMicrosCeil (value : ℤ) : Except String ℤ :=
  if value ≤ 0 then .error "duration must be positive"
  else if value.tmod microsecond ≠ 0 then .ok (value.tdiv microsecond + 1)
  else .ok (value.tdiv microsecond)

theorem durationMicrosCeil_spec {value micros : ℤ} (h : durationMicrosCeil value = .ok micros) :
    0 < micros ∧ value ≤ micros * microsecond := by
  unfold durationMicrosCeil at h
  split at h
  · cases h
  · next hpos =>
    have hmod := Int.tmod_eq_emod_of_nonneg (b := microsecond) (not_le.mp hpos).le
    have hdiv := Int.tdiv_eq_ediv_of_nonneg (b := microsecond) (not_le.mp hpos).le
    simp only [microsecond] at hmod hdiv ⊢
    split at h
    · cases h
      simp only [microsecond, hdiv]
      omega
    · next hrem =>
      cases h
      simp only [microsecond, hmod, hdiv] at hrem ⊢
      omega

/-- **`normalize`.** -/
def Options.normalize (o : Options) : Except String Normalized :=
  let ns := if o.namespace_ = "" then "default" else trimSpace o.namespace_
  if ns = "" then .error "namespace must not be blank"
  else if maxNamespaceBytes < ns.utf8ByteSize then .error "namespace exceeds maximum bytes"
  else match positiveRate o.ratePerSecond "rate per second must be positive and finite" with
    | .error e => .error e
    | .ok rate =>
      match hrate : rateToMicros rate with
      | .error e => .error e
      | .ok rateMicros =>
        match hmicros : tokensToMicros o.burst with
        | .error e => .error ("burst: " ++ e)
        | .ok burstMicros =>
          if o.idleTTL < 0 then .error "idle ttl must not be negative"
          else
            let fullRefill := refillDuration o.burst rate
            let idleTTL :=
              if o.idleTTL = 0 then max minDefaultIdleTTL (saturatedDouble fullRefill)
              else o.idleTTL
            let maxKeyBytes := if o.maxKeyBytes = 0 then defaultMaxKeyBytes else o.maxKeyBytes
            if idleTTL < fullRefill then
              .error "idle ttl must be at least one full refill duration"
            else match httl : durationMicrosCeil idleTTL with
              | .error e => .error ("idle ttl: " ++ e)
              | .ok idleTTLMicros =>
                if maxKeyBytes < 1 ∨ maxMaxKeyBytes < maxKeyBytes then
                  .error "max key bytes must be between 1 and 1024"
                else
                  .ok {
                    namespace_ := ns
                    rateMicrosPerSecond := rateMicros
                    burst := o.burst
                    burstMicros := burstMicros
                    idleTTLMicros := idleTTLMicros
                    maxKeyBytes := maxKeyBytes
                    rate_pos := rateToMicros_pos hrate
                    burst_pos := by
                      obtain ⟨hpos, rfl⟩ := tokensToMicros_spec hmicros
                      exact mul_pos hpos (by decide)
                    ttl_pos := (durationMicrosCeil_spec httl).1
                    burstMicros_eq := hmicros }

variable {o : Normalized}

/-- **What `normalize` accepts**: an idle time, given or by default, of at least the refill,
and the rate, the burst and the idle time converted. -/
theorem normalize_spec {options : Options} (h : options.normalize = .ok o) :
    ∃ rate idleTTL, options.ratePerSecond = .finite rate ∧ 0 < rate ∧
      rateToMicros rate = .ok o.rateMicrosPerSecond ∧
      tokensToMicros options.burst = .ok o.burstMicros ∧
      refillDuration options.burst rate ≤ idleTTL ∧
      durationMicrosCeil idleTTL = .ok o.idleTTLMicros := by
  revert h
  fun_cases Options.normalize options <;> rintro ⟨⟩
  next rate hpos _ hrate _ hmicros _ _ idleTTL _ hidle _ httl _ =>
    obtain ⟨hfinite, hpos'⟩ := positiveRate_spec hpos
    exact ⟨rate, idleTTL, hfinite, hpos', hrate, hmicros, not_lt.mp hidle, httl⟩

/-- The idle time refills the burst, at the rate of the statements. -/
def Config.Covers (c : Config) : Prop :=
  c.burstMicros * 1000000 ≤ c.idleTTLMicros * c.rateMicrosPerSecond
  deriving Decidable

/-- **What `normalize` demands of the idle time is that it refills the burst**, if the rate
is not rounded down and the refill takes no longer than the largest duration. -/
theorem covers_of_normalize {options : Options} {rate : ℚ} (h : options.normalize = .ok o)
    (hrate : options.ratePerSecond = .finite rate)
    (hround : rate * tokenScale ≤ o.rateMicrosPerSecond)
    (hfits : (options.burst : ℚ) * second ≤ rate * maxInt64) : o.Covers := by
  obtain ⟨rate', idleTTL, hrate', hpos, -, hburst, hidle, httl⟩ := normalize_spec h
  obtain rfl : rate' = rate := Float64.finite.inj (hrate'.symm.trans hrate)
  obtain ⟨hburst_pos, hburst_eq⟩ := tokensToMicros_spec hburst
  have hrefill := burst_le_rate_mul hburst_pos hpos hfits hidle
  have hceil : (idleTTL : ℚ) ≤ o.idleTTLMicros * microsecond := by
    exact_mod_cast (durationMicrosCeil_spec httl).2
  have httl_nonneg : (0 : ℚ) ≤ o.idleTTLMicros := Int.cast_nonneg o.ttl_pos.le
  have hcover : (o.burstMicros : ℚ) * 1000000 ≤ o.idleTTLMicros * o.rateMicrosPerSecond :=
    calc (o.burstMicros : ℚ) * 1000000 = options.burst * second * 1000 := by
          rw [hburst_eq]
          push_cast [tokenScale, second]
          ring
      _ ≤ rate' * (o.idleTTLMicros * microsecond) * 1000 :=
          mul_le_mul_of_nonneg_right
            (hrefill.trans (mul_le_mul_of_nonneg_left hceil hpos.le)) (by norm_num)
      _ = o.idleTTLMicros * (rate' * tokenScale) := by
          push_cast [microsecond, tokenScale]
          ring
      _ ≤ o.idleTTLMicros * o.rateMicrosPerSecond := mul_le_mul_of_nonneg_left hround httl_nonneg
  exact_mod_cast hcover

/-- A rate that is rounded down may leave less: five quarters of a millionth a second become
one. -/
example : ((Options.mk "" (.finite (5 / 4000000)) 1 (800000 * second) 0).normalize.toOption.map
    fun o => decide o.Covers) = some false := by
  decide +kernel

/-! ### The statements -/

/-- A row of the table. -/
structure Row where
  config : Config
  tokens : ℚ
  lastAllowed : Bool
  updatedAt : ℤ
  expiresAt : ℤ
  deriving DecidableEq

/-- A value of the type `numeric(30, 6)`: rounded to six decimals. -/
def numeric6 (q : ℚ) : ℚ := round (q * 1000000) / 1000000

/-- The tokens at the time observed. -/
def refilled (b : Row) (observed : ℤ) : ℚ :=
  min (b.config.burstMicros : ℚ)
    (b.tokens + max 0 (((max b.updatedAt observed - b.updatedAt : ℤ) : ℚ) / 1000000) *
        b.config.rateMicrosPerSecond)

/-- `allowQuery`, up to the row it returns; it returns none if the row it finds has another
configuration, and then leaves it alone. -/
def allowQuery (c : Config) (requested observed : ℤ) : Option Row → Option Row
  | none =>
    some {
      config := c
      tokens := numeric6 (c.burstMicros - requested)
      lastAllowed := true
      updatedAt := observed
      expiresAt := observed + c.idleTTLMicros }
  | some b =>
    if b.config = c then
      some {
        config := b.config
        tokens :=
          numeric6 (if (requested : ℚ) ≤ refilled b observed then refilled b observed - requested
            else refilled b observed)
        lastAllowed := decide ((requested : ℚ) ≤ refilled b observed)
        updatedAt := max b.updatedAt observed
        expiresAt := max b.updatedAt observed + b.config.idleTTLMicros }
    else none

/-- What `allowQuery` returns of its row. -/
structure Reply where
  allowed : Bool
  remaining : ℤ
  retryMicros : ℤ
  resetMicros : ℤ
  deriving DecidableEq, Repr

/-- The `returning` clause of `allowQuery`. -/
def returning (requested : ℤ) (b : Row) : Reply where
  allowed := b.lastAllowed
  remaining := ⌊b.tokens / 1000000⌋
  retryMicros :=
    if b.lastAllowed then 0
    else min ⌈max 0 (requested - b.tokens) * 1000000 / b.config.rateMicrosPerSecond⌉ maxInt64
  resetMicros :=
    min ⌈(b.config.burstMicros - b.tokens) * 1000000 / b.config.rateMicrosPerSecond⌉ maxInt64

/-- The rows that `cleanupQuery` may delete. -/
def Expired (b : Row) (observed : ℤ) : Prop := b.expiresAt ≤ observed deriving Decidable

/-! ### `Allow` and `Cleanup` -/

/-- In nanoseconds. -/
def microsDuration (value : ℤ) : ℤ :=
  if value ≤ 0 then 0
  else if maxInt64 / microsecond < value then maxInt64
  else value * microsecond

/-- `normalizeKey`. -/
def Normalized.normalizeKey (o : Normalized) (key : String) : Except String String :=
  if trimSpace key = "" then .error "key must not be blank"
  else if o.maxKeyBytes < key.utf8ByteSize then .error "key exceeds maximum bytes"
  else .ok key

/-- The checks of `Allow`: the key, and what is asked for in millionths. -/
def Normalized.checkRequest (o : Normalized) (key : String) (tokens : ℤ) :
    Except String (String × ℤ) :=
  match o.normalizeKey key with
  | .error e => .error e
  | .ok key =>
    if o.burst < tokens then .error "tokens must not exceed burst"
    else match tokensToMicros tokens with
      | .error e => .error e
      | .ok requested => .ok (key, requested)

/-- `Allow`, on the table and with the time it observes: the row it leaves under its key, and
its result. -/
def Normalized.allow (o : Normalized) (table : String → Option Row) (key : String)
    (tokens observed : ℤ) : Except String (Row × Result) :=
  match o.checkRequest key tokens with
  | .error e => .error e
  | .ok (key, requested) =>
    match allowQuery o.toConfig requested observed (table key) with
    | none => .error "sql rate limiter: configuration mismatch"
    | some b =>
      let reply := returning requested b
      .ok (b, {
        allowed := reply.allowed
        requested := tokens
        remaining := reply.remaining
        retryAfter := microsDuration reply.retryMicros
        resetAfter := microsDuration reply.resetMicros })

/-- At most so many at once. -/
def maxCleanupBatch : ℤ := 1000

/-- The check of `Cleanup`. -/
def checkLimit (limit : ℤ) : Except String Unit :=
  if limit < 1 ∨ maxCleanupBatch < limit then
    .error "cleanup limit must be between 1 and 1000"
  else .ok ()

/-- `Allow` works on the key it is given, and asks for a positive amount of at most the
burst. -/
theorem checkRequest_spec {key key' : String} {tokens requested : ℤ}
    (h : o.checkRequest key tokens = .ok (key', requested)) :
    key' = key ∧ 0 < requested ∧ requested ≤ o.burstMicros := by
  revert h
  fun_cases Normalized.checkRequest o key tokens <;> rintro ⟨⟩
  next _ hkey hmicros =>
    obtain ⟨hpos, rfl⟩ := tokensToMicros_spec hmicros
    constructor
    · revert hkey
      fun_cases Normalized.normalizeKey o key <;> rintro ⟨⟩
      rfl
    · rw [(tokensToMicros_spec o.burstMicros_eq).2]
      simp only [tokenScale]
      omega

/-! ### The table under any sequence of statements -/

/-- A key: the row under it, if there is one, and what the table does not store. -/
structure Slot where
  row : Option Row := none
  createdAt : ℤ := 0
  openedAt : ℤ := 0
  /-- What the statements on the present row have granted, with the times of update they have
  left, newest first; a refused request is a grant of nothing. -/
  life : List (ℚ × ℚ) := []
  past : List (ℚ × ℚ) := []
  deriving DecidableEq

/-- The table. -/
abbrev Sys := String → Slot

/-- What the statement has granted. -/
def Row.grant (b : Row) (requested : ℤ) : ℚ × ℚ :=
  ((b.updatedAt : ℚ), if b.lastAllowed then (requested : ℚ) else 0)

/-- A row is inserted. -/
def Slot.insert (s : Slot) (b : Row) (requested : ℤ) : Slot where
  row := some b
  createdAt := b.updatedAt
  openedAt := if s.past = [] then b.updatedAt else s.openedAt
  life := [b.grant requested]
  past := s.past

/-- The row is updated. -/
def Slot.update (s : Slot) (b : Row) (requested : ℤ) : Slot :=
  { s with row := some b, life := b.grant requested :: s.life }

/-- The row is deleted. -/
def Slot.delete (s : Slot) : Slot :=
  { s with row := none, life := [], past := s.life ++ s.past }

/-- `allowQuery` on a key. -/
def Slot.allow (s : Slot) (c : Config) (requested observed : ℤ) : Slot :=
  match allowQuery c requested observed s.row with
  | none => s
  | some b => if s.row = none then s.insert b requested else s.update b requested

/-- The statements, with the times they observe; `deleted` are the keys of the rows that the
cleanup has found and locked. -/
inductive Label where
  | allow (c : Config) (key : String) (requested observed : ℤ)
  | cleanup (limit : ℤ) (deleted : List String) (observed : ℤ)
  deriving DecidableEq

/-- The time it observes. -/
def Label.observed : Label → ℤ
  | .allow _ _ _ observed => observed
  | .cleanup _ _ observed => observed

/-- **One statement.** -/
def step (y : Sys) : Label → Option Sys
  | .allow c key requested observed =>
    if 0 < requested ∧ requested ≤ c.burstMicros then
      some (Function.update y key ((y key).allow c requested observed))
    else none
  | .cleanup limit deleted observed =>
    if checkLimit limit = .ok () ∧ (deleted.length : ℤ) ≤ limit ∧
        ∀ key ∈ deleted, ∃ b ∈ (y key).row, Expired b observed then
      some fun key => if key ∈ deleted then (y key).delete else y key
    else none

/-- A step. -/
abbrev Ev := Lts.Event Sys Label

/-- **The runs of the table**, from the empty one. -/
abbrev Runs (h : List Ev) (y : Sys) : Prop := Lts.Run step (fun _ => {}) h y

/-- **An `Allow` that returns a result is a step**, which leaves the row it has seen. -/
theorem allow_step {y : Sys} {key : String} {tokens observed : ℤ} {b : Row} {result : Result}
    (h : o.allow (fun key => (y key).row) key tokens observed = .ok (b, result)) :
    ∃ requested y', step y (.allow o.toConfig key requested observed) = some y' ∧
      (y' key).row = some b := by
  revert h
  fun_cases Normalized.allow o (fun key => (y key).row) key tokens observed <;> rintro ⟨⟩
  next requested hcheck hquery _ =>
    obtain ⟨rfl, hbounds⟩ := checkRequest_spec hcheck
    refine ⟨requested, _, if_pos hbounds, ?_⟩
    rw [Function.update_self, Slot.allow, hquery]
    dsimp only
    split <;> rfl

end Bluetape.RateLimit.Sql
