import Bluetape.Library.Account
import Bluetape.Library.Run
import Bluetape.RateLimit.Options

/-!
# The token bucket in memory

A model of `ratelimit/token_bucket.go`. A call of `Allow` does two things at two different moments:
it reads the clock, and later it takes the mutex and works on the buckets with the reading it has.
The clock never runs backwards, but nothing makes the calls take the mutex in the order of their
readings, so a step of the system (`step`) is one or the other.

What a bucket must not do is hand out more than its burst and its rate allow. Over the
readings of the clock this fails when a call comes late, with a reading that is older
than one its bucket has already been served or dropped with: `refill` ignores such a
reading, but `lastSeenAt` moves back with it, and the bucket then looks idle for longer
than it was. `pruneIdle` drops it, and the next call finds a full one.

* `grantedIn_le_of_inOrder`: if no call comes late for a key, its grants keep to the burst and the
  rate, prunes included.
* `late_reading_exceeds_burst`: three calls, one of them late, and twice the burst.

Tokens are rational numbers; times are nanoseconds.
-/

namespace Bluetape.RateLimit.Local

open Go Lts Function List

/-! ### Options -/

structure Options where
  ratePerSecond : Float64
  burst : ℤ
  idleTTL : ℤ

/-- `options`, which only `normalize` makes. -/
@[ext] structure Normalized where
  ratePerSecond : ℚ
  burst : ℤ
  idleTTL : ℤ
  rate_pos : 0 < ratePerSecond
  burst_pos : 0 < burst
  refill_le : refillDuration burst ratePerSecond ≤ idleTTL

instance : DecidableEq Normalized := fun _ _ => decidable_of_iff _ Normalized.ext_iff.symm

def Options.normalize (o : Options) : Except String Normalized :=
  match hrate : positiveRate o.ratePerSecond "rate per second must be positive" with
  | .error e => .error e
  | .ok rate =>
    if hburst : o.burst ≤ 0 then .error "burst must be positive"
    else if o.idleTTL < 0 then .error "idle ttl must not be negative"
    else
      let fullRefill := refillDuration o.burst rate
      let idleTTL := if o.idleTTL = 0 then defaultIdleTTL fullRefill else o.idleTTL
      if hidle : idleTTL < fullRefill then
        .error "idle ttl must be at least one full refill duration"
      else
        .ok {
          ratePerSecond := rate
          burst := o.burst
          idleTTL := idleTTL
          rate_pos := (positiveRate_spec hrate).2
          burst_pos := not_le.mp hburst
          refill_le := not_lt.mp hidle }

/-! ### Under the mutex -/

structure BucketState where
  tokens : ℚ
  updatedAt : ℤ
  lastSeenAt : ℤ
  deriving DecidableEq

def wholeTokens (tokens : ℚ) : ℤ :=
  if tokens ≤ 0 then 0 else if (2 ^ 63 : ℚ) ≤ tokens then maxInt64 else ⌊tokens⌋

def durationUntilFull (burst tokens ratePerSecond : ℚ) : ℤ :=
  durationForTokens (max 0 (burst - tokens)) ratePerSecond

abbrev Buckets := String → Option BucketState

variable (o : Normalized)

def refill (state : BucketState) (now : ℤ) : BucketState :=
  let elapsed := timeSub now state.updatedAt
  if elapsed ≤ 0 then state
  else
    { state with
      tokens := min o.burst (state.tokens + (elapsed : ℚ) / second * o.ratePerSecond)
      updatedAt := now }

def pruneIdle (buckets : Buckets) (now : ℤ) : Buckets :=
  if o.idleTTL ≤ 0 then buckets
  else fun key =>
    match buckets key with
    | none => none
    | some state => if o.idleTTL ≤ timeSub now state.lastSeenAt then none else some state

/-- The bucket of a key as a call finds it, after the prune. -/
def found (bucket : Option BucketState) (now : ℤ) : BucketState :=
  match bucket with
  | none => { tokens := o.burst, updatedAt := now, lastSeenAt := now }
  | some state => { refill o state now with lastSeenAt := now }

/-- The decision: the tokens are taken if there are enough. -/
def consume (state : BucketState) (tokens : ℤ) : BucketState × Result :=
  if (tokens : ℚ) ≤ state.tokens then
    let left := state.tokens - tokens
    ({ state with tokens := left },
      { allowed := true
        requested := tokens
        remaining := wholeTokens left
        retryAfter := 0
        resetAfter := durationUntilFull o.burst left o.ratePerSecond })
  else
    (state,
      { allowed := false
        requested := tokens
        remaining := wholeTokens state.tokens
        retryAfter := durationForTokens (tokens - state.tokens) o.ratePerSecond
        resetAfter := durationUntilFull o.burst state.tokens o.ratePerSecond })

/-- The part of `Allow` that runs under the mutex, with the reading `now`. -/
def allowLocked (buckets : Buckets) (key : String) (tokens now : ℤ) : Buckets × Result :=
  let pruned := pruneIdle o buckets now
  let served := consume o (found o (pruned key) now) tokens
  (update pruned key (some served.1), served.2)

/-- The checks of `Allow`, before it reads the clock: the trimmed key. -/
def checkRequest (key : String) (tokens : ℤ) : Except String String :=
  if trimSpace key = "" then .error "key must not be empty"
  else if tokens ≤ 0 then .error "tokens must be positive"
  else if o.burst < tokens then .error "tokens must not exceed burst"
  else .ok (trimSpace key)

theorem checkRequest_pos {key trimmed : String} {tokens : ℤ}
    (h : checkRequest o key tokens = .ok trimmed) : 0 < tokens := by
  unfold checkRequest at h
  split at h
  · cases h
  split at h
  · cases h
  · next hpos => exact not_le.mp hpos

/-! ### Calls, interleaved -/

/-- A call that has passed its checks, has read the clock and waits for the mutex. -/
@[ext] structure Call where
  key : String
  tokens : ℤ
  now : ℤ
  tokens_pos : 0 < tokens
  deriving Repr

instance : DecidableEq Call := fun _ _ => decidable_of_iff _ Call.ext_iff.symm

/-- A call that has been decided: what it asked for, its reading, and the result. -/
structure Decision where
  call : Call
  result : Result
  deriving DecidableEq, Repr

/-- The buckets, the last reading of the clock, the calls in flight, and the decisions
taken so far, newest first. -/
structure Sys where
  buckets : Buckets := fun _ => none
  clock : Option ℤ := none
  calls : ℕ → Option Call := fun _ => none
  decisions : List Decision := []

inductive Label where
  | readClock (id : ℕ) (key : String) (tokens now : ℤ)
  | lock (id : ℕ)
  deriving DecidableEq, Repr

def Sys.serve (y : Sys) (id : ℕ) (c : Call) : Sys :=
  { y with
    buckets := (allowLocked o y.buckets c.key c.tokens c.now).1
    calls := update y.calls id none
    decisions := ⟨c, (allowLocked o y.buckets c.key c.tokens c.now).2⟩ :: y.decisions }

/-- **One step of the system.** The readings of the clock do not decrease. -/
def step (y : Sys) : Label → Option Sys
  | .readClock id key tokens now =>
    match hreq : checkRequest o key tokens, y.calls id with
    | .ok trimmed, none =>
      if y.clock.all (fun t => decide (t ≤ now)) then
        some { y with
          clock := some now
          calls := update y.calls id (some ⟨trimmed, tokens, now, checkRequest_pos o hreq⟩) }
      else none
    | _, _ => none
  | .lock id =>
    match y.calls id with
    | none => none
    | some c => some (y.serve o id c)

abbrev Ev := Event Sys Label

/-- **The runs of a token bucket**, from its creation. -/
abbrev Runs (h : List Ev) (y : Sys) : Prop := Run (step o) {} h y

/-- What a decision grants; a refused call is a grant of nothing. -/
def Decision.granted (d : Decision) : ℚ := if d.result.allowed then (d.call.tokens : ℚ) else 0

/-- What was granted for a key, with the readings, newest first. -/
def Sys.grants (y : Sys) (key : String) : List (ℚ × ℚ) :=
  (y.decisions.filter fun d => d.call.key == key).map fun d => ((d.call.now : ℚ), d.granted)

/-! ### Coming late -/

/-- The reading of the call that an event runs under the mutex. -/
def reading (ev : Ev) : Option ℤ :=
  match ev.label with
  | .readClock _ _ _ _ => none
  | .lock id => (ev.before.calls id).map Call.now

/-- An event **touches** a key with a reading: it serves a call for the key, or it drops
the bucket of the key as idle. -/
def Touches (ev : Ev) (key : String) (now : ℤ) : Prop :=
  ∃ id c, ev.label = .lock id ∧ ev.before.calls id = some c ∧ c.now = now ∧
    (c.key = key ∨ (ev.before.buckets key ≠ none ∧ ev.after.buckets key = none))

/-- **No late call for a key**: a call for the key that is served has a reading at least
as new as every reading the key was touched with before. -/
def InOrder (key : String) (older : List Ev) (ev : Ev) : Prop :=
  ∀ id c, ev.label = .lock id → ev.before.calls id = some c → c.key = key →
    ∀ ev' ∈ older, ∀ now, Touches ev' key now → now ≤ c.now

variable {h : List Ev}

/-- **No key is late** if the calls take the mutex in the order of their readings. -/
theorem inOrder_of_sorted (hsorted : (h.filterMap reading).Pairwise (· ≥ ·)) (key : String) :
    Always (InOrder key) h := by
  induction h with
  | nil => exact always_nil _
  | cons ev h ih =>
    refine (always_cons _ _ _).mpr ⟨fun id c hlab hc _ ev' hev' now ht => ?_, ih ?_⟩
    · obtain ⟨id', c', hlab', hc', rfl, -⟩ := ht
      have hr : reading ev = some c.now := by simp [reading, hlab, hc]
      have hr' : reading ev' = some c'.now := by simp [reading, hlab', hc']
      rw [filterMap_cons_some hr] at hsorted
      exact (pairwise_cons.mp hsorted).1 _ (mem_filterMap.mpr ⟨ev', hev', hr'⟩)
    · refine hsorted.sublist ?_
      exact (sublist_cons_self ev h).filterMap reading

/-! ### What a call does to its bucket -/

variable {o}

def Normalized.rate (o : Normalized) : ℚ := o.ratePerSecond / second

theorem Normalized.rate_nonneg (o : Normalized) : 0 ≤ o.rate :=
  div_nonneg o.rate_pos.le (by norm_num [second])

/-- **Idle for the time to live means full**, if the refill fits a duration. -/
theorem Normalized.burst_le_rate_mul_idleTTL
    (hfits : (o.burst : ℚ) * second ≤ o.ratePerSecond * maxInt64) :
    (o.burst : ℚ) ≤ o.rate * o.idleTTL := by
  have hle := burst_le_rate_mul o.burst_pos o.rate_pos hfits o.refill_le
  have hsec : (0 : ℚ) < second := by norm_num [second]
  rw [Normalized.rate, div_mul_eq_mul_div, le_div_iff₀ hsec]
  exact hle

/-- A refill at a reading that is not late: the bucket is up to date, and holds no more
than the time since allows. -/
theorem refill_spec {state : BucketState} {now : ℤ} (hle : state.updatedAt ≤ now)
    (hcap : state.tokens ≤ o.burst) :
    (refill o state now).updatedAt = now ∧ (refill o state now).tokens ≤ o.burst ∧
      (refill o state now).tokens ≤ state.tokens + o.rate * (now - state.updatedAt) ∧
      (0 ≤ state.tokens → 0 ≤ (refill o state now).tokens) := by
  have hdiff : (0 : ℚ) ≤ now - state.updatedAt := by
    have : (state.updatedAt : ℚ) ≤ now := Int.cast_le.mpr hle
    linarith
  unfold refill
  dsimp only
  split
  · next helapsed =>
    -- nothing has elapsed, and the reading is not late: it is the last one
    have hge : ¬1 ≤ now - state.updatedAt := by
      rw [← le_timeSub_iff (by norm_num) (by norm_num [maxInt64])]
      omega
    refine ⟨by omega, hcap, ?_, id⟩
    have := mul_nonneg o.rate_nonneg hdiff
    linarith
  · next helapsed =>
    have hsat : ((timeSub now state.updatedAt : ℤ) : ℚ) ≤ now - state.updatedAt := by
      have := timeSub_le_of_le hle
      rw [← Int.cast_sub]
      exact Int.cast_le.mpr this
    have hadd : ((timeSub now state.updatedAt : ℤ) : ℚ) / second * o.ratePerSecond =
        o.rate * (timeSub now state.updatedAt : ℤ) := by
      rw [Normalized.rate]
      ring
    have hpos : (0 : ℚ) ≤ (timeSub now state.updatedAt : ℤ) :=
      Int.cast_nonneg (not_le.mp helapsed).le
    refine ⟨rfl, min_le_left _ _, (min_le_right _ _).trans ?_, fun h => le_min ?_ ?_⟩
    · have := mul_le_mul_of_nonneg_left hsat o.rate_nonneg
      linarith
    · exact Int.cast_nonneg o.burst_pos.le
    · rw [hadd]
      have := mul_nonneg o.rate_nonneg hpos
      linarith

theorem consume_spec (state : BucketState) (c : Call) :
    (consume o state c.tokens).1.tokens +
        Decision.granted ⟨c, (consume o state c.tokens).2⟩ = state.tokens ∧
      (0 ≤ state.tokens → 0 ≤ (consume o state c.tokens).1.tokens) ∧
      (consume o state c.tokens).1.tokens ≤ state.tokens ∧
      (consume o state c.tokens).1.updatedAt = state.updatedAt ∧
      (consume o state c.tokens).1.lastSeenAt = state.lastSeenAt := by
  have hpos : (0 : ℚ) ≤ c.tokens := Int.cast_nonneg c.tokens_pos.le
  unfold consume Decision.granted
  split
  · next hle => exact ⟨by simp, fun _ => by simpa using hle, by simpa using hpos, rfl, rfl⟩
  · exact ⟨by simp, id, le_rfl, rfl, rfl⟩

/-- A prune keeps a bucket or drops it; what it drops was idle for the time to live. -/
theorem pruneIdle_cases (buckets : Buckets) (key : String) (now : ℤ) :
    pruneIdle o buckets now key = buckets key ∨
      (pruneIdle o buckets now key = none ∧ ∃ state, buckets key = some state ∧
        0 < o.idleTTL ∧ o.idleTTL ≤ now - state.lastSeenAt) := by
  by_cases hpos : o.idleTTL ≤ 0
  · exact .inl (by rw [pruneIdle, if_pos hpos])
  · have hpos' : 0 < o.idleTTL := not_le.mp hpos
    cases hb : buckets key with
    | none => exact .inl (by simp [pruneIdle, hpos, hb])
    | some state =>
      by_cases hidle : o.idleTTL ≤ timeSub now state.lastSeenAt
      · refine .inr ⟨?_, state, rfl, hpos', le_sub_of_le_timeSub hpos'.le hidle⟩
        simp [pruneIdle, hpos, hb, hidle]
      · exact .inl (by simp [pruneIdle, hpos, hb, hidle])

/-! ### The account of a key -/

/-- The grants fit an account of this burst and rate, which now stands at `level`. -/
abbrev Normalized.Ledger (o : Normalized) (grants : List (ℚ × ℚ)) (now : ℤ) (level : ℚ) : Prop :=
  Account.Ledger (o.burst : ℚ) o.rate grants now level

variable {key : String} {grants : List (ℚ × ℚ)}

variable (o) in
/-- An account that is closed can be opened afresh at a reading: it has never been used,
or by then it would have been full. -/
def Reopenable (grants : List (ℚ × ℚ)) (now : ℤ) : Prop :=
  grants = [] ∨ ∃ (t : ℤ) (level : ℚ), o.Ledger grants t level ∧ t ≤ now ∧
    (o.burst : ℚ) ≤ level + o.rate * (now - t)

theorem Reopenable.mono {now now' : ℤ} (hre : Reopenable o grants now) (hle : now ≤ now') :
    Reopenable o grants now' := by
  rcases hre with hnil | ⟨t, level, hl, ht, hfull⟩
  · exact .inl hnil
  · refine .inr ⟨t, level, hl, ht.trans hle, hfull.trans ?_⟩
    have hcast : (now : ℚ) ≤ now' := Int.cast_le.mpr hle
    have := mul_le_mul_of_nonneg_left (sub_le_sub_right hcast (t : ℚ)) o.rate_nonneg
    linarith

theorem Reopenable.grant {now : ℤ} {level amount : ℚ} (hre : Reopenable o grants now)
    (hlevel : 0 ≤ level) (hsum : level + amount ≤ o.burst) :
    o.Ledger ((now, amount) :: grants) now level := by
  rcases hre with rfl | ⟨t, l, hl, ht, hfull⟩
  · exact .opened hlevel hsum
  · exact .grant hl (Int.cast_le.mpr ht) hlevel hsum (hsum.trans hfull)

theorem reopenable_of_idle (hfits : (o.burst : ℚ) * second ≤ o.ratePerSecond * maxInt64)
    {t now : ℤ} {level : ℚ} (hl : o.Ledger grants t level) (hpos : 0 < o.idleTTL)
    (hidle : o.idleTTL ≤ now - t) : Reopenable o grants now := by
  refine .inr ⟨t, level, hl, by omega, ?_⟩
  have hcast : (o.idleTTL : ℚ) ≤ now - t := by
    rw [← Int.cast_sub]
    exact Int.cast_le.mpr hidle
  have := mul_le_mul_of_nonneg_left hcast o.rate_nonneg
  have := Normalized.burst_le_rate_mul_idleTTL hfits
  have := hl.level_nonneg
  linarith

variable (o) in
/-- **The account of a key is in order**: its bucket, if there is one, stands where the
grants say and was last touched with its own reading; if there is none, it can be opened
afresh from the reading it was dropped with. -/
def Accounted (key : String) (h : List Ev) (y : Sys) : Prop :=
  match y.buckets key with
  | some state =>
    state.updatedAt = state.lastSeenAt ∧ state.tokens ≤ o.burst ∧
      o.Ledger (y.grants key) state.lastSeenAt state.tokens ∧
      ∃ ev ∈ h, Touches ev key state.lastSeenAt
  | none => y.grants key = [] ∨
    ∃ now, Reopenable o (y.grants key) now ∧ ∃ ev ∈ h, Touches ev key now

variable {y : Sys}

theorem Accounted.of_eq {ev : Ev} {y' : Sys} (hinv : Accounted o key h y)
    (hbucket : y'.buckets key = y.buckets key) (hgrants : y'.grants key = y.grants key) :
    Accounted o key (ev :: h) y' := by
  unfold Accounted at hinv ⊢
  rw [hbucket, hgrants]
  cases hb : y.buckets key with
  | some state =>
    rw [hb] at hinv
    obtain ⟨hupd, hcap, hl, htouch⟩ := hinv
    exact ⟨hupd, hcap, hl, exists_mem_cons_of_exists htouch⟩
  | none =>
    rw [hb] at hinv
    rcases hinv with hnil | ⟨now, hre, htouch⟩
    · exact .inl hnil
    · exact .inr ⟨now, hre, exists_mem_cons_of_exists htouch⟩

variable {id : ℕ} {c : Call}

theorem grants_serve_of_ne (hc : c.key ≠ key) : (y.serve o id c).grants key = y.grants key := by
  simp [Sys.grants, Sys.serve, hc]

theorem grants_serve_self :
    (y.serve o id c).grants c.key =
      ((c.now : ℚ), Decision.granted ⟨c, (allowLocked o y.buckets c.key c.tokens c.now).2⟩) ::
        y.grants c.key := by
  simp [Sys.grants, Sys.serve]

section

variable (hfits : (o.burst : ℚ) * second ≤ o.ratePerSecond * maxInt64)
include hfits

theorem accounted_serve_of_ne (hinv : Accounted o key h y) (hcall : y.calls id = some c)
    (hc : c.key ≠ key) : Accounted o key (⟨y, .lock id, y.serve o id c⟩ :: h) (y.serve o id c) := by
  have hbucket : (y.serve o id c).buckets key = pruneIdle o y.buckets c.now key :=
    update_of_ne (Ne.symm hc) ..
  rcases pruneIdle_cases y.buckets key c.now with hkeep | ⟨hdrop, state, hstate, hpos, hidle⟩
  · exact hinv.of_eq (hbucket.trans hkeep) (grants_serve_of_ne hc)
  · -- this very event drops the bucket, with the reading of its own call
    unfold Accounted at hinv ⊢
    rw [hstate] at hinv
    obtain ⟨-, -, hl, -⟩ := hinv
    rw [hbucket, hdrop, grants_serve_of_ne hc]
    refine .inr ⟨c.now, reopenable_of_idle hfits hl hpos hidle, _, mem_cons_self, ?_⟩
    exact ⟨id, c, rfl, hcall, rfl, .inr ⟨by simp [hstate], hbucket.trans hdrop⟩⟩

variable (o) in
/-- The bucket is up to date, holds at most the burst, and continues the account of its key
whatever is taken from it. -/
def Continues (now : ℤ) (grants : List (ℚ × ℚ)) (state : BucketState) : Prop :=
  state.updatedAt = now ∧ state.lastSeenAt = now ∧ 0 ≤ state.tokens ∧ state.tokens ≤ o.burst ∧
    ∀ level amount, 0 ≤ level → level + amount = state.tokens →
      o.Ledger (((now : ℚ), amount) :: grants) now level

/-- **What a call that is not late finds.** -/
theorem found_spec {now : ℤ} (hinv : Accounted o key h y)
    (horder : ∀ ev ∈ h, ∀ t, Touches ev key t → t ≤ now) {state : BucketState}
    (hstate : found o (pruneIdle o y.buckets now key) now = state) :
    Continues o now (y.grants key) state := by
  have hburst : (0 : ℚ) ≤ o.burst := Int.cast_nonneg o.burst_pos.le
  -- a fresh bucket is in order if the account can be reopened
  have hfresh : pruneIdle o y.buckets now key = none → Reopenable o (y.grants key) now →
      Continues o now (y.grants key) state := by
    intro hnone hre
    rw [hnone, found] at hstate
    subst hstate
    exact ⟨rfl, rfl, hburst, le_rfl, fun level amount hlevel hsum => hre.grant hlevel hsum.le⟩
  unfold Accounted at hinv
  rcases pruneIdle_cases y.buckets key now with hkeep | ⟨hdrop, old, hold, hpos, hidle⟩
  · cases hb : y.buckets key with
    | none =>
      rw [hb] at hinv hkeep
      refine hfresh hkeep ?_
      rcases hinv with hnil | ⟨t, hre, ev, hev, ht⟩
      · exact .inl hnil
      · exact hre.mono (horder ev hev t ht)
    | some old =>
      rw [hb] at hinv hkeep
      obtain ⟨hupd, hcap, hl, ev, hev, ht⟩ := hinv
      have hle : old.lastSeenAt ≤ now := horder ev hev _ ht
      obtain ⟨hnow, hcap', hrefill, hnonneg⟩ := refill_spec (hupd.trans_le hle) hcap
      rw [hkeep, found] at hstate
      subst hstate
      refine ⟨hnow, rfl, hnonneg hl.level_nonneg, hcap', fun level amount hlevel hsum => ?_⟩
      -- the account runs on the time last seen, which is the time of the last refill
      rw [hupd] at hrefill
      exact .grant hl (Int.cast_le.mpr hle) hlevel (hsum.trans_le hcap') (hsum.trans_le hrefill)
  · rw [hold] at hinv
    exact hfresh hdrop (reopenable_of_idle hfits hinv.2.2.1 hpos hidle)

/-- **Serving a call that is not late keeps the account of its key in order.** -/
theorem accounted_serve_self (hinv : Accounted o c.key h y) (hcall : y.calls id = some c)
    (horder : ∀ ev ∈ h, ∀ now, Touches ev c.key now → now ≤ c.now) :
    Accounted o c.key (⟨y, .lock id, y.serve o id c⟩ :: h) (y.serve o id c) := by
  obtain ⟨hupd, hseen, hnonneg, hcap, hledger⟩ := found_spec hfits hinv horder rfl
  obtain ⟨htake, hleft, hless, hupd', hseen'⟩ :=
    consume_spec (found o (pruneIdle o y.buckets c.now c.key) c.now) c
  have hbucket : (y.serve o id c).buckets c.key =
      some (consume o (found o (pruneIdle o y.buckets c.now c.key) c.now) c.tokens).1 :=
    update_self ..
  unfold Accounted
  rw [hbucket, grants_serve_self]
  refine ⟨?_, ?_, ?_, _, mem_cons_self, id, c, rfl, hcall, ?_, .inl rfl⟩
  · rw [hupd', hseen', hupd, hseen]
  · exact hless.trans hcap
  · rw [hseen', hseen]
    exact hledger _ _ (hleft hnonneg) htake
  · exact (hseen'.trans hseen).symm

/-- **Every step keeps the account of a key in order**, unless it serves a late call for
the key. -/
theorem accounted_step {y' : Sys} {e : Label} (hinv : Accounted o key h y)
    (hs : step o y e = some y') (horder : InOrder key h ⟨y, e, y'⟩) :
    Accounted o key (⟨y, e, y'⟩ :: h) y' := by
  cases e with
  | readClock id k tokens now =>
    unfold step at hs
    dsimp only at hs
    split at hs
    · split at hs
      · cases hs
        exact hinv.of_eq rfl rfl
      · cases hs
    · cases hs
  | lock id =>
    cases hcall : y.calls id with
    | none => simp [step, hcall] at hs
    | some c =>
      obtain rfl : y.serve o id c = y' := by simpa [step, hcall] using hs
      by_cases hc : c.key = key
      · subst hc
        exact accounted_serve_self hfits hinv hcall (horder id c rfl hcall rfl)
      · exact accounted_serve_of_ne hfits hinv hcall hc

end

/-- An account in order has handed out no more than its burst and its rate allow. -/
theorem Accounted.grantedIn_le (hinv : Accounted o key h y) {a b : ℚ} (hab : a ≤ b) :
    Account.grantedIn a b (y.grants key) ≤ o.burst + o.rate * (b - a) := by
  have hburst : (0 : ℚ) ≤ o.burst := Int.cast_nonneg o.burst_pos.le
  have hnil : y.grants key = [] →
      Account.grantedIn a b (y.grants key) ≤ o.burst + o.rate * (b - a) := by
    intro hnil
    rw [hnil, Account.grantedIn_nil]
    exact add_nonneg hburst (mul_nonneg o.rate_nonneg (sub_nonneg.mpr hab))
  unfold Accounted at hinv
  split at hinv
  · exact hinv.2.2.1.grantedIn_le hburst o.rate_nonneg hab
  · rcases hinv with h | ⟨now, h | ⟨t, level, hl, -⟩, -⟩
    · exact hnil h
    · exact hnil h
    · exact hl.grantedIn_le hburst o.rate_nonneg hab

/-- **When the token bucket keeps to its burst and rate**: for every accepted set of
options whose refill takes no longer than the largest duration, and every run of any
number of concurrent calls in which no call comes late for a key, the tokens granted for
the key by calls with readings in an interval of `d` nanoseconds add up to at most the
burst plus the refill over `d`. -/
theorem grantedIn_le_of_inOrder
    (hfits : (o.burst : ℚ) * second ≤ o.ratePerSecond * maxInt64) {h : List Ev} {y : Sys}
    (hr : Runs o h y) (horder : Always (InOrder key) h) (a d : ℤ) (hd : 0 ≤ d) :
    Account.grantedIn (a : ℚ) (a + d) (y.grants key) ≤
      o.burst + o.ratePerSecond * (d / second) := by
  have hinv : Accounted o key h y :=
    hr.invariant_of (P := Accounted o key) horder (.inl rfl)
      fun _ _ _ _ hinv hs hc => accounted_step hfits hinv hs hc
  have hle := hinv.grantedIn_le (le_add_of_nonneg_right (a := (a : ℚ)) (Int.cast_nonneg hd))
  have hrate : o.rate * ((a : ℚ) + d - a) = o.ratePerSecond * (d / second) := by
    rw [Normalized.rate]
    ring
  rwa [hrate] at hle

def oneASecond : Options := ⟨.finite 1, 1, second⟩

/-- What `normalize` makes of them. -/
def oneASecondNormalized : Normalized where
  ratePerSecond := 1
  burst := 1
  idleTTL := second
  rate_pos := by norm_num
  burst_pos := by norm_num
  refill_le := by decide +kernel

/-- Two calls a second apart, in order: the bucket of the first is dropped as idle, and
both are granted. -/
theorem grantedIn_le_of_inOrder_pruned :
    ∃ h y, Runs oneASecondNormalized h y ∧ y.grants "k" = [(1000000000, 1), (0, 1)] ∧
      Account.grantedIn ((0 : ℤ) : ℚ) ((0 : ℤ) + (1000000000 : ℤ)) (y.grants "k") ≤
        oneASecondNormalized.burst +
          oneASecondNormalized.ratePerSecond * (((1000000000 : ℤ) : ℚ) / second) := by
  obtain ⟨h, y, hr, hgrants, hsorted⟩ := exists_run (step oneASecondNormalized) {}
    [.readClock 0 "k" 1 0, .lock 0, .readClock 1 "k" 1 1000000000, .lock 1]
    (fun h y => y.grants "k" = [(1000000000, 1), (0, 1)] ∧
      (h.filterMap reading).Pairwise (· ≥ ·))
    (by decide +kernel)
  refine ⟨h, y, hr, hgrants, ?_⟩
  exact grantedIn_le_of_inOrder (by norm_num [oneASecondNormalized, second, maxInt64]) hr
    (inOrder_of_sorted hsorted "k") 0 1000000000 (by norm_num)

/-- **A late call can double the burst**: call `0` reads the clock at `0` but is served
after call `1`, which read a second later and took the only token. The bucket now looks
idle since `0`, so call `2`, with the reading of call `1`, drops it and finds a fresh
one. -/
theorem late_reading_exceeds_burst :
    ¬∀ (options : Options) (o : Normalized), options.normalize = .ok o →
      ∀ (h : List Ev) (y : Sys), Runs o h y → ∀ (key : String) (a d : ℤ), 0 ≤ d →
        Account.grantedIn (a : ℚ) (a + d) (y.grants key) ≤
          o.burst + o.ratePerSecond * (d / second) := by
  intro hall
  obtain ⟨h, y, hr, hgrants⟩ := exists_run (step oneASecondNormalized) {}
    [.readClock 0 "k" 1 0, .readClock 1 "k" 1 1000000000, .lock 1, .lock 0,
      .readClock 2 "k" 1 1000000000, .lock 2]
    (fun _ y => y.grants "k" = [(1000000000, 1), (0, 0), (1000000000, 1)])
    (by decide +kernel)
  have hbound := hall oneASecond oneASecondNormalized (by decide +kernel) h y hr "k" 1000000000 0
    le_rfl
  rw [hgrants] at hbound
  norm_num [Account.grantedIn, oneASecondNormalized] at hbound

end Bluetape.RateLimit.Local
