import Bluetape.Library.Account
import Bluetape.RateLimit.Redis

/-!
# What the Redis bucket hands out when its key expires

Expiry is harmless as long as a bucket that has lived for its lifetime without a call would have
been full anyway. The options are checked for that: the idle time must be at least the time a full
refill takes. But the check is made with the rate the caller gave and in nanoseconds, while the
script refills with the rate rounded to millionths and lives for whole milliseconds. What decides is
the product the script itself works with (`throughputBounded_iff`): the lifetime times the rounded
rate has to cover the burst.

* `throughputBounded_iff`: for every accepted set of options the grants within every window keep to
  the burst and the rate, and expiry never yields more than continued refill, exactly when it does
  (or the script refuses every call).
* `expiry_refills_early`: accepted options for which it does not.
-/

namespace Bluetape.RateLimit.Redis

open Go Double

variable {o : Normalized} {x : Expiry}

/-- What was granted, in millionths, with the times in milliseconds, newest first; a
refused call is a grant of nothing. -/
def Sys.grants (y : Sys) : List (ℚ × ℚ) :=
  y.decisions.map fun d => ((d.nowMs : ℚ), if d.allowed then (d.requested : ℚ) else 0)

variable (o x) in
/-- The grants within any window of `d` milliseconds add up to at most the burst plus the
refill over the window. -/
def ThroughputBounded : Prop :=
  ∀ (h : List Ev) (y : Sys), Runs o x {} h y → ∀ a d : ℤ, 0 ≤ d →
    Account.grantedIn (a : ℚ) (a + d) y.grants ≤
      o.burstMicros + o.rateMicrosPerSecond * (d / 1000)

variable (o x) in
/-- Losing the key never yields more tokens than continued refill would have. -/
def ExpiryHarmless : Prop :=
  ∀ (h : List Ev) (y : Sys), Runs o x {} h y → ∀ b, y.bucket = some b →
    ∀ t, y.clock ≤ t → live x (some b) (nowMs t) = none →
      available o x none (nowMs t) ≤ refill o (some b) (nowMs t)

/-! ### Lifetimes that cover the burst -/

/-- The grants fit an account of this burst and rate, which now stands at `level`. -/
abbrev Normalized.Ledger (o : Normalized) (grants : List (ℚ × ℚ)) (now level : ℤ) : Prop :=
  Account.Ledger (o.burstMicros : ℚ) (o.rateMicrosPerSecond / 1000) grants now level

variable (o) in
/-- The bucket is in order, and stands where the grants say. -/
structure Accounted (y : Sys) : Prop where
  ok : y.Ok o
  unused : y.bucket = none → y.decisions = []
  ledger : ∀ b, y.bucket = some b → o.Ledger y.grants b.updatedMs b.tokens

theorem floor_refill_le (e r : ℤ) : ((e * r / 1000 : ℤ) : ℚ) ≤ r / 1000 * e := by
  have hle : e * r / 1000 * 1000 ≤ e * r := Int.ediv_mul_le _ (by decide)
  have hcast : ((e * r / 1000 : ℤ) : ℚ) * 1000 ≤ e * r := by exact_mod_cast hle
  linarith

theorem served_tokens_add (bucket : Option Bucket) (requested now : ℤ) :
    ((served o x bucket requested now).tokens : ℚ) +
        (if decide (requested ≤ available o x bucket now) = true then (requested : ℚ) else 0) =
      available o x bucket now := by
  simp only [served, decide_eq_true_eq]
  split
  · push_cast
    ring
  · ring

theorem grants_serve (y : Sys) (requested time : ℤ) :
    (y.serve o x requested time).grants =
      ((nowMs time : ℚ), if decide (requested ≤ available o x y.bucket (nowMs time)) = true then
        (requested : ℚ) else 0) :: y.grants := rfl

theorem accounted_init : Accounted o {} :=
  ⟨nofun, fun _ => rfl, nofun⟩

theorem bound_nonneg (o : Normalized) {d : ℤ} (hd : 0 ≤ d) :
    (0 : ℚ) ≤ o.burstMicros + o.rateMicrosPerSecond * (d / 1000) := by
  have hburst : (0 : ℚ) ≤ o.burstMicros := Int.cast_nonneg o.burstMicros_pos.le
  have hrate : (0 : ℚ) ≤ o.rateMicrosPerSecond := Int.cast_nonneg o.rate_pos.le
  positivity

/-! ### A lifetime that covers the burst -/

variable [o.Precise]

section

variable (hcover : 1000 * o.burstMicros ≤ o.lifetime x * o.rateMicrosPerSecond)
include hcover

/-- **What a call finds is no more than the rate allows**, if the lifetime covers the
burst. -/
theorem available_le_refill {b : Bucket} {now t : ℤ} (hok : b.Ok o now) (ht : now ≤ t) :
    (available o x (some b) t : ℚ) ≤
      b.tokens + o.rateMicrosPerSecond / 1000 * (t - b.updatedMs) := by
  have hmin : available o x (some b) t ≤
      b.tokens + (t - b.updatedMs) * o.rateMicrosPerSecond / 1000 := by
    rw [available_of_cover hcover hok ht]
    exact min_le_right _ _
  have hcast : (available o x (some b) t : ℚ) ≤
      b.tokens + ((t - b.updatedMs) * o.rateMicrosPerSecond / 1000 : ℤ) := by
    exact_mod_cast hmin
  have hfloor := floor_refill_le (t - b.updatedMs) o.rateMicrosPerSecond
  push_cast at hfloor
  linarith

/-- **Every call keeps the account in order**, if the lifetime covers the burst. -/
theorem accounted_step {y y' : Sys} {e : Label} (hinv : Accounted o y)
    (h : step o x y e = some y') : Accounted o y' := by
  obtain ⟨hok, hunused, hledger⟩ := hinv
  refine ⟨ok_step hok h, ?_, ?_⟩
  all_goals obtain ⟨htime, requested, hreq, ⟨-, rfl⟩ | ⟨-, rfl⟩⟩ := step_cases hok h
  · exact hunused
  · exact nofun
  · exact hledger
  · intro b hb
    cases hb
    have ht := nowMs_mono htime
    have hlevel : (0 : ℚ) ≤ (served o x y.bucket requested (nowMs e.time)).tokens :=
      Int.cast_nonneg (served_ok hok ht (checkRequest_bounds hreq).1).nonneg
    have hsum := served_tokens_add (o := o) (x := x) y.bucket requested (nowMs e.time)
    have hcap : (available o x y.bucket (nowMs e.time) : ℚ) ≤ o.burstMicros :=
      Int.cast_le.mpr (available_bounds hok ht).2
    rw [grants_serve]
    obtain hnone | ⟨old, hold⟩ := Option.eq_none_or_eq_some y.bucket
    · have hnil : y.grants = [] := by rw [Sys.grants, hunused hnone, List.map_nil]
      rw [hnil]
      exact .opened hlevel (hsum.trans_le hcap)
    · have hrefill := available_le_refill hcover (hok old hold) ht
      rw [← hold] at hrefill
      refine .grant (hledger old hold) ?_ hlevel (hsum.trans_le hcap) (hsum.trans_le hrefill)
      exact Int.cast_le.mpr ((hok old hold).updated_le.trans ht)

theorem throughputBounded_of_cover : ThroughputBounded o x := by
  intro h y hr a d hd
  have hinv : Accounted o y :=
    hr.invariant accounted_init fun _ _ _ hinv hs => accounted_step hcover hinv hs
  have hburst : (0 : ℚ) ≤ o.burstMicros := Int.cast_nonneg o.burstMicros_pos.le
  have hrate : (0 : ℚ) ≤ o.rateMicrosPerSecond / 1000 :=
    div_nonneg (Int.cast_nonneg o.rate_pos.le) (by norm_num)
  have hd' : (0 : ℚ) ≤ d := Int.cast_nonneg hd
  obtain hnone | ⟨b, hb⟩ := Option.eq_none_or_eq_some y.bucket
  · rw [Sys.grants, hinv.unused hnone, List.map_nil, Account.grantedIn_nil]
    exact bound_nonneg o hd
  · have hle := (hinv.ledger b hb).grantedIn_le hburst hrate
      (le_add_of_nonneg_right (a := (a : ℚ)) hd')
    have hsame : (o.rateMicrosPerSecond : ℚ) / 1000 * ((a : ℚ) + d - a) =
        o.rateMicrosPerSecond * (d / 1000) := by ring
    rwa [hsame] at hle

theorem expiryHarmless_of_cover : ExpiryHarmless o x := by
  intro h y hr b hb t ht hgone
  have hok : y.Ok o :=
    hr.invariant (P := Sys.Ok o) nofun fun _ _ _ hok hs => ok_step hok hs
  have hmono := nowMs_mono ht
  rw [refill_some (hok b hb) hmono, ← available_of_cover hcover (hok b hb) hmono]
  rw [available, available, hgone]
  exact le_rfl

end

/-! ### The two directions -/

/-- If the script refuses every call, nothing is granted and nothing is stored. -/
theorem unused_of_ttl (httl : o.ttl ≤ 0) {h : List Ev} {y : Sys} (hr : Runs o x {} h y) :
    y.bucket = none ∧ y.decisions = [] := by
  refine hr.invariant (P := fun y => y.bucket = none ∧ y.decisions = []) ⟨rfl, rfl⟩ ?_
  rintro s e s' ⟨hbucket, hdec⟩ hs
  have hok : s.Ok o := fun b hb => nomatch hbucket.symm.trans hb
  obtain ⟨-, -, -, ⟨-, rfl⟩ | ⟨hpos, -⟩⟩ := step_cases hok hs
  · exact ⟨hbucket, hdec⟩
  · omega

/-- **Two calls for the whole burst, a lifetime apart, are both granted.** -/
theorem burst_twice (httl : 0 < o.ttl) :
    ∃ h y, Runs o x {} h y ∧ y.grants =
      [((o.lifetime x : ℚ), (o.burstMicros : ℚ)), (0, (o.burstMicros : ℚ))] := by
  have hlife := (lifetime_pos (x := x) httl).le
  have hnow : nowMs 0 = 0 := rfl
  have hnow' := nowMs_mul (o.lifetime x)
  have hinit : Sys.Ok o {} := nofun
  -- the first call empties a fresh bucket
  have hfirst : step o x {} ⟨o.burst, 0⟩ = some (Sys.serve o x {} o.burstMicros 0) :=
    step_eq hinit httl checkRequest_burst le_rfl
  have hok := ok_step hinit hfirst
  -- the second comes when the bucket is gone
  have hsecond := step_eq (x := x) (e := ⟨o.burst, o.lifetime x * 1000⟩) hok httl
    checkRequest_burst (by
      change 0 ≤ o.lifetime x * 1000
      omega)
  have havail : available o x (some (served o x (Sys.bucket {}) o.burstMicros (nowMs 0)))
      (o.lifetime x) = o.burstMicros := by
    have hb := hok _ rfl
    rw [available_some hb hlife]
    exact if_pos (by
      change o.lifetime x ≤ o.lifetime x - 0
      omega)
  refine ⟨_, _, (Lts.Run.nil.snoc hfirst).snoc hsecond, ?_⟩
  rw [grants_serve, grants_serve, hnow']
  have hgrant : decide (o.burstMicros ≤ available o x
      (Sys.serve o x {} o.burstMicros 0).bucket (o.lifetime x)) = true := by
    rw [decide_eq_true_eq]
    exact havail.ge
  have hgrant' : decide (o.burstMicros ≤ available o x (Sys.bucket {}) (nowMs 0)) = true := by
    rw [decide_eq_true_eq]
    exact refill_none.ge
  rw [if_pos hgrant, if_pos hgrant', hnow]
  simp [Sys.grants]

/-- Two bursts within a lifetime keep to the bound only if the lifetime covers one of
them. -/
theorem cover_of_throughputBounded (httl : 0 < o.ttl) (hbounded : ThroughputBounded o x) :
    1000 * o.burstMicros ≤ o.lifetime x * o.rateMicrosPerSecond := by
  obtain ⟨h, y, hr, hgrants⟩ := burst_twice (x := x) httl
  have hpos := (lifetime_pos (x := x) httl).le
  have hle := hbounded h y hr 0 (o.lifetime x) hpos
  have hsum : Account.grantedIn ((0 : ℤ) : ℚ) ((0 : ℤ) + o.lifetime x)
      [((o.lifetime x : ℚ), (o.burstMicros : ℚ)), (0, (o.burstMicros : ℚ))] =
      o.burstMicros + o.burstMicros := by
    have hpos' : (0 : ℚ) ≤ o.lifetime x := Int.cast_nonneg hpos
    simp [Account.grantedIn, hpos']
  rw [hgrants, hsum] at hle
  have hrat : (1000 : ℚ) * o.burstMicros ≤ o.lifetime x * o.rateMicrosPerSecond := by
    linarith
  exact_mod_cast hrat

/-- **When expiry is harmless.** For every accepted set of options whose burst is within the
precision of the script, and either reading of the deadline: the grants within every window
keep to the burst and the rate, and losing the key never yields more than continued refill
would have, exactly when the script refuses every call, or the lifetime of a bucket times
the rate of the script covers the burst. -/
theorem throughputBounded_iff (o : Normalized) (x : Expiry)
    (hprecise : 1000 * o.burstMicros < 2 ^ 53) :
    (ThroughputBounded o x ∧ ExpiryHarmless o x) ↔
      (o.ttl ≤ 0 ∨ 1000 * o.burstMicros ≤ o.lifetime x * o.rateMicrosPerSecond) := by
  have hp : o.Precise := ⟨hprecise⟩
  constructor
  · rintro ⟨hbounded, -⟩
    by_contra hcon
    obtain ⟨httl, hcover⟩ := not_or.mp hcon
    exact hcover (cover_of_throughputBounded (not_le.mp httl) hbounded)
  · rintro (httl | hcover)
    · constructor
      · intro h y hr a d hd
        obtain ⟨-, hdec⟩ := unused_of_ttl httl hr
        rw [Sys.grants, hdec, List.map_nil, Account.grantedIn_nil]
        exact bound_nonneg o hd
      · intro h y hr b hb
        obtain ⟨hnone, -⟩ := unused_of_ttl httl hr
        exact nomatch hnone.symm.trans hb
    · exact ⟨throughputBounded_of_cover hcover, expiryHarmless_of_cover hcover⟩

theorem throughputBounded_perSecond :
    perSecond.normalize = .ok perSecondNormalized ∧
      ThroughputBounded perSecondNormalized .atDeadline ∧
      ExpiryHarmless perSecondNormalized .atDeadline := by
  refine ⟨by decide +kernel, ?_⟩
  exact (throughputBounded_iff perSecondNormalized .atDeadline (by decide)).mpr (.inr (by decide))

/-- Five millionths a second over four, as far as it has binary digits; one token at a time,
kept for nine hundred thousand seconds, of which a full refill would take less than eight
hundred and forty thousand. -/
def tight : Options where
  client := true
  namespace_ := ""
  ratePerSecond := .finite (5 / 2 ^ 22)
  burst := 1
  idleTTL := 900000 * second
  maxKeyBytes := 0

/-- What `normalize` makes of them: the rate of the script is one millionth. -/
def tightNormalized : Normalized where
  namespace_ := "default"
  ratePerSecond := 5 / 2 ^ 22
  rateMicrosPerSecond := 1
  burst := 1
  burstMicros := 1000000
  idleTTL := 900000 * second
  maxKeyBytes := defaultMaxKeyBytes
  rate_pos := Int.one_pos
  burst_pos := Int.one_pos
  burstMicros_eq := tokensToMicros_one
  refill_le := by decide +kernel

/-- **An expired bucket may come back with more than it would have refilled.** With these
options the token is granted twice within the lifetime of the key, in which the script
refills nine tenths of it. -/
theorem expiry_refills_early :
    ¬∀ (options : Options) (o : Normalized) (x : Expiry), options.normalize = .ok o →
      ThroughputBounded o x ∧ ExpiryHarmless o x := by
  intro hall
  obtain ⟨hbounded, -⟩ := hall tight tightNormalized .atDeadline (by decide +kernel)
  have hp : tightNormalized.Precise := ⟨by decide⟩
  obtain ⟨h, y, hr, hgrants⟩ := burst_twice (o := tightNormalized) (x := .atDeadline) (by decide)
  have hle := hbounded h y hr 0 900000000 (by decide)
  have hlife : tightNormalized.lifetime .atDeadline = 900000000 := by decide
  rw [hgrants, hlife] at hle
  exact absurd hle (by decide +kernel)

end Bluetape.RateLimit.Redis
