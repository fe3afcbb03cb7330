import Bluetape.Library.Accrual
import Bluetape.RateLimit.Redis

/-!
# What a refused call costs the Redis bucket

Every call of the script, a refused one included, stores the refilled tokens and the present
millisecond. The refill is rounded down to a millionth of a token, so what a call forgets is the
fraction that had accrued since the last one. A client that polls forgets one fraction per call; and
if less than a millionth of a token is refilled per millisecond, one that polls every millisecond
never gets anything (`polling_starves`).

* `pollingIndependent_iff`: when two schedules that grant the same requests leave the same tokens,
  whatever else they ask for.
* `polling_delays_refill`: accepted options for which they do not.

The argument compares both schedules with a third, in which only the granted requests are made
(`grantsOnly`).
-/

namespace Bluetape.RateLimit.Redis

open Go

variable {o : Normalized} {x : Expiry}

/-! ### Schedules that differ in refused calls -/

def Sys.granted (y : Sys) : List Decision := y.decisions.filter (·.allowed)

/-- The second schedule grants the same requests as the first, and makes refused calls
that the first does not make. -/
def MorePolls (y₁ y₂ : Sys) : Prop :=
  y₁.decisions.Sublist y₂.decisions ∧ y₁.granted = y₂.granted

def Grants (o : Normalized) (x : Expiry) (y : Sys) (e : Label) : Prop :=
  ∃ y' d, step o x y e = some y' ∧ y'.decisions = d :: y.decisions ∧ d.allowed = true

variable (o x) in
/-- The tokens available after a schedule do not depend on its refused calls. -/
def PollingIndependent : Prop :=
  ∀ init : Sys, init.Ok o → init.decisions = [] →
    ∀ h₁ y₁ h₂ y₂, Runs o x init h₁ y₁ → Runs o x init h₂ y₂ → MorePolls y₁ y₂ →
      ∀ t, nowMs y₁.clock ≤ t → nowMs y₂.clock ≤ t →
        available o x y₁.bucket t = available o x y₂.bucket t

variable (o x) in
/-- A call that is granted after a schedule is granted after one with more refused
calls. -/
def PollingNoLater : Prop :=
  ∀ init : Sys, init.Ok o → init.decisions = [] →
    ∀ h₁ y₁ h₂ y₂, Runs o x init h₁ y₁ → Runs o x init h₂ y₂ → MorePolls y₁ y₂ →
      ∀ e : Label, y₂.clock ≤ e.time → Grants o x y₁ e → Grants o x y₂ e

/-- No refused call costs a bucket anything: buckets do not outlive their millisecond, or
expiry is harmless and either the refill per millisecond is a whole number or the burst
is refilled before its fractions carry. -/
def Normalized.Steady (o : Normalized) (x : Expiry) : Prop :=
  o.lifetime x ≤ 1 ∨
    (1000 * o.burstMicros ≤ o.lifetime x * o.rateMicrosPerSecond ∧ (1000 ∣ o.rateMicrosPerSecond ∨
        o.burstMicros ≤
          Accrual.carryTime 1000 o.rateMicrosPerSecond * (o.rateMicrosPerSecond / 1000)))

/-! ### A refused call, if the refill is steady -/

variable {bucket : Option Bucket} [o.Precise]

theorem exists_of_refused {requested now t : ℤ} (hok : ∀ b, bucket = some b → b.Ok o now)
    (ht : now ≤ t) (hle : requested ≤ o.burstMicros)
    (hrefused : available o x bucket t < requested) :
    ∃ b, bucket = some b ∧ b.Ok o now ∧ t - b.updatedMs < o.lifetime x := by
  cases bucket with
  | none =>
    have hfull : available o x none t = o.burstMicros := refill_none
    omega
  | some b =>
    refine ⟨b, rfl, hok b rfl, ?_⟩
    by_contra hgone
    rw [available_some (hok b rfl) ht, if_pos (not_lt.mp hgone)] at hrefused
    omega

/-- **A refused call leaves the tokens of every later time as they are.** -/
theorem available_served_of_refused (hsteady : o.Steady x) {requested now t t' : ℤ}
    (hok : ∀ b, bucket = some b → b.Ok o now) (ht : now ≤ t) (ht' : t ≤ t') (hpos : 0 < requested)
    (hle : requested ≤ o.burstMicros) (hrefused : available o x bucket t < requested) :
    available o x (some (served o x bucket requested t)) t' = available o x bucket t' := by
  have hserved := served_ok (x := x) hok ht hpos
  have htokens : (served o x bucket requested t).tokens = available o x bucket t :=
    if_neg (not_le.mpr hrefused)
  have hnow : (served o x bucket requested t).updatedMs = t := rfl
  obtain ⟨b, rfl, hb, hlive⟩ := exists_of_refused hok ht hle hrefused
  have hupd := hb.updated_le
  rcases hsteady with hshort | ⟨hcover, hsteady⟩
  · -- the call comes in the millisecond of the last one, and changes nothing
    have hsame : t = b.updatedMs := by omega
    have htok : available o x (some b) t = b.tokens := by
      rw [available_some hb ht, if_neg (by omega), hsame, sub_self, zero_mul, Int.zero_ediv,
        add_zero, min_eq_right hb.le_burst]
    have hb_eq : served o x (some b) requested t = b := by
      ext
      · exact htokens.trans htok
      · exact hsame
      · rw [hb.expireAt, ← hsame]
        rfl
    rw [hb_eq]
  · -- a bucket that refuses is not full, so the cap plays no part
    have hbelow : available o x (some b) t =
        b.tokens + (t - b.updatedMs) * o.rateMicrosPerSecond / 1000 := by
      rw [available_of_cover hcover hb ht] at hrefused ⊢
      exact min_eq_right (le_of_not_ge fun h => by omega)
    have hsplit : t - b.updatedMs + (t' - t) = t' - b.updatedMs := by ring
    rw [available_of_cover hcover hserved ht', available_of_cover hcover hb (ht.trans ht'),
      htokens, hnow, hbelow, ← hsplit]
    exact Accrual.restart_eq (by decide) o.rate_pos.le hb.nonneg (by omega) (by omega) hsteady

/-! ### The schedule of the granted requests alone -/

variable (o x) in
/-- The bucket that the granted requests leave behind if no other call is made. -/
def grantsOnly (bucket : Option Bucket) : List Decision → Option Bucket
  | [] => bucket
  | d :: granted => some (served o x (grantsOnly bucket granted) d.requested d.nowMs)

variable (o x) in
/-- The tokens of every later time are those that the granted requests alone would have
left. -/
structure SameTokens (bucket : Option Bucket) (y : Sys) : Prop where
  ok : y.Ok o
  same : ∀ t, nowMs y.clock ≤ t →
    available o x y.bucket t = available o x (grantsOnly o x bucket y.granted) t

omit [o.Precise] in
/-- What a call leaves behind depends on the bucket only by what the call finds. -/
theorem served_congr {bucket' : Option Bucket} {requested now : ℤ}
    (h : available o x bucket now = available o x bucket' now) :
    served o x bucket requested now = served o x bucket' requested now := by
  simp only [served, h]

/-- **Every call keeps the tokens where the granted requests alone would leave them**, if
the refill is steady. -/
theorem sameTokens_step (hsteady : o.ttl ≤ 0 ∨ o.Steady x) {y y' : Sys} {e : Label}
    (hinv : SameTokens o x bucket y) (h : step o x y e = some y') : SameTokens o x bucket y' := by
  obtain ⟨hok, hsame⟩ := hinv
  refine ⟨ok_step hok h, ?_⟩
  obtain ⟨htime, requested, hreq, ⟨-, rfl⟩ | ⟨httl, rfl⟩⟩ := step_cases hok h
  · exact fun t ht => hsame t ((nowMs_mono htime).trans ht)
  · intro t ht
    have hmono := nowMs_mono htime
    by_cases hgrant : requested ≤ available o x y.bucket (nowMs e.time)
    · have hgranted : (y.serve o x requested e.time).granted =
          ⟨nowMs e.time, requested, true⟩ :: y.granted := by
        simp [Sys.granted, Sys.serve, hgrant]
      rw [hgranted, grantsOnly, ← served_congr (hsame _ hmono)]
      rfl
    · have hgranted : (y.serve o x requested e.time).granted = y.granted := by
        simp [Sys.granted, Sys.serve, hgrant]
      rw [hgranted, ← hsame t (hmono.trans ht)]
      obtain ⟨hpos, hle⟩ := checkRequest_bounds hreq
      exact available_served_of_refused (hsteady.resolve_left (not_le.mpr httl)) hok hmono ht
        hpos hle (not_le.mp hgrant)

/-- **After every schedule** the tokens are where the granted requests alone would leave
them, if the refill is steady. -/
theorem sameTokens_of_runs (hsteady : o.ttl ≤ 0 ∨ o.Steady x) {init y : Sys} {h : List Ev}
    (hok : init.Ok o) (hnil : init.decisions = []) (hr : Runs o x init h y) :
    SameTokens o x init.bucket y := by
  refine hr.invariant ⟨hok, fun t _ => ?_⟩ fun _ _ _ hinv hs => sameTokens_step hsteady hinv hs
  rw [Sys.granted, hnil]
  rfl

theorem pollingIndependent_of_steady (hsteady : o.ttl ≤ 0 ∨ o.Steady x) :
    PollingIndependent o x := by
  intro init hok hnil h₁ y₁ h₂ y₂ hr₁ hr₂ hmore t ht₁ ht₂
  have h₁' := sameTokens_of_runs hsteady hok hnil hr₁
  have h₂' := sameTokens_of_runs hsteady hok hnil hr₂
  rw [h₁'.same t ht₁, h₂'.same t ht₂, hmore.2]

theorem grants_iff {y : Sys} {e : Label} (hok : y.Ok o) :
    Grants o x y e ↔ 0 < o.ttl ∧ y.clock ≤ e.time ∧
      ∃ requested, checkRequest o e.tokens = .ok requested ∧
        requested ≤ available o x y.bucket (nowMs e.time) := by
  constructor
  · rintro ⟨y', d, hs, hdec, hallowed⟩
    obtain ⟨htime, requested, hreq, ⟨-, rfl⟩ | ⟨httl, rfl⟩⟩ := step_cases hok hs
    · exact absurd hdec.symm (List.cons_ne_self _ _)
    · refine ⟨httl, htime, requested, hreq, ?_⟩
      cases hdec
      exact of_decide_eq_true hallowed
  · rintro ⟨httl, htime, requested, hreq, hle⟩
    exact ⟨_, _, step_eq hok httl hreq htime, rfl, decide_eq_true hle⟩

/-- **Polling delays no grant**, if it costs nothing. -/
theorem pollingNoLater_of_independent (hind : PollingIndependent o x) : PollingNoLater o x := by
  intro init hok hnil h₁ y₁ h₂ y₂ hr₁ hr₂ hmore e htime hgrant
  have hok₁ : y₁.Ok o := hr₁.invariant hok fun _ _ _ hok hs => ok_step hok hs
  have hok₂ : y₂.Ok o := hr₂.invariant hok fun _ _ _ hok hs => ok_step hok hs
  obtain ⟨httl, htime₁, requested, hreq, hle⟩ := (grants_iff hok₁).mp hgrant
  refine (grants_iff hok₂).mpr ⟨httl, htime, requested, hreq, ?_⟩
  rwa [← hind init hok hnil h₁ y₁ h₂ y₂ hr₁ hr₂ hmore _ (nowMs_mono htime₁) (nowMs_mono htime)]

/-! ### Schedules in which a refused call is noticed -/

variable (o) in
def standing (tokens now : ℤ) (decisions : List Decision) : Sys where
  bucket := some ⟨tokens, now, now + o.ttl⟩
  clock := now * 1000
  decisions := decisions

omit [o.Precise] in
theorem standing_ok {tokens : ℤ} (now : ℤ) (decisions : List Decision) (hnonneg : 0 ≤ tokens)
    (hle : tokens ≤ o.burstMicros) : (standing o tokens now decisions).Ok o := by
  intro b hb
  cases hb
  exact ⟨hnonneg, hle, (nowMs_mul now).ge, rfl⟩

theorem available_standing {tokens now t : ℤ} {decisions : List Decision} (hnonneg : 0 ≤ tokens)
    (hle : tokens ≤ o.burstMicros) (ht : now ≤ t) :
    available o x (standing o tokens now decisions).bucket t =
      if o.lifetime x ≤ t - now then o.burstMicros
      else min o.burstMicros (tokens + (t - now) * o.rateMicrosPerSecond / 1000) := by
  have hb := standing_ok now decisions hnonneg hle _ rfl
  exact available_some hb ((nowMs_mul now).trans_le ht)

/-- **A call for the burst a millisecond later** is refused, as long as the bucket is not
full, and keeps no fraction of what has accrued. -/
theorem step_standing (httl : 0 < o.ttl) (hlife : 1 < o.lifetime x) {tokens : ℤ} (now : ℤ)
    (decisions : List Decision) (hnonneg : 0 ≤ tokens)
    (hlow : tokens + o.rateMicrosPerSecond / 1000 < o.burstMicros) :
    step o x (standing o tokens now decisions) ⟨o.burst, (now + 1) * 1000⟩ =
      some (standing o (tokens + o.rateMicrosPerSecond / 1000) (now + 1)
        (⟨now + 1, o.burstMicros, false⟩ :: decisions)) := by
  have hrefill : 0 ≤ o.rateMicrosPerSecond / 1000 := Int.ediv_nonneg o.rate_pos.le (by decide)
  have hnow := nowMs_mul (now + 1)
  have hfound : available o x (standing o tokens now decisions).bucket (now + 1) =
      tokens + o.rateMicrosPerSecond / 1000 := by
    rw [available_standing hnonneg (by omega) (by omega), if_neg (by omega),
      add_sub_cancel_left, one_mul, min_eq_right hlow.le]
  have hrefused : ¬o.burstMicros ≤ tokens + o.rateMicrosPerSecond / 1000 := not_le.mpr hlow
  rw [step_eq (standing_ok now decisions hnonneg (by omega)) httl checkRequest_burst (by
    change now * 1000 ≤ (now + 1) * 1000
    omega)]
  simp only [Sys.serve, served, hnow, hfound, if_neg hrefused, decide_eq_false hrefused]
  rfl

/-- **There is a time at which one refused call, in the first millisecond, is noticed**, if
the refill is not steady. -/
theorem exists_noticed (hsteady : ¬o.Steady x) :
    1 < o.lifetime x ∧ o.rateMicrosPerSecond / 1000 < o.burstMicros ∧
      ∃ t, 1 ≤ t ∧ t ≤ o.lifetime x ∧
        o.rateMicrosPerSecond / 1000 + (t - 1) * o.rateMicrosPerSecond / 1000 <
          available o x (standing o 0 0 []).bucket t := by
  obtain ⟨hlife, hnot⟩ := not_or.mp hsteady
  have hlife' : 1 < o.lifetime x := not_le.mp hlife
  have hrate := o.rate_pos
  have hburst := o.burstMicros_pos
  refine ⟨hlife', ?_⟩
  by_cases hcover : 1000 * o.burstMicros ≤ o.lifetime x * o.rateMicrosPerSecond
  · -- the fractions carry before the bucket is full
    obtain ⟨hdvd, hcap⟩ := not_or.mp fun h => hnot ⟨hcover, h⟩
    have hrem : 0 < o.rateMicrosPerSecond % 1000 :=
      (Int.emod_pos_of_not_dvd hdvd).resolve_left (by decide)
    have hone := Accrual.one_lt_carryTime (by decide) hrem
    obtain ⟨hpolled, hwaited⟩ := Accrual.restart_lt (by decide) hrem
    have hrefill : 0 ≤ o.rateMicrosPerSecond / 1000 := Int.ediv_nonneg hrate.le (by decide)
    have hwhole : o.rateMicrosPerSecond / 1000 ≤
        Accrual.carryTime 1000 o.rateMicrosPerSecond * (o.rateMicrosPerSecond / 1000) :=
      le_mul_of_one_le_left hrefill hone.le
    -- a lifetime that covers the burst is not over before the fractions carry
    have hle : Accrual.carryTime 1000 o.rateMicrosPerSecond ≤ o.lifetime x := by
      by_contra hlt
      have hmul : o.lifetime x * o.rateMicrosPerSecond ≤
          (Accrual.carryTime 1000 o.rateMicrosPerSecond - 1) * o.rateMicrosPerSecond :=
        mul_le_mul_of_nonneg_right (by omega) hrate.le
      omega
    refine ⟨by omega, _, hone.le, hle, ?_⟩
    rw [available_standing le_rfl hburst.le (by omega), hpolled, sub_zero, zero_add]
    split
    · exact not_le.mp hcap
    · exact lt_min (not_le.mp hcap) hwaited
  · -- the key expires before the bucket is full
    have hone : o.rateMicrosPerSecond ≤ o.lifetime x * o.rateMicrosPerSecond :=
      le_mul_of_one_le_left hrate.le hlife'.le
    refine ⟨by omega, o.lifetime x, hlife'.le, le_rfl, ?_⟩
    rw [available_standing le_rfl hburst.le (by omega), if_pos (by omega)]
    have hadd := Accrual.add_le o.rateMicrosPerSecond (by decide : (0 : ℤ) < 1000) 1
      (o.lifetime x - 1)
    rw [one_mul, add_sub_cancel] at hadd
    omega

/-- **The emptied bucket, polled once**, tells a polling client from a waiting one, if the
refill is not steady. -/
theorem steady_of_pollingIndependent (hind : PollingIndependent o x) : o.ttl ≤ 0 ∨ o.Steady x := by
  by_contra hcon
  obtain ⟨httl, hsteady⟩ := not_or.mp hcon
  obtain ⟨hlife, hlow, t, hone, ht, hless⟩ := exists_noticed hsteady
  have hburst := o.burstMicros_pos
  have hrefill : 0 ≤ o.rateMicrosPerSecond / 1000 := Int.ediv_nonneg o.rate_pos.le (by decide)
  have hpoll := step_standing (not_le.mp httl) hlife 0 [] le_rfl (by rwa [zero_add])
  rw [zero_add, zero_add] at hpoll
  have hsame := hind (standing o 0 0 []) (standing_ok 0 [] le_rfl hburst.le) rfl _ _ _ _ .nil
    (Lts.Run.nil.snoc hpoll) ⟨List.nil_sublist _, rfl⟩ t ((nowMs_mul 0).trans_le (by omega))
    ((nowMs_mul 1).trans_le hone)
  rw [hsame, available_standing hrefill hlow.le hone, if_neg (by omega)] at hless
  exact absurd hless (not_lt.mpr (min_le_right _ _))

omit [o.Precise] in
/-- **When polling costs nothing.** For every accepted set of options whose burst is within
the precision of the script, and either reading of the deadline: the tokens available after
a schedule do not depend on its refused calls, and polling delays no grant, exactly when the
script refuses every call or the refill is steady. -/
theorem pollingIndependent_iff (o : Normalized) (x : Expiry)
    (hprecise : 1000 * o.burstMicros < 2 ^ 53) :
    (PollingIndependent o x ∧ PollingNoLater o x) ↔ (o.ttl ≤ 0 ∨ o.Steady x) := by
  have hp : o.Precise := ⟨hprecise⟩
  constructor
  · exact fun h => steady_of_pollingIndependent h.1
  · intro hsteady
    have hind := pollingIndependent_of_steady hsteady
    exact ⟨hind, pollingNoLater_of_independent hind⟩

theorem pollingIndependent_perSecond :
    perSecond.normalize = .ok perSecondNormalized ∧
      PollingIndependent perSecondNormalized .afterDeadline ∧
      PollingNoLater perSecondNormalized .afterDeadline := by
  refine ⟨by decide +kernel, ?_⟩
  exact (pollingIndependent_iff perSecondNormalized .afterDeadline (by decide)).mpr
    (.inr (.inr (by decide)))

/-! ### Starvation -/

/-- **Polling every millisecond starves**, if less than a millionth of a token is refilled
in one: however long it goes on, the bucket stays empty and every call is refused. -/
theorem polling_starves (httl : 0 < o.ttl) (hlife : 1 < o.lifetime x)
    (hslow : o.rateMicrosPerSecond < 1000) (n : ℕ) :
    ∃ h decisions, Runs o x (standing o 0 0 []) h (standing o 0 n decisions) ∧
      decisions.length = n ∧ decisions.filter (·.allowed) = [] := by
  have hzero : o.rateMicrosPerSecond / 1000 = 0 :=
    Int.ediv_eq_zero_of_lt o.rate_pos.le hslow
  induction n with
  | zero => exact ⟨_, [], .nil, rfl, rfl⟩
  | succ n ih =>
    obtain ⟨h, decisions, hr, hlen, hnone⟩ := ih
    have hpoll := step_standing httl hlife n decisions le_rfl
      (by rw [hzero, add_zero]; exact o.burstMicros_pos)
    rw [hzero, add_zero, ← Int.natCast_succ] at hpoll
    exact ⟨_, _, hr.snoc hpoll, by simp [hlen], by simpa using hnone⟩

/-- One token in two thousand and forty-eight seconds, with the default lifetime. -/
def slow : Options where
  client := true
  namespace_ := ""
  ratePerSecond := .finite (1 / 2 ^ 11)
  burst := 1
  idleTTL := 0
  maxKeyBytes := 0

/-- What `normalize` makes of them: less than five hundred millionths a second, and half a
millionth a millisecond. -/
def slowNormalized : Normalized where
  namespace_ := "default"
  ratePerSecond := 1 / 2 ^ 11
  rateMicrosPerSecond := 488
  burst := 1
  burstMicros := 1000000
  idleTTL := 4096 * second
  maxKeyBytes := defaultMaxKeyBytes
  rate_pos := by decide
  burst_pos := Int.one_pos
  burstMicros_eq := tokensToMicros_one
  refill_le := by decide +kernel

/-- **A polling client may wait forever.** With these options the client that waits for two
thousand and fifty seconds finds the whole burst, and the one that has polled every
millisecond finds nothing. -/
theorem polling_delays_refill :
    ¬∀ (options : Options) (o : Normalized) (x : Expiry), options.normalize = .ok o →
      PollingIndependent o x ∧ PollingNoLater o x := by
  intro hall
  obtain ⟨hind, -⟩ := hall slow slowNormalized .atDeadline (by decide +kernel)
  have hp : slowNormalized.Precise := ⟨by decide⟩
  obtain ⟨h, decisions, hr, -, hnone⟩ := polling_starves (o := slowNormalized)
    (x := .atDeadline) (by decide) (by decide) (by decide) 2050000
  have hsame := hind _ (standing_ok 0 [] le_rfl (by decide)) rfl _ _ _ _ .nil hr
    ⟨List.nil_sublist _, hnone.symm⟩ 2050000 (by decide) (by
      change nowMs 2050000000 ≤ 2050000
      decide)
  rw [available_standing le_rfl (by decide) (by decide),
    available_standing le_rfl (by decide) (by decide)] at hsame
  exact nomatch hsame

end Bluetape.RateLimit.Redis
