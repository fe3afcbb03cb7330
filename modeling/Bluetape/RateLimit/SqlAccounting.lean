import Bluetape.Library.Account
import Bluetape.RateLimit.Sql

/-!
# What the PostgreSQL bucket hands out

The column of the tokens has six decimals, which is what a rate in millionths per second needs for a
microsecond. So every amount that the statements store is exact (`Row.Ok`), and what has been
granted and what is left add up to an account in the sense of `Account.Ledger`: over the life of a
row in any case, and over the life of a key if no statement observes an earlier time than one before
it.

All that a statement can do to a key is said once, in `Change`; the result is `accounting`.
-/

namespace Bluetape.RateLimit.Sql

open Go Lts Option List

/-! ### Exact amounts -/

/-- It has six decimals. -/
def Exact (q : ℚ) : Prop := ∃ k : ℤ, q = k / 1000000

theorem numeric6_of_exact {q : ℚ} (h : Exact q) : numeric6 q = q := by
  obtain ⟨k, rfl⟩ := h
  rw [numeric6, div_mul_cancel₀ _ (by norm_num), round_intCast]

theorem exact_intCast (n : ℤ) : Exact n := ⟨n * 1000000, by push_cast; ring⟩

theorem Exact.sub {p q : ℚ} (hp : Exact p) (hq : Exact q) : Exact (p - q) := by
  obtain ⟨k, rfl⟩ := hp
  obtain ⟨l, rfl⟩ := hq
  exact ⟨k - l, by push_cast; ring⟩

/-- A row is in order. -/
structure Row.Ok (b : Row) : Prop where
  nonneg : 0 ≤ b.tokens
  le_burst : b.tokens ≤ b.config.burstMicros
  exact : Exact b.tokens
  expiresAt : b.expiresAt = b.updatedAt + b.config.idleTTLMicros

section Refill

variable {b : Row} {observed : ℤ}

theorem refilled_eq (b : Row) (observed : ℤ) :
    refilled b observed = min (b.config.burstMicros : ℚ)
      (b.tokens + b.config.rateMicrosPerSecond / 1000000 *
        ((max b.updatedAt observed : ℤ) - b.updatedAt)) := by
  have hle : (0 : ℚ) ≤ ((max b.updatedAt observed - b.updatedAt : ℤ) : ℚ) / 1000000 :=
    div_nonneg (Int.cast_nonneg (by omega)) (by norm_num)
  rw [refilled, max_eq_right hle]
  push_cast
  ring_nf

theorem refilled_exact (hb : b.Ok) : Exact (refilled b observed) := by
  rw [refilled_eq]
  rcases min_choice (b.config.burstMicros : ℚ) (b.tokens + b.config.rateMicrosPerSecond / 1000000 *
      ((max b.updatedAt observed : ℤ) - b.updatedAt)) with h | h
  · rw [h]
    exact exact_intCast _
  · -- whole microseconds at a whole rate per second add millionths
    rw [h]
    obtain ⟨k, hk⟩ := hb.exact
    refine ⟨k + b.config.rateMicrosPerSecond * (max b.updatedAt observed - b.updatedAt), ?_⟩
    rw [hk]
    push_cast
    ring

theorem refilled_nonneg (hb : b.Ok) (observed : ℤ) : 0 ≤ refilled b observed := by
  have hrate : (0 : ℚ) ≤ b.config.rateMicrosPerSecond := Int.cast_nonneg b.config.rate_pos.le
  have hburst : (0 : ℚ) ≤ b.config.burstMicros := Int.cast_nonneg b.config.burst_pos.le
  exact le_min hburst (add_nonneg hb.nonneg (mul_nonneg (le_max_left _ _) hrate))

theorem refilled_le_burst (b : Row) (observed : ℤ) : refilled b observed ≤ b.config.burstMicros :=
  min_le_left _ _

theorem Config.Covers.burst_le {c : Config} (hcover : c.Covers) {t t' : ℤ}
    (ht : t + c.idleTTLMicros ≤ t') :
    (c.burstMicros : ℚ) ≤ c.rateMicrosPerSecond / 1000000 * (t' - t) := by
  have hmul : c.idleTTLMicros * c.rateMicrosPerSecond ≤ (t' - t) * c.rateMicrosPerSecond :=
    mul_le_mul_of_nonneg_right (by omega) c.rate_pos.le
  have hcast : (c.burstMicros : ℚ) * 1000000 ≤ (t' - t) * c.rateMicrosPerSecond := by
    exact_mod_cast hcover.trans hmul
  linarith

/-- **An expired row is full**, if the idle time refills the burst. -/
theorem refilled_of_expired (hb : b.Ok) (hcover : b.config.Covers) (hexp : Expired b observed) :
    refilled b observed = b.config.burstMicros := by
  have httl : b.updatedAt + b.config.idleTTLMicros ≤ observed := hb.expiresAt ▸ hexp
  -- the idle time is positive, so the observed time is not behind the row
  have hmax : max b.updatedAt observed = observed :=
    max_eq_right (by linarith [b.config.ttl_pos])
  rw [refilled_eq, hmax]
  refine min_eq_left ?_
  have hrefill := hcover.burst_le httl
  have hnonneg := hb.nonneg
  linarith

end Refill

/-! ### What a statement does to a key -/

/-- The row that `allowQuery` creates. -/
def created (c : Config) (requested observed : ℤ) : Row where
  config := c
  tokens := c.burstMicros - requested
  lastAllowed := true
  updatedAt := observed
  expiresAt := observed + c.idleTTLMicros

/-- The row that `allowQuery` leaves where it finds one of its configuration. -/
def served (b : Row) (requested observed : ℤ) : Row where
  config := b.config
  tokens :=
    if (requested : ℚ) ≤ refilled b observed then refilled b observed - requested
    else refilled b observed
  lastAllowed := decide ((requested : ℚ) ≤ refilled b observed)
  updatedAt := max b.updatedAt observed
  expiresAt := max b.updatedAt observed + b.config.idleTTLMicros

/-- **What a statement can do to a key**, with the time it observes. -/
inductive Change (observed : ℤ) : Slot → Slot → Prop
  /-- It works on other keys, or finds a row of another configuration. -/
  | same {s : Slot} : Change observed s s
  | insert {s : Slot} {c : Config} {requested : ℤ} : s.row = none → 0 < requested →
      requested ≤ c.burstMicros →
      Change observed s (s.insert (created c requested observed) requested)
  | update {s : Slot} {b : Row} {requested : ℤ} : s.row = some b → 0 < requested →
      Change observed s (s.update (served b requested observed) requested)
  | delete {s : Slot} {b : Row} : s.row = some b → Expired b observed →
      Change observed s s.delete

variable {c : Config} {requested observed : ℤ}

theorem allowQuery_none :
    allowQuery c requested observed none = some (created c requested observed) := by
  have hexact : Exact ((c.burstMicros : ℚ) - requested) :=
    (exact_intCast _).sub (exact_intCast _)
  rw [allowQuery, numeric6_of_exact hexact]
  rfl

variable {b : Row}

theorem served_exact (hb : b.Ok) (requested observed : ℤ) :
    Exact (served b requested observed).tokens := by
  simp only [served]
  split
  · exact (refilled_exact hb).sub (exact_intCast _)
  · exact refilled_exact hb

theorem allowQuery_some (hb : b.Ok) :
    allowQuery b.config requested observed (some b) = some (served b requested observed) := by
  have hexact := numeric6_of_exact (served_exact hb requested observed)
  simp only [served] at hexact
  rw [allowQuery, if_pos rfl, hexact]
  rfl

variable {s : Slot}

/-- `allowQuery` changes its key in one of these ways. -/
theorem change_allow (hok : ∀ b, s.row = some b → b.Ok) (hpos : 0 < requested)
    (hle : requested ≤ c.burstMicros) : Change observed s (s.allow c requested observed) := by
  obtain hnone | ⟨b, hb⟩ := Option.eq_none_or_eq_some s.row
  · have hallow : s.allow c requested observed =
        s.insert (created c requested observed) requested := by
      rw [Slot.allow, hnone, allowQuery_none]
      exact if_pos rfl
    rw [hallow]
    exact .insert hnone hpos hle
  · by_cases hconfig : b.config = c
    · have hallow : s.allow c requested observed =
          s.update (served b requested observed) requested := by
        rw [Slot.allow, hb, ← hconfig, allowQuery_some (hok b hb)]
        exact if_neg (by simp)
      rw [hallow]
      exact .update hb hpos
    · have hallow : s.allow c requested observed = s := by
        rw [Slot.allow, hb, allowQuery, if_neg hconfig]
      rw [hallow]
      exact .same

/-- **A step changes every key in one of these ways.** -/
theorem change_of_step {y y' : Sys} {e : Label} {key : String}
    (hok : ∀ b, (y key).row = some b → b.Ok) (h : step y e = some y') :
    Change e.observed (y key) (y' key) := by
  cases e with
  | allow c k requested observed =>
    simp only [step, ite_none_right_eq_some, Option.some.injEq] at h
    obtain ⟨⟨hpos, hle⟩, rfl⟩ := h
    by_cases hkey : key = k
    · subst hkey
      rw [Function.update_self]
      exact change_allow hok hpos hle
    · rw [Function.update_of_ne hkey]
      exact .same
  | cleanup limit deleted observed =>
    simp only [step, ite_none_right_eq_some, Option.some.injEq] at h
    obtain ⟨⟨-, -, hexp⟩, rfl⟩ := h
    dsimp only
    by_cases hkey : key ∈ deleted
    · obtain ⟨b, hb, hexpired⟩ := hexp key hkey
      rw [if_pos hkey]
      exact .delete hb hexpired
    · rw [if_neg hkey]
      exact .same

/-! ### The life of a row -/

/-- The grants fit an account of this burst and rate, which now stands at `level`. -/
abbrev Config.Ledger (c : Config) (grants : List (ℚ × ℚ)) (now : ℤ) (level : ℚ) : Prop :=
  Account.Ledger (c.burstMicros : ℚ) (c.rateMicrosPerSecond / 1000000) grants now level

theorem created_ok (hpos : 0 < requested) (hle : requested ≤ c.burstMicros) (observed : ℤ) :
    (created c requested observed).Ok := by
  have hpos' : (0 : ℚ) < requested := Int.cast_pos.mpr hpos
  have hle' : (requested : ℚ) ≤ c.burstMicros := Int.cast_le.mpr hle
  refine ⟨sub_nonneg.mpr hle', ?_, (exact_intCast _).sub (exact_intCast _), rfl⟩
  exact sub_le_self _ hpos'.le

theorem served_ok (hb : b.Ok) (hpos : 0 < requested) : (served b requested observed).Ok := by
  have hpos' : (0 : ℚ) < requested := Int.cast_pos.mpr hpos
  have hnonneg := refilled_nonneg hb observed
  have hburst := refilled_le_burst b observed
  refine ⟨?_, ?_, served_exact hb requested observed, rfl⟩
  · simp only [served]
    split <;> linarith
  · simp only [served]
    split <;> linarith

theorem served_tokens_add (b : Row) (requested observed : ℤ) :
    (served b requested observed).tokens + ((served b requested observed).grant requested).2 =
      refilled b observed := by
  simp only [served, Row.grant, decide_eq_true_eq]
  split
  · ring
  · ring

variable {grants : List (ℚ × ℚ)}

/-- **Serving a row continues its account.** -/
theorem ledger_served (hb : b.Ok) (hpos : 0 < requested)
    (hl : b.config.Ledger grants b.updatedAt b.tokens) :
    (served b requested observed).config.Ledger
      ((served b requested observed).grant requested :: grants)
      (served b requested observed).updatedAt (served b requested observed).tokens := by
  have hsum := served_tokens_add b requested observed
  have hupd : b.updatedAt ≤ (served b requested observed).updatedAt := le_max_left _ _
  have hrefill : refilled b observed ≤ b.tokens + b.config.rateMicrosPerSecond / 1000000 *
      ((served b requested observed).updatedAt - b.updatedAt) := by
    rw [refilled_eq]
    exact min_le_right _ _
  exact .grant hl (Int.cast_le.mpr hupd) (served_ok hb hpos).nonneg
    (hsum.trans_le (refilled_le_burst b observed)) (hsum.trans_le hrefill)

/-- What is granted fits an account. -/
structure Accounted (s : Slot) : Prop where
  ok : ∀ b, s.row = some b → b.Ok
  ledger : ∀ b, s.row = some b → b.config.Ledger s.life b.updatedAt b.tokens
  since : ∀ g ∈ s.life, (s.createdAt : ℚ) ≤ g.1
  created_le : ∀ b, s.row = some b → s.createdAt ≤ b.updatedAt

theorem accounted_of_none (hrow : s.row = none) (hlife : s.life = []) : Accounted s := by
  refine ⟨?_, ?_, ?_, ?_⟩
  · exact fun b hb => nomatch hrow.symm.trans hb
  · exact fun b hb => nomatch hrow.symm.trans hb
  · exact fun g hg => absurd (hlife ▸ hg) (by simp)
  · exact fun b hb => nomatch hrow.symm.trans hb

theorem accounted_of_some (hrow : s.row = some b) (hok : b.Ok)
    (hledger : b.config.Ledger s.life b.updatedAt b.tokens)
    (hsince : ∀ g ∈ s.life, (s.createdAt : ℚ) ≤ g.1) (hcreated : s.createdAt ≤ b.updatedAt) :
    Accounted s := by
  refine ⟨?_, ?_, hsince, ?_⟩ <;> rintro b' hb' <;> cases hrow.symm.trans hb' <;> assumption

variable {s' : Slot}

/-- **Every statement keeps the account of a row in order.** -/
theorem accounted_change (hinv : Accounted s) (h : Change observed s s') : Accounted s' := by
  cases h with
  | same => exact hinv
  | @insert c requested _ hpos hle =>
    have hok := created_ok hpos hle observed
    refine accounted_of_some rfl hok (.opened hok.nonneg ?_) ?_ le_rfl
    · simp [created]
    · exact forall_mem_singleton.mpr le_rfl
  | @update b requested hb hpos =>
    obtain ⟨hok, hledger, hsince, hcreated⟩ := hinv
    have hupd : s.createdAt ≤ (served b requested observed).updatedAt :=
      (hcreated b hb).trans (le_max_left _ _)
    exact accounted_of_some rfl (served_ok (hok b hb) hpos)
      (ledger_served (hok b hb) hpos (hledger b hb))
      (forall_mem_cons.mpr ⟨Int.cast_le.mpr hupd, hsince⟩) hupd
  | delete _ _ => exact accounted_of_none rfl rfl

variable {h : List Ev}

/-- **In every run the account of every row is in order.** -/
theorem accounted_of_runs {y : Sys} (hr : Runs h y) (key : String) : Accounted (y key) :=
  hr.invariant (P := fun y => Accounted (y key)) (accounted_of_none rfl rfl)
    fun _ _ _ hinv hs => accounted_change hinv (change_of_step hinv.ok hs)

/-- All of it. -/
def granted (grants : List (ℚ × ℚ)) : ℚ := (grants.map Prod.snd).sum

theorem Config.granted_le {now since : ℤ} {level : ℚ} (hl : c.Ledger grants now level)
    (hsince : ∀ g ∈ grants, (since : ℚ) ≤ g.1) :
    granted grants ≤ c.burstMicros + c.rateMicrosPerSecond * ((now - since) / 1000000) := by
  have hrate : (0 : ℚ) ≤ c.rateMicrosPerSecond / 1000000 :=
    div_nonneg (Int.cast_nonneg c.rate_pos.le) (by norm_num)
  have htotal := hl.total_le hrate hsince
  have hlevel := hl.level_nonneg
  have hsame : (c.rateMicrosPerSecond : ℚ) / 1000000 * (now - since) =
      c.rateMicrosPerSecond * ((now - since) / 1000000) := by ring
  rw [hsame] at htotal
  exact le_trans (le_add_of_nonneg_right hlevel) htotal

/-! ### The life of a key -/

/-- The statement observes no earlier time than one before it. -/
def InOrder (older : List Ev) (ev : Ev) : Prop :=
  ∀ ev' ∈ older, ev'.label.observed ≤ ev.label.observed

theorem inOrder_of_sorted (hsorted : (h.map fun ev => ev.label.observed).Pairwise (· ≥ ·)) :
    Always InOrder h := by
  induction h with
  | nil => exact always_nil _
  | cons ev h ih =>
    obtain ⟨hev, hrest⟩ := pairwise_cons.mp hsorted
    refine (always_cons _ _ _).mpr ⟨fun ev' hev' => ?_, ih hrest⟩
    exact hev _ (mem_map_of_mem hev')

/-- All rows have this configuration. -/
def UsesConfig (key : String) (c : Config) (_ : List Ev) (ev : Ev) : Prop :=
  ∀ b, (ev.after key).row = some b → b.config = c

/-- All rows of a key together stand where their grants say; if there is no row, the idle
time of the last one is over. -/
structure Lasting (c : Config) (h : List Ev) (s : Slot) : Prop where
  config : ∀ b, s.row = some b → b.config = c
  live : ∀ b, s.row = some b → c.Ledger (s.life ++ s.past) b.updatedAt b.tokens
  gone : s.row = none → s.past = [] ∨ ∃ t level, c.Ledger s.past t level ∧ s.openedAt ≤ t ∧
    ∃ ev ∈ h, t + c.idleTTLMicros ≤ ev.label.observed
  since : ∀ g ∈ s.life ++ s.past, (s.openedAt : ℚ) ≤ g.1
  opened_le : ∀ b, s.row = some b → s.openedAt ≤ b.updatedAt

theorem lasting_of_some (hrow : s.row = some b) (hconfig : b.config = c)
    (hlive : c.Ledger (s.life ++ s.past) b.updatedAt b.tokens)
    (hsince : ∀ g ∈ s.life ++ s.past, (s.openedAt : ℚ) ≤ g.1) (hopened : s.openedAt ≤ b.updatedAt) :
    Lasting c h s := by
  refine ⟨?_, ?_, fun hnone => (nomatch hrow.symm.trans hnone), hsince, ?_⟩ <;>
    rintro b' hb' <;> cases hrow.symm.trans hb' <;> assumption

/-- **A new row continues the account of the old ones**, whose idle time is over. -/
theorem ledger_created (hcover : c.Covers) {t : ℤ} {level : ℚ} (hpos : 0 < requested)
    (hle : requested ≤ c.burstMicros) (hl : c.Ledger grants t level)
    (ht : t + c.idleTTLMicros ≤ observed) :
    c.Ledger ((created c requested observed).grant requested :: grants) observed
      (created c requested observed).tokens := by
  have hsum : (created c requested observed).tokens +
      ((created c requested observed).grant requested).2 = c.burstMicros := by
    simp [created, Row.grant]
  have htime : (t : ℚ) ≤ observed := Int.cast_le.mpr (by linarith [c.ttl_pos])
  have hrefill : (c.burstMicros : ℚ) ≤
      level + c.rateMicrosPerSecond / 1000000 * (observed - t) :=
    (hcover.burst_le ht).trans (le_add_of_nonneg_left hl.level_nonneg)
  exact .grant hl htime (created_ok hpos hle observed).nonneg hsum.le (hsum.trans_le hrefill)

theorem Lasting.insert (hcover : c.Covers) {ev : Ev} (hinv : Lasting c h s) (horder : InOrder h ev)
    (hnone : s.row = none) (hpos : 0 < requested) (hle : requested ≤ c.burstMicros) :
    Lasting c (ev :: h) (s.insert (created c requested ev.label.observed) requested) := by
  have hok := created_ok hpos hle ev.label.observed
  -- the first row of a key opens its account; later ones find the idle time over
  have hopened : c.Ledger ((created c requested ev.label.observed).grant requested :: s.past)
        ev.label.observed (created c requested ev.label.observed).tokens ∧
      (if s.past = [] then ev.label.observed else s.openedAt) ≤ ev.label.observed ∧
      ∀ g ∈ s.past, ((if s.past = [] then ev.label.observed else s.openedAt : ℤ) : ℚ) ≤ g.1 := by
    by_cases hpast : s.past = []
    · rw [if_pos hpast, hpast]
      refine ⟨.opened hok.nonneg ?_, le_rfl, nofun⟩
      simp [created]
    · obtain ⟨t, level, hl, hle', ev', hmem, hidle⟩ := (hinv.gone hnone).resolve_left hpast
      have htime : t + c.idleTTLMicros ≤ ev.label.observed := hidle.trans (horder ev' hmem)
      rw [if_neg hpast]
      exact ⟨ledger_created hcover hpos hle hl htime, by linarith [c.ttl_pos],
        fun g hg => hinv.since g (mem_append_right _ hg)⟩
  obtain ⟨hledger, hle', hpast⟩ := hopened
  exact lasting_of_some rfl rfl hledger (forall_mem_cons.mpr ⟨Int.cast_le.mpr hle', hpast⟩) hle'

theorem Lasting.update {ev : Ev} (hinv : Lasting c h s) (hb : s.row = some b) (hok : b.Ok)
    (hpos : 0 < requested) :
    Lasting c (ev :: h) (s.update (served b requested ev.label.observed) requested) := by
  obtain rfl := hinv.config b hb
  have hupd : s.openedAt ≤ (served b requested ev.label.observed).updatedAt :=
    (hinv.opened_le b hb).trans (le_max_left _ _)
  exact lasting_of_some rfl rfl (ledger_served hok hpos (hinv.live b hb))
    (forall_mem_cons.mpr ⟨Int.cast_le.mpr hupd, hinv.since⟩) hupd

theorem Lasting.delete {ev : Ev} (hinv : Lasting c h s) (hb : s.row = some b) (hok : b.Ok)
    (hexp : Expired b ev.label.observed) : Lasting c (ev :: h) s.delete := by
  have hidle : b.updatedAt + c.idleTTLMicros ≤ ev.label.observed := by
    rw [← hinv.config b hb, ← hok.expiresAt]
    exact hexp
  refine ⟨nofun, nofun, fun _ => ?_, hinv.since, nofun⟩
  exact .inr ⟨b.updatedAt, b.tokens, hinv.live b hb, hinv.opened_le b hb, ev, mem_cons_self, hidle⟩

/-- **Every statement in order keeps the account of a key in order**, if the idle time
refills the burst. -/
theorem lasting_change (hcover : c.Covers) (ev : Ev) (hacc : Accounted s) (hinv : Lasting c h s)
    (horder : InOrder h ev) (hconfig : ∀ b, s'.row = some b → b.config = c)
    (hchange : Change ev.label.observed s s') : Lasting c (ev :: h) s' := by
  cases hchange with
  | same =>
    refine ⟨hconfig, hinv.live, fun hnone => ?_, hinv.since, hinv.opened_le⟩
    rcases hinv.gone hnone with hpast | ⟨t, level, hl, hle, hidle⟩
    · exact .inl hpast
    · exact .inr ⟨t, level, hl, hle, exists_mem_cons_of_exists hidle⟩
  | @insert c' requested hnone hpos hle =>
    obtain rfl : c' = c := hconfig _ rfl
    exact hinv.insert hcover horder hnone hpos hle
  | @update b requested hb hpos => exact hinv.update hb (hacc.ok b hb) hpos
  | @delete b hb hexp => exact hinv.delete hb (hacc.ok b hb) hexp

theorem lasting_of_runs (hcover : c.Covers) {y : Sys} {key : String} (hr : Runs h y)
    (horder : Always InOrder h) (huses : Always (UsesConfig key c) h) :
    Lasting c h (y key) := by
  have hall : Always (fun older ev => InOrder older ev ∧ UsesConfig key c older ev) h :=
    fun older ev hsuf => ⟨horder older ev hsuf, huses older ev hsuf⟩
  have hinv : Accounted (y key) ∧ Lasting c h (y key) := by
    refine hr.invariant_of (P := fun h y => Accounted (y key) ∧ Lasting c h (y key)) hall ?_ ?_
    · refine ⟨accounted_of_none rfl rfl, ⟨?_, ?_, fun _ => .inl rfl, ?_, ?_⟩⟩
      · exact nofun
      · exact nofun
      · exact nofun
      · exact nofun
    · rintro h s e s' ⟨hacc, hinv⟩ hs ⟨hord, huse⟩
      have hchange := change_of_step hacc.ok hs
      exact ⟨accounted_change hacc hchange,
        lasting_change hcover ⟨s, e, s'⟩ hacc hinv hord huse hchange⟩
  exact hinv.2

/-! ### The accounting of the table -/

theorem Change.updatedAt_le (h : Change observed s s') {b' : Row} (hb : s.row = some b)
    (hb' : s'.row = some b') : b.updatedAt ≤ b'.updatedAt := by
  cases h with
  | same =>
    obtain rfl := mem_unique hb hb'
    exact le_rfl
  | insert hnone _ _ => exact nomatch hnone.symm.trans hb
  | update hrow _ =>
    obtain rfl := mem_unique hrow hb
    cases hb'
    exact le_max_left _ _
  | delete _ _ => exact nomatch hb'

theorem Change.expired (h : Change observed s s') (hb : s.row = some b) (hnone : s'.row = none) :
    Expired b observed := by
  cases h with
  | same => exact nomatch hnone.symm.trans hb
  | insert _ _ _ => exact nomatch hnone
  | update _ _ => exact nomatch hnone
  | delete hrow hexp =>
    obtain rfl := mem_unique hrow hb
    exact hexp

/-- **The accounting of the table.** In every run of `allowQuery` and `cleanupQuery`, whatever
times they observe:

* the tokens of every row lie between nothing and the burst;
* the time of update of a row does not move back while the row lives;
* a row that is deleted is full at the time observed, if its idle time refills the burst;
* what the statements on a row have granted comes to at most the burst and the refill from
  its creation to its last update;
* and the same holds of a key, from the creation of its first row to the last update of the
  present one, if its rows have one configuration, whose idle time refills the burst, and
  no statement observes an earlier time than one before it. -/
theorem accounting {h : List Ev} {y : Sys} (hr : Runs h y) :
    (∀ key b, (y key).row = some b → 0 ≤ b.tokens ∧ b.tokens ≤ b.config.burstMicros) ∧
    (∀ ev ∈ h, ∀ key b b', (ev.before key).row = some b → (ev.after key).row = some b' →
      b.updatedAt ≤ b'.updatedAt) ∧
    (∀ ev ∈ h, ∀ key b, (ev.before key).row = some b → (ev.after key).row = none →
      b.config.Covers → refilled b ev.label.observed = b.config.burstMicros) ∧
    (∀ key b, (y key).row = some b → granted (y key).life ≤ b.config.burstMicros +
        b.config.rateMicrosPerSecond * ((b.updatedAt - (y key).createdAt) / 1000000)) ∧
    (∀ key c, c.Covers → Always (UsesConfig key c) h → Always InOrder h →
      ∀ b, (y key).row = some b →
        granted ((y key).life ++ (y key).past) ≤ c.burstMicros +
          c.rateMicrosPerSecond * ((b.updatedAt - (y key).openedAt) / 1000000)) := by
  have hchange : ∀ key, ∀ ev ∈ h, Accounted (ev.before key) ∧
      Change ev.label.observed (ev.before key) (ev.after key) := by
    intro key
    refine hr.forall_mem (I := fun y => Accounted (y key)) (accounted_of_none rfl rfl) ?_ ?_
    · exact fun _ _ _ hinv hs => accounted_change hinv (change_of_step hinv.ok hs)
    · exact fun _ _ _ hinv hs => ⟨hinv, change_of_step hinv.ok hs⟩
  refine ⟨?_, ?_, ?_, ?_, ?_⟩
  · intro key b hb
    have hok := (accounted_of_runs hr key).ok b hb
    exact ⟨hok.nonneg, hok.le_burst⟩
  · intro ev hev key b b' hb hb'
    exact (hchange key ev hev).2.updatedAt_le hb hb'
  · intro ev hev key b hb hnone hcover
    obtain ⟨hacc, hch⟩ := hchange key ev hev
    exact refilled_of_expired (hacc.ok b hb) hcover (hch.expired hb hnone)
  · intro key b hb
    have hacc := accounted_of_runs hr key
    exact Config.granted_le (hacc.ledger b hb) hacc.since
  · intro key c hcover huses horder b hb
    have hinv := lasting_of_runs hcover hr horder huses
    exact Config.granted_le (hinv.live b hb) hinv.since

/-- A token a second. -/
def oneASecond : Config where
  rateMicrosPerSecond := 1000000
  burstMicros := 1000000
  idleTTLMicros := 1000000
  rate_pos := by decide
  burst_pos := by decide
  ttl_pos := by decide

/-- Two tokens a second. -/
def twoASecond : Config where
  rateMicrosPerSecond := 2000000
  burstMicros := 1000000
  idleTTLMicros := 1000000
  rate_pos := by decide
  burst_pos := by decide
  ttl_pos := by decide

/-- A granted request, one of another configuration, one that is refused, a cleanup, and a
request that is granted by a new row: two tokens in a second and a half. -/
theorem accounting_recreated :
    ∃ h y, Runs h y ∧ granted ((y "k").life ++ (y "k").past) = 2000000 ∧
      granted ((y "k").life ++ (y "k").past) ≤ 1000000 + 1000000 * ((1500000 - 0) / 1000000) := by
  obtain ⟨h, y, hr, hy, hsorted, huses⟩ := exists_run step (fun _ => {})
    [.allow oneASecond "k" 1000000 0, .allow twoASecond "k" 1000000 0,
      .allow oneASecond "k" 1000000 500000, .cleanup 10 ["k"] 1500000,
      .allow oneASecond "k" 1000000 1500000]
    (fun (h : List Ev) (y : Sys) => y "k" =
        { row := some ⟨oneASecond, 0, true, 1500000, 2500000⟩
          createdAt := 1500000
          openedAt := 0
          life := [(1500000, 1000000)]
          past := [(500000, 0), (0, 1000000)] } ∧
      (h.map fun ev : Ev => ev.label.observed).Pairwise (· ≥ ·) ∧
        ∀ ev ∈ h, ∀ b ∈ (ev.after "k").row, b.config = oneASecond)
    (by decide +kernel)
  have huses' : Always (UsesConfig "k" oneASecond) h := always_iff_forall_mem.mpr huses
  obtain ⟨-, -, -, -, hkey⟩ := accounting hr
  have hbound := hkey "k" oneASecond (by decide) huses' (inOrder_of_sorted hsorted) _ (by rw [hy])
  refine ⟨h, y, hr, ?_, ?_⟩
  · rw [hy]
    norm_num [granted]
  · rw [hy] at hbound ⊢
    simpa [oneASecond] using hbound

end Bluetape.RateLimit.Sql
