import Bluetape.Jwt.JwksFlights

/-!
# The fetches of the JWKS provider

What holds in every run of `Lookup` calls whose contexts do not end, without an explicit `Refresh`
(`fetches_bounded`).

* **One fetch at a time.**
* **Fetches are apart**, by `cacheTTL` or `refreshCooldown`, if no fetch is started on a clock
  reading that is older than the end of another fetch (`Prompt`).
* **A key comes from a young snapshot** (`Returns`).

Without the condition the second one fails (`refetched`): `refresh` does not look at the snapshot
again, so that a call that has found no snapshot fetches one although another call has just done so.
-/

namespace Bluetape.Jwks

open Lts Option List

variable {κ ε : Type}

/-! ### What is stated -/

def Label.reading : Label κ ε → Option ℤ
  | .call _ (.read now) => some now
  | .call _ (.decide now) => some now
  | .call _ (.stamp now) => some now
  | .call _ (.finish now) => some now
  | _ => none

/-- The step of a call in which it reads the clock for its check. -/
def Label.reads (i : ℕ) : Label κ ε → Bool
  | .call j (.read _) => decide (j = i)
  | _ => false

def Label.finishes : Label κ ε → Bool
  | .call _ (.finish _) => true
  | _ => false

/-- The section of `refresh` that may start a fetch. -/
def Label.decides : Label κ ε → Bool
  | .call _ (.decide _) => true
  | _ => false

/-- **A fetch starts**, at the reading of the clock. -/
def Starts (ev : Ev κ ε) : Prop :=
  ev.label.decides = true ∧ ev.before.flights.length < ev.after.flights.length
  deriving Decidable

/-- **A fetch has finished**, at a reading of the clock. -/
def Finishes (t : ℤ) (ev : Ev κ ε) : Prop := ev.label.finishes = true ∧ ev.before.held = some t

/-- **No fetch has finished since the call has read the clock.** -/
def Fresh (i : ℕ) (h : List (Ev κ ε)) : Prop :=
  ∀ ev ∈ h.takeWhile fun ev => !ev.label.reads i, ev.label.finishes = false
  deriving Decidable

/-- **Whoever starts a fetch** has read the clock after the last one. -/
def Prompt (older : List (Ev κ ε)) (ev : Ev κ ε) : Prop :=
  Starts ev → ∀ i ∈ ev.label.actor, Fresh i older
  deriving Decidable

/-! ### Fetches are apart -/

def Done (h : List (Ev κ ε)) (t : ℤ) : Prop := ∃ ev ∈ h, Finishes t ev

/-- **What a call knows** of the snapshot and of the fetches, as long as it is fresh. A refresh that
is not forced finds the snapshot expired until it ends. -/
def ReadOk (cfg : Config) (h : List (Ev κ ε)) (y : Sys κ ε) (i : ℕ) (c : Call κ ε) : Prop :=
  match c.phase with
  | .checking now => Fresh i h → now ≤ y.clock ∧ ∀ t, Done h t → t ≤ now
  | .deciding => Fresh i h →
    (c.forced = true → ∃ p now, y.publication = some p ∧ now < p.fetchedAt + cfg.cacheTTL ∧
      ∀ t, Done h t → t ≤ now) ∧
    (c.forced = false → Expired cfg y.publication y.clock)
  | .fetching _ => c.forced = false → Expired cfg y.publication y.clock
  | .finishing _ _ => c.forced = false → Expired cfg y.publication y.clock
  | .stamped _ _ => c.forced = false → ∀ t, y.held = some t → Expired cfg y.publication t
  | _ => True

/-- **What the provider knows** of the fetches that have finished. -/
structure Apart (cfg : Config) (h : List (Ev κ ε)) (y : Sys κ ε) : Prop where
  late : ∀ t, Done h t → t ≤ y.clock
  held : ∀ t, y.held = some t → ∀ t', Done h t' → t' ≤ t
  snapshot : y.refreshError = none →
    ∀ t, Done h t → ∃ p, y.publication = some p ∧ t ≤ p.fetchedAt
  failed : y.refreshError ≠ none → ∀ t, Done h t → t ≤ y.refreshErrorAt
  /-- The last fetch is an anchor of the cooldown, or it was not forced and has failed. -/
  forced : ∀ t, Done h t → (y.forcedAt ≠ 0 ∧ t ≤ y.forcedAt) ∨
    ∃ t', Done h t' ∧ Expired cfg y.publication t'
  calls : ∀ (i : ℕ) (c : Call κ ε), y.calls[i]? = some c → ReadOk cfg h y i c

/-- The provider is as before; time may have passed, and a snapshot may be about to be published. -/
structure Keeps (y y' : Sys κ ε) : Prop where
  publication : y'.publication = y.publication
  held : ∀ t, y'.held = some t → y.held = some t ∨ y.clock ≤ t
  forcedAt : y'.forcedAt = y.forcedAt
  refreshError : y'.refreshError = y.refreshError
  refreshErrorAt : y'.refreshErrorAt = y.refreshErrorAt
  clock : y.clock ≤ y'.clock

section Spaced

variable {cfg : Config} {h : List (Ev κ ε)} {y y' : Sys κ ε} {ev : Ev κ ε} {i : ℕ}
  {c : Call κ ε} {now t : ℤ}

theorem done_cons (hev : ev.label.finishes = false) : Done (ev :: h) t ↔ Done h t := by
  refine (exists_mem_cons_iff _ _ _).trans (or_iff_right fun hfin => ?_)
  exact nomatch hev.symm.trans hfin.1

/-- A call that has not read the clock anew is fresh only if no fetch has finished. -/
theorem Fresh.of_cons (hfresh : Fresh i (ev :: h)) (hread : ev.label.reads i = false) :
    ev.label.finishes = false ∧ Fresh i h := by
  have hcons : (ev :: h).takeWhile (fun ev => !ev.label.reads i) =
      ev :: h.takeWhile fun ev => !ev.label.reads i := by
    rw [takeWhile_cons, hread]
    rfl
  unfold Fresh at hfresh
  rw [hcons, forall_mem_cons] at hfresh
  exact hfresh

theorem Expired.mono {publication : Option (Publication κ)} {t t' : ℤ}
    (hexp : Expired cfg publication t) (hle : t ≤ t') : Expired cfg publication t' :=
  fun p hp => Int.le_trans (hexp p hp) hle

/-- **A call that does not move** knows what it knew. -/
theorem ReadOk.keep (hok : ReadOk cfg h y i c) (hkeeps : Keeps y y')
    (hread : ev.label.reads i = false) (hfin : ev.label.finishes = false)
    (hheld : y'.held = y.held ∨ ∀ f, ¬c.phase.Owns f) : ReadOk cfg (ev :: h) y' i c := by
  unfold ReadOk at hok ⊢
  cases hphase : c.phase with
  | checking now =>
    rw [hphase] at hok
    intro hfresh
    obtain ⟨hnow, hdone⟩ := hok (hfresh.of_cons hread).2
    exact ⟨Int.le_trans hnow hkeeps.clock, fun t ht => hdone t ((done_cons hfin).mp ht)⟩
  | deciding =>
    rw [hphase] at hok
    intro hfresh
    obtain ⟨hforced, hexp⟩ := hok (hfresh.of_cons hread).2
    rw [hkeeps.publication]
    refine ⟨fun hf => ?_, fun hf => (hexp hf).mono hkeeps.clock⟩
    obtain ⟨p, now, hp, hnow, hdone⟩ := hforced hf
    exact ⟨p, now, hp, hnow, fun t ht => hdone t ((done_cons hfin).mp ht)⟩
  | fetching f | finishing f o =>
    rw [hphase] at hok
    rw [hkeeps.publication]
    exact fun hf => (hok hf).mono hkeeps.clock
  | stamped f o =>
    rw [hphase] at hok hheld
    rw [hkeeps.publication, hheld.resolve_right fun hnot => hnot f rfl]
    exact hok
  | _ => trivial

section

variable (hap : Apart cfg h y)
include hap

/-- **A step that leaves the provider as it is.** -/
theorem Apart.keep (hkeeps : Keeps y y') (hfin : ev.label.finishes = false)
    (hcalls : ∀ (j : ℕ) (d : Call κ ε), y'.calls[j]? = some d →
      ReadOk cfg (ev :: h) y' j d ∨ ev.label.reads j = false ∧ y.calls[j]? = some d ∧
        (y'.held = y.held ∨ ∀ f, ¬d.phase.Owns f)) :
    Apart cfg (ev :: h) y' := by
  refine ⟨fun t ht => ?_, fun t ht t' ht' => ?_, fun hnone t ht => ?_, fun hsome t ht => ?_,
    fun t ht => ?_, fun j d hj => ?_⟩
  · exact Int.le_trans (hap.late t ((done_cons hfin).mp ht)) hkeeps.clock
  · rcases hkeeps.held t ht with hold | hnew
    · exact hap.held t hold t' ((done_cons hfin).mp ht')
    · exact Int.le_trans (hap.late t' ((done_cons hfin).mp ht')) hnew
  · rw [hkeeps.publication]
    exact hap.snapshot (hkeeps.refreshError ▸ hnone) t ((done_cons hfin).mp ht)
  · rw [hkeeps.refreshErrorAt]
    exact hap.failed (hkeeps.refreshError ▸ hsome) t ((done_cons hfin).mp ht)
  · rw [hkeeps.forcedAt, hkeeps.publication]
    rcases hap.forced t ((done_cons hfin).mp ht) with hanchor | ⟨t', ht', hexp⟩
    · exact .inl hanchor
    · exact .inr ⟨t', (done_cons hfin).mpr ht', hexp⟩
  · rcases hcalls j d hj with hok | ⟨hread, hj', hheld⟩
    · exact hok
    · exact (hap.calls j d hj').keep hkeeps hread hfin hheld

theorem Apart.move {a : Act} {c' : Call κ ε} {flight : Option ℕ} {flights : List (Flight κ ε)}
    (hi : y.calls[i]? = some c) (hclock : y.clock ≤ now)
    (hfin : (Label.call i a : Label κ ε).finishes = false)
    (hok : ReadOk cfg (⟨y, .call i a, { y.setCall i c' with
      clock := now, flight := flight, flights := flights }⟩ :: h)
      { y.setCall i c' with clock := now, flight := flight, flights := flights } i c') :
    Apart cfg (⟨y, .call i a, { y.setCall i c' with
      clock := now, flight := flight, flights := flights }⟩ :: h)
      { y.setCall i c' with clock := now, flight := flight, flights := flights } := by
  refine hap.keep ⟨rfl, fun _ ht => .inl ht, rfl, rfl, rfl, hclock⟩ hfin fun j d hj => ?_
  rcases getElem?_set_cases hj with ⟨rfl, rfl⟩ | ⟨hne, hj⟩
  · exact .inl hok
  · refine .inr ⟨?_, hj, .inl rfl⟩
    cases a with
    | read now => exact decide_eq_false (Ne.symm hne)
    | _ => rfl

omit hap in
theorem readOk_resume {err : Option (Err ε)} : ReadOk cfg h y i (resume c err) := by
  unfold ReadOk
  rcases resume_phase c err with hphase | hphase | ⟨r, hphase, -⟩ <;> rw [hphase] <;> trivial

theorem Apart.stamp {f : ℕ} {o : Outcome κ ε} (hinv : Inv cfg h y)
    (hi : y.calls[i]? = some c) (hphase : c.phase = .finishing f o) (hclock : y.clock ≤ now)
    (hy' : y' = { y.setCall i { c with phase := .stamped f o } with
      clock := now, held := some now }) :
    Apart cfg (⟨y, .call i (.stamp now), y'⟩ :: h) y' := by
  subst hy'
  have hknown := hap.calls i c hi
  unfold ReadOk at hknown
  rw [hphase] at hknown
  refine hap.keep ⟨rfl, fun t ht => ?_, rfl, rfl, rfl, hclock⟩ rfl fun j d hj => ?_
  · exact .inr (Int.le_trans hclock (Int.le_of_eq (Option.some.inj ht)))
  · rcases getElem?_set_cases hj with ⟨rfl, rfl⟩ | ⟨hne, hj⟩
    · refine .inl fun hforced t ht => ?_
      cases ht
      exact (hknown hforced).mono hclock
    · refine .inr ⟨rfl, hj, .inr fun g hg => hne (hinv.one j i d c g f hj hi hg ?_)⟩
      rw [hphase]
      rfl

omit hap in
theorem readOk_of_finishes (hev : ev.label.finishes = true) (hread : ev.label.reads i = false)
    (howns : ∀ f, ¬c.phase.Owns f) : ReadOk cfg (ev :: h) y i c := by
  have hstale : ¬Fresh i (ev :: h) := by
    intro hfresh
    exact Bool.false_ne_true ((hfresh.of_cons hread).1.symm.trans hev)
  unfold ReadOk
  cases hphase : c.phase with
  | checking now | deciding => exact fun hfresh => absurd hfresh hstale
  | fetching f | finishing f o | stamped f o =>
    rw [hphase] at howns
    exact absurd rfl (howns f)
  | _ => trivial

theorem Apart.finish {f : ℕ} {fl : Flight κ ε} {t : ℤ} {o : Outcome κ ε}
    (hinv : Inv cfg h y) (hi : y.calls[i]? = some c) (hphase : c.phase = .stamped f o)
    (hheld : y.held = some t) (hclock : y.clock ≤ now) (hzero : now ≠ 0)
    (hy' : y' = (finishRefresh y f fl c.forced t now o).setCall i (resume c o.err)) :
    Apart cfg (⟨y, .call i (.finish now), y'⟩ :: h) y' := by
  obtain ⟨-, -, hok⟩ := hinv.calls i c hi
  rw [hphase] at hok
  have hknown := hap.calls i c hi
  unfold ReadOk at hknown
  rw [hphase] at hknown
  have htclock : t ≤ y.clock := hinv.stamps t (.inr hheld)
  have hdone : ∀ {t'}, Done (⟨y, .call i (.finish now), y'⟩ :: h) t' → t' ≤ t := by
    rintro t' ⟨ev, hmem, hev⟩
    rcases mem_cons.mp hmem with rfl | hold
    · exact Int.le_of_eq (mem_unique hev.2 hheld)
    · exact hap.held t hheld t' ⟨ev, hold, hev⟩
  have hcalls : ∀ (j : ℕ) (d : Call κ ε), (y.calls.set i (resume c o.err))[j]? = some d →
      ReadOk cfg (⟨y, .call i (.finish now), y'⟩ :: h) y' j d := by
    intro j d hj
    rcases getElem?_set_cases hj with ⟨rfl, rfl⟩ | ⟨hne, hj⟩
    · exact readOk_resume
    · refine readOk_of_finishes rfl rfl fun g hg => hne (hinv.one j i d c g f hj hi hg ?_)
      rw [hphase]
      rfl
  have hnow : t ≤ now := Int.le_trans htclock hclock
  subst hy'
  cases o with
  | canceled => exact absurd hok.2.2.1 Bool.false_ne_true.symm
  | fetched r =>
    cases r with
    | keys keys =>
      refine ⟨fun t' ht' => Int.le_trans (hdone ht') hnow, nofun,
        fun _ t' ht' => ⟨_, rfl, hdone ht'⟩, fun hsome => absurd rfl hsome,
        fun t' ht' => .inl ⟨hzero, Int.le_trans (hdone ht') hnow⟩, hcalls⟩
    | error e =>
      refine ⟨fun t' ht' => Int.le_trans (hdone ht') hnow, nofun,
        nofun, fun _ t' ht' => hdone ht', fun t' ht' => ?_, hcalls⟩
      cases hforced : c.forced with
      | true => exact .inl ⟨hzero, Int.le_trans (hdone ht') hnow⟩
      | false =>
        exact .inr ⟨t, ⟨_, mem_cons_self, rfl, hheld⟩, hknown hforced t hheld⟩

/-- **Every step of a call** keeps the fetches apart. -/
theorem Apart.stepCall {a : Act} (hinv : Inv cfg h y)
    (hi : y.calls[i]? = some c) (hs : stepCall cfg y i c a = some y')
    (hprompt : Prompt h ⟨y, .call i a, y'⟩)
    (hzero : (Label.call i a : Label κ ε).reading ≠ some 0) :
    Apart cfg (⟨y, .call i a, y'⟩ :: h) y' := by
  have hok := hap.calls i c hi
  unfold ReadOk at hok
  cases did_of_stepCall hs with
  | @read now _ hclock =>
    refine hap.move hi hclock rfl fun _ => ⟨Int.le_refl now, fun t ht => ?_⟩
    exact Int.le_trans (hap.late t ((done_cons rfl).mp ht)) hclock
  | @check now hphase =>
    rw [hphase] at hok
    rcases check_cases cfg y.publication now c with
      ⟨p, r, -, -, -, hcheck⟩ | ⟨p, hp, hnow, hcheck⟩ | ⟨hexp, hcheck⟩
    · rw [hcheck]
      exact hap.move hi (Int.le_refl y.clock) rfl trivial
    · rw [hcheck]
      refine hap.move hi (Int.le_refl y.clock) rfl
        fun hfresh => ⟨fun _ => ?_, fun hf => by cases hf⟩
      obtain ⟨-, hdone⟩ := hok (hfresh.of_cons rfl).2
      exact ⟨p, now, hp, hnow, fun t ht => hdone t ((done_cons rfl).mp ht)⟩
    · rw [hcheck]
      refine hap.move hi (Int.le_refl y.clock) rfl fun hfresh =>
        ⟨fun hf => absurd hf Bool.false_ne_true, fun _ => ?_⟩
      exact hexp.mono (hok (hfresh.of_cons rfl).2).1
  | cool _ hclock => exact hap.move hi hclock rfl readOk_resume
  | start hphase _ _ hclock =>
    refine hap.move hi hclock rfl fun hforced => ?_
    rw [hphase] at hok
    have hstarts : y.flights.length < (y.flights ++ [({} : Flight κ ε)]).length := by
      rw [length_append]
      exact Nat.lt_succ_self _
    exact ((hok (hprompt ⟨rfl, hstarts⟩ i rfl)).2 hforced).mono hclock
  | wake _ hfl =>
    rw [if_neg (ne_true_of_eq_false (hinv.calls i c hi).1),
      if_neg (ne_true_of_eq_false (hinv.kept _ (mem_of_getElem? hfl)))]
    exact hap.move hi (Int.le_refl y.clock) rfl readOk_resume
  | giveUp hend | abandon hend => exact (hinv.ended hi hend).elim
  | complete hphase =>
    rw [hphase] at hok
    exact hap.move hi (Int.le_refl y.clock) rfl hok
  | yield => exact hap.move hi (Int.le_refl y.clock) rfl readOk_resume
  | stamp hphase hclock => exact hap.stamp hinv hi hphase hclock rfl
  | finish hphase hheld _ hclock =>
    refine hap.finish hinv hi hphase hheld hclock ?_ rfl
    exact fun hnow => hzero (congrArg some hnow)
  | join | reread => exact hap.move hi (Int.le_refl y.clock) rfl trivial

variable {l : Label κ ε}

theorem Apart.step (hinv : Inv cfg h y) (hquiet : l.quiet = true)
    (hs : step cfg y l = some y') (hprompt : Prompt h ⟨y, l, y'⟩) (hzero : l.reading ≠ some 0) :
    Apart cfg (⟨y, l, y'⟩ :: h) y' := by
  cases l with
  | lookup kid a =>
    cases hs
    refine hap.keep ⟨rfl, fun _ ht => .inl ht, rfl, rfl, rfl, Int.le_refl y.clock⟩ rfl
      fun j d hj => ?_
    rcases getElem?_concat hj with hj | ⟨-, rfl⟩
    · exact .inr ⟨rfl, hj, .inl rfl⟩
    · refine .inl ?_
      unfold ReadOk lookup
      split_ifs <;> trivial
  | refresh | cancel i => exact nomatch hquiet
  | call i a =>
    obtain ⟨c, hi, hs⟩ := bind_eq_some_iff.mp hs
    exact hap.stepCall hinv hi hs hprompt hzero
  | fetched f r =>
    obtain ⟨fl, hfl, hs⟩ := bind_eq_some_iff.mp hs
    obtain ⟨-, ⟨⟩⟩ := ite_none_right_eq_some.mp hs
    exact hap.keep ⟨rfl, fun _ ht => .inl ht, rfl, rfl, rfl, Int.le_refl y.clock⟩ rfl
      fun j d hj => .inr ⟨rfl, hj, .inl rfl⟩

omit hap in
/-- **A fetch starts with a decision**, outside the cooldown. -/
theorem starts_cases (hs : step cfg y l = some y') (hstarts : Starts ⟨y, l, y'⟩) :
    ∃ i c, l.actor = some i ∧ y.calls[i]? = some c ∧ c.phase = .deciding ∧
      y.clock ≤ y'.clock ∧ cooling cfg y c y'.clock = none := by
  obtain ⟨hlabel, hlength⟩ := hstarts
  cases l with
  | call i a =>
    obtain ⟨c, hi, hs⟩ := bind_eq_some_iff.mp hs
    cases did_of_stepCall hs with
    | start hphase _ _ hclock hcool => exact ⟨i, c, rfl, hi, hphase, hclock, hcool⟩
    | cool => exact absurd hlength (lt_irrefl _)
    | _ => cases hlabel
  | _ => cases hlabel

/-- **A fetch that starts is apart from those before**, if its call is fresh. -/
theorem Apart.spaced (hinv : Inv cfg h y) (hs : Jwks.step cfg y l = some y')
    (hstarts : Starts ⟨y, l, y'⟩) (hprompt : Prompt h ⟨y, l, y'⟩) (ht : Done h t) :
    t + min cfg.cacheTTL cfg.refreshCooldown ≤ y'.clock := by
  obtain ⟨i, c, hactor, hi, hphase, hclock, hcool⟩ := starts_cases hs hstarts
  have hok := hap.calls i c hi
  unfold ReadOk at hok
  rw [hphase] at hok
  obtain ⟨hforced, hunforced⟩ := hok (hprompt hstarts i hactor)
  unfold cooling at hcool
  split_ifs at hcool with hcold hfailed
  cases hf : c.forced with
  | true =>
    obtain ⟨p, now, hp, hnow, hdone⟩ := hforced hf
    rcases hap.forced t ht with ⟨hzero, hle⟩ | ⟨t', ht', hexp⟩
    · have hcooldown : ¬y'.clock - y.forcedAt < cfg.refreshCooldown := by
        intro hlt
        exact hcold ⟨hf, (hinv.calls i c hi).2.1, hzero, hlt⟩
      omega
    · have hold := hexp p hp
      have hlate := hdone t' ht'
      omega
  | false =>
    by_cases herr : y.refreshError = none
    · obtain ⟨p, hp, hle⟩ := hap.snapshot herr t ht
      have hexp := hunforced hf p hp
      omega
    · have hle := hap.failed herr t ht
      have hcooldown : ¬y'.clock - y.refreshErrorAt < cfg.refreshCooldown := by
        intro hlt
        exact hfailed ⟨hf, isSome_iff_ne_none.mpr herr, hlt⟩
      omega

end

end Spaced

/-! ### Runs -/

section Runs

variable {cfg : Config} {h : List (Ev κ ε)} {y : Sys κ ε} {start : ℤ}

theorem inv_init : Inv cfg ([] : List (Ev κ ε)) { clock := start } := by
  refine ⟨fun i c hi => (nomatch hi), fun i j c d f g hi => (nomatch hi), nofun, nofun, nofun, ?_⟩
  rintro t (⟨p, hp, -⟩ | ht)
  · exact nomatch hp
  · exact nomatch ht

theorem apart_init : Apart cfg ([] : List (Ev κ ε)) { clock := start } := by
  have hnone : ∀ t, ¬Done ([] : List (Ev κ ε)) t := by
    rintro t ⟨ev, hmem, -⟩
    exact nomatch hmem
  exact ⟨fun t ht => absurd ht (hnone t), fun t ht => (nomatch ht),
    fun _ t ht => absurd ht (hnone t), fun _ t ht => absurd ht (hnone t),
    fun t ht => absurd ht (hnone t), fun i c hi => (nomatch hi)⟩

/-- **The fetches of a provider**: there is one at a time; those of calls that have read the clock
after the last one are apart by `cacheTTL` or `refreshCooldown`; and keys come from snapshots that
were young during the call. -/
theorem fetches_bounded (hr : Run (step cfg) { clock := start } h y)
    (hquiet : ∀ ev ∈ h, ev.label.quiet = true) :
    (∀ (f g : ℕ) (fl gl : Flight κ ε), y.flights[f]? = some fl → y.flights[g]? = some gl →
      fl.results = none → gl.results = none → f = g) ∧
    ((∀ ev ∈ h, ev.label.reading ≠ some 0) → Always Prompt h →
      Always (fun older ev => Starts ev → ∀ ev' ∈ older, ∀ t, Finishes t ev' →
        t + min cfg.cacheTTL cfg.refreshCooldown ≤ ev.after.clock) h) ∧
    Always (Returns cfg) h := by
  have hall := always_iff_forall_mem.mpr hquiet
  refine ⟨fun f g fl gl hf hg hfl hgl => ?_, fun hzero hprompt => ?_, ?_⟩
  · have hinv := hr.invariant_of hall inv_init fun h y l y' hinv hs hq => hinv.step hq hs
    exact Option.some.inj ((hinv.going f fl hf hfl).symm.trans (hinv.going g gl hg hgl))
  · have hguard : Always (fun older ev => ev.label.quiet = true ∧ ev.label.reading ≠ some 0 ∧
        Prompt older ev) h := by
      intro older ev hsuf
      have hmem : ev ∈ h := hsuf.subset mem_cons_self
      exact ⟨hquiet ev hmem, hzero ev hmem, hprompt older ev hsuf⟩
    refine hr.always_of (I := fun h y => Inv cfg h y ∧ Apart cfg h y) hguard
      ⟨inv_init, apart_init⟩ ?_ ?_
    · rintro h y l y' ⟨hinv, hap⟩ hs ⟨hq, hz, hp⟩
      exact ⟨hinv.step hq hs, hap.step hinv hq hs hp hz⟩
    · rintro h y l y' ⟨hinv, hap⟩ hs ⟨-, -, hp⟩ hstarts ev' hmem t hfin
      exact hap.spaced hinv hs hstarts hp ⟨ev', hmem, hfin⟩
  · exact hr.always_of hall inv_init (fun h y l y' hinv hs hq => hinv.step hq hs)
      fun h y l y' hinv hs _ => hinv.returns hs

end Runs

def someRecord : Record ℕ := ⟨.ecdsa .p256 7, some .es256⟩

/-- A `kid` that is not in the snapshot, when the cooldown is over: the call forces a second fetch,
and finds its key. -/
theorem fetches_bounded_forced :
    ∃ (h : List (Ev ℕ Unit)) (y : Sys ℕ Unit), Run (step defaultConfig) { clock := 1 } h y ∧
      Always Prompt h ∧ y.flights.length = 2 ∧
      (y.calls[1]?.map Call.phase) = some (.returned (.key someRecord.key)) ∧
      Always (fun older ev => Starts ev → ∀ ev' ∈ older, ∀ t, Finishes t ev' →
        t + min defaultCacheTTL defaultRefreshCooldown ≤ ev.after.clock) h := by
  obtain ⟨h, y, hr, hquiet, hzero, hprompt, hlength, hkey⟩ :=
    exists_run (step (κ := ℕ) (ε := Unit) defaultConfig)
    { clock := 1 }
    [.lookup (GoString.ascii "a") .es256, .call 0 (.read 1), .call 0 .check, .call 0 (.decide 1),
      .fetched 0 (.keys []), .call 0 .complete, .call 0 (.stamp 2), .call 0 (.finish 2),
      .call 0 .reread, .lookup (GoString.ascii "a") .es256, .call 1 (.read 1000000002),
      .call 1 .check, .call 1 (.decide 1000000002),
      .fetched 1 (.keys [(GoString.ascii "a", someRecord)]), .call 1 .complete,
      .call 1 (.stamp 1000000003), .call 1 (.finish 1000000003), .call 1 (.read 1000000003),
      .call 1 .check]
    (fun h y => (∀ ev ∈ h, ev.label.quiet = true) ∧
      (∀ ev ∈ h, ev.label.reading ≠ some 0) ∧ Always Prompt h ∧ y.flights.length = 2 ∧
      y.calls[1]?.map Call.phase = some (.returned (.key someRecord.key)))
    (by decide +kernel)
  exact ⟨h, y, hr, hprompt, hlength, hkey, (fetches_bounded hr hquiet).2.1 hzero hprompt⟩

/-- **Two fetches in a row**: two calls find no snapshot; one of them fetches it, and the other one
fetches it again at the same reading of the clock. -/
theorem refetched :
    ∃ (h : List (Ev ℕ Unit)) (y : Sys ℕ Unit), Run (step defaultConfig) { clock := 1 } h y ∧
      (∀ ev ∈ h, ev.label.quiet = true) ∧ (∀ ev ∈ h, ev.label.reading ≠ some 0) ∧
      ∃ ev older, h = ev :: older ∧ Starts ev ∧ ∃ ev' ∈ older, Finishes 2 ev' ∧
        ev.after.clock < 2 + min defaultCacheTTL defaultRefreshCooldown := by
  obtain ⟨h, y, hr, hquiet, hzero, ev, older, hcons, hstarts, hclock, ev', hmem, hfin⟩ :=
    exists_run (step (κ := ℕ) (ε := Unit) defaultConfig) { clock := 1 }
      [.lookup (GoString.ascii "a") .es256, .lookup (GoString.ascii "a") .es256,
        .call 0 (.read 1), .call 0 .check, .call 1 (.read 1), .call 1 .check, .call 0 (.decide 1),
        .fetched 0 (.keys [(GoString.ascii "a", someRecord)]), .call 0 .complete,
        .call 0 (.stamp 2), .call 0 (.finish 2), .call 1 (.decide 2)]
      (fun h _ => (∀ ev ∈ h, ev.label.quiet = true) ∧ (∀ ev ∈ h, ev.label.reading ≠ some 0) ∧
        ∃ ev older, h = ev :: older ∧ Starts ev ∧
          ev.after.clock < 2 + min defaultCacheTTL defaultRefreshCooldown ∧
          ∃ ev' ∈ older, ev'.label.finishes = true ∧ ev'.before.held = some 2)
      (by decide +kernel)
  exact ⟨h, y, hr, hquiet, hzero, ev, older, hcons, hstarts, ev', hmem, hfin, hclock⟩

end Bluetape.Jwks
