import Bluetape.Jwt.Jwks

/-!
# Flights of the JWKS provider

The invariant of runs of `Lookup` calls whose contexts do not end, without an explicit `Refresh`
(`Inv`, `Inv.step`): a fetch under way is that of the current flight, and one call at most has a
flight of its own.

From it follows that **a key comes from a young snapshot** (`Inv.returns`): at some moment during
the call the snapshot was younger than `cacheTTL`, and the record admits the algorithm. A call that
has waited for a fetch does not look at the age again; but it was there before the clock was read
for the snapshot, since `held` keeps it out of its sections in between.
-/

namespace Bluetape.Jwks

open Lts Option List

variable {κ ε : Type}

/-! ### What a step of a call does -/

/-- **What a step of a call does**, one case for each branch that does something. -/
inductive Did (cfg : Config) (y : Sys κ ε) (i : ℕ) (c : Call κ ε) : Act → Sys κ ε → Prop
  | read {now : ℤ} (hphase : c.phase = .reading) (hclock : y.clock ≤ now) :
      Did cfg y i c (.read now)
        { y.setCall i { c with phase := .checking now } with clock := now }
  | check {now : ℤ} (hphase : c.phase = .checking now) (hheld : y.held = none) :
      Did cfg y i c .check (y.setCall i (check cfg y.publication now c))
  | join {f : ℕ} (hheld : y.held = none) (hflight : y.flight = some f) :
      Did cfg y i c .join (y.setCall i { c with phase := .waiting f })
  | cool {now : ℤ} {err : Option (Err ε)} (hheld : y.held = none) (hclock : y.clock ≤ now)
      (hcool : cooling cfg y c now = some err) :
      Did cfg y i c (.decide now) { y.setCall i (resume c err) with clock := now }
  | start {now : ℤ} (hphase : c.phase = .deciding) (hheld : y.held = none)
      (hflight : y.flight = none) (hclock : y.clock ≤ now) (hcool : cooling cfg y c now = none) :
      Did cfg y i c (.decide now)
        { y.setCall i { c with phase := .fetching y.flights.length } with
          clock := now, flight := some y.flights.length, flights := y.flights ++ [{}] }
  | wake {f : ℕ} {fl : Flight κ ε} (hphase : c.phase = .waiting f)
      (hfl : y.flights[f]? = some fl) (hdone : fl.done = true) :
      Did cfg y i c .wake (y.setCall i
        (if c.ended then resume c (some .context)
          else if fl.callerCanceled then { c with phase := .deciding }
          else resume c fl.err))
  | giveUp (hended : c.ended = true) :
      Did cfg y i c .giveUp (y.setCall i (resume c (some .context)))
  | complete {f : ℕ} {fl : Flight κ ε} {r : Fetched κ ε} (hphase : c.phase = .fetching f)
      (hfl : y.flights[f]? = some fl) (hresults : fl.results = some r) :
      Did cfg y i c .complete (y.setCall i
        { c with phase := .finishing f (if c.ended then .canceled else .fetched r) })
  | abandon {f : ℕ} (hended : c.ended = true) :
      Did cfg y i c .abandon (y.setCall i { c with phase := .finishing f .canceled })
  /-- Another flight is the current one. -/
  | yield {now : ℤ} {f : ℕ} {o : Outcome κ ε} (hphase : c.phase = .finishing f o)
      (hflight : y.flight ≠ some f) : Did cfg y i c (.stamp now) (y.setCall i (resume c o.err))
  | stamp {now : ℤ} {f : ℕ} {o : Outcome κ ε} (hphase : c.phase = .finishing f o)
      (hclock : y.clock ≤ now) :
      Did cfg y i c (.stamp now)
        { y.setCall i { c with phase := .stamped f o } with clock := now, held := some now }
  | finish {now t : ℤ} {f : ℕ} {fl : Flight κ ε} {o : Outcome κ ε}
      (hphase : c.phase = .stamped f o) (hheld : y.held = some t)
      (hfl : y.flights[f]? = some fl) (hclock : y.clock ≤ now) :
      Did cfg y i c (.finish now)
        ((finishRefresh y f fl c.forced t now o).setCall i (resume c o.err))
  | reread (hphase : c.phase = .rereading) :
      Did cfg y i c .reread (y.setCall i { c with phase := .returned (reread y.publication c) })

theorem did_of_stepCall {cfg : Config} {y y' : Sys κ ε} {i : ℕ} {c : Call κ ε} {a : Act}
    (hs : stepCall cfg y i c a = some y') : Did cfg y i c a y' := by
  -- one case for each action, in the phase in which it may be taken
  cases a <;> simp only [stepCall] at hs <;> split at hs <;> try cases hs
  · next hphase =>
    obtain ⟨hclock, ⟨⟩⟩ := ite_none_right_eq_some.mp hs
    exact .read hphase hclock
  · next hphase =>
    obtain ⟨hheld, ⟨⟩⟩ := ite_none_right_eq_some.mp hs
    exact .check hphase hheld
  · obtain ⟨hheld, hs⟩ := ite_none_right_eq_some.mp hs
    obtain ⟨f, hf, rfl⟩ := map_eq_some_iff.mp hs
    exact .join hheld hf
  · next hphase =>
    obtain ⟨⟨hheld, hflight, hclock⟩, hs⟩ := ite_none_right_eq_some.mp hs
    split at hs <;> cases hs
    · next hcool => exact .cool hheld hclock hcool
    · next hcool => exact .start hphase hheld hflight hclock hcool
  · next hphase =>
    obtain ⟨fl, hfl, hs⟩ := bind_eq_some_iff.mp hs
    obtain ⟨hdone, ⟨⟩⟩ := ite_none_right_eq_some.mp hs
    exact .wake hphase hfl hdone
  · obtain ⟨hended, ⟨⟩⟩ := ite_none_right_eq_some.mp hs
    exact .giveUp hended
  · next hphase =>
    obtain ⟨r, hr, rfl⟩ := map_eq_some_iff.mp hs
    obtain ⟨fl, hfl, hresults⟩ := bind_eq_some_iff.mp hr
    exact .complete hphase hfl hresults
  · obtain ⟨hended, ⟨⟩⟩ := ite_none_right_eq_some.mp hs
    exact .abandon hended
  · next hphase =>
    obtain ⟨hheld, hs⟩ := ite_none_right_eq_some.mp hs
    split_ifs at hs with hflight hclock <;> cases hs
    · exact .yield hphase hflight
    · exact .stamp hphase hclock
  · next hphase =>
    obtain ⟨t, hheld, hs⟩ := bind_eq_some_iff.mp hs
    obtain ⟨fl, hfl, hs⟩ := bind_eq_some_iff.mp hs
    obtain ⟨hclock, ⟨⟩⟩ := ite_none_right_eq_some.mp hs
    exact .finish hphase hheld hfl hclock
  · next hphase =>
    obtain ⟨-, ⟨⟩⟩ := ite_none_right_eq_some.mp hs
    exact .reread hphase

/-! ### What is stated -/

/-- A step of a `Lookup`, of a fetch, or the beginning of a `Lookup`. -/
def Label.quiet : Label κ ε → Bool
  | .refresh => false
  | .cancel _ => false
  | _ => true

def Label.actor : Label κ ε → Option ℕ
  | .call i _ => some i
  | _ => none

/-- **The snapshot of this time was young** at some moment since the call has begun. -/
def Young (cfg : Config) (i : ℕ) (h : List (Ev κ ε)) (t : ℤ) : Prop :=
  ∃ ev ∈ h, i < ev.after.calls.length ∧ t ≤ ev.after.clock ∧ ev.after.clock < t + cfg.cacheTTL

/-! ### The invariant -/

def Expired (cfg : Config) (publication : Option (Publication κ)) (t : ℤ) : Prop :=
  ∀ p, publication = some p → p.fetchedAt + cfg.cacheTTL ≤ t

def Phase.Owns : Phase κ ε → ℕ → Prop
  | .fetching g, f => g = f
  | .finishing g _, f => g = f
  | .stamped g _, f => g = f
  | _, _ => False

/-- The time of the snapshot, or of the one that is about to be published. -/
def Stamp (y : Sys κ ε) (t : ℤ) : Prop :=
  (∃ p, y.publication = some p ∧ p.fetchedAt = t) ∨ y.held = some t

/-- The snapshot that is about to be published is young for the call. -/
def HeldOk (cfg : Config) (h : List (Ev κ ε)) (y : Sys κ ε) (i : ℕ) : Prop :=
  ∀ t, y.held = some t → Young cfg i h t

def Got (cfg : Config) (h : List (Ev κ ε)) (y : Sys κ ε) (i : ℕ) : Prop :=
  ∃ p, y.publication = some p ∧ Young cfg i h p.fetchedAt

/-- **What is known, by the phase of a call.** -/
def PhaseOk (cfg : Config) (h : List (Ev κ ε)) (y : Sys κ ε) (i : ℕ) : Phase κ ε → Prop
  | .reading => True
  | .checking now => ∀ t, Stamp y t → now < t + cfg.cacheTTL → Young cfg i h t
  | .deciding => HeldOk cfg h y i
  | .waiting f =>
    HeldOk cfg h y i ∧
      ∀ fl, y.flights[f]? = some fl → fl.done = true → fl.err = none → Got cfg h y i
  | .fetching f => HeldOk cfg h y i ∧ y.flight = some f
  | .finishing f o => HeldOk cfg h y i ∧ y.flight = some f ∧ o.callerCanceled = false ∧
    ∃ fl, y.flights[f]? = some fl ∧ fl.results ≠ none
  | .stamped f o => HeldOk cfg h y i ∧ y.flight = some f ∧ o.callerCanceled = false ∧
    ∃ fl, y.flights[f]? = some fl ∧ fl.results ≠ none
  | .rereading => HeldOk cfg h y i ∧ Got cfg h y i
  | .returned _ => True

/-- **The invariant.** -/
structure Inv (cfg : Config) (h : List (Ev κ ε)) (y : Sys κ ε) : Prop where
  calls : ∀ (i : ℕ) (c : Call κ ε), y.calls[i]? = some c →
    c.ended = false ∧ c.explicit = false ∧ PhaseOk cfg h y i c.phase
  one : ∀ (i j : ℕ) (c d : Call κ ε) (f g : ℕ), y.calls[i]? = some c → y.calls[j]? = some d →
    c.phase.Owns f → d.phase.Owns g → i = j
  going : ∀ (f : ℕ) (fl : Flight κ ε), y.flights[f]? = some fl → fl.results = none →
    y.flight = some f
  current : ∀ f, y.flight = some f → ∃ fl, y.flights[f]? = some fl ∧ fl.done = false
  kept : ∀ fl ∈ y.flights, fl.callerCanceled = false
  stamps : ∀ t, Stamp y t → t ≤ y.clock

section Frame

variable {cfg : Config} {h : List (Ev κ ε)} {y y' : Sys κ ε} {ev : Ev κ ε} {i j : ℕ}
  {c c' : Call κ ε} {t now : ℤ}

theorem Young.cons (hy : Young cfg i h t) : Young cfg i (ev :: h) t :=
  exists_mem_cons_of_exists hy

theorem HeldOk.cons (hok : HeldOk cfg h y i) : HeldOk cfg (ev :: h) y i :=
  fun t ht => (hok t ht).cons

theorem HeldOk.of_none (hheld : y.held = none) : HeldOk cfg h y i :=
  fun _ ht => nomatch hheld.symm.trans ht

theorem Got.cons (hgot : Got cfg h y i) : Got cfg (ev :: h) y i := by
  obtain ⟨p, hp, hyoung⟩ := hgot
  exact ⟨p, hp, hyoung.cons⟩

theorem PhaseOk.cons {phase : Phase κ ε} (hok : PhaseOk cfg h y i phase) :
    PhaseOk cfg (ev :: h) y i phase := by
  cases phase with
  | reading => trivial
  | checking now => exact fun t ht hnow => (hok t ht hnow).cons
  | deciding => exact HeldOk.cons hok
  | waiting f => exact ⟨hok.1.cons, fun fl hf hdone herr => (hok.2 fl hf hdone herr).cons⟩
  | fetching f | finishing f o | stamped f o => exact ⟨hok.1.cons, hok.2⟩
  | rereading => exact ⟨hok.1.cons, hok.2.cons⟩
  | returned r => trivial

theorem Inv.one_set (hinv : Inv cfg h y) (hi : y.calls[i]? = some c)
    (howns : ∀ f, c'.phase.Owns f → c.phase.Owns f) {j k f g : ℕ} {d e : Call κ ε}
    (hj : (y.calls.set i c')[j]? = some d) (hk : (y.calls.set i c')[k]? = some e)
    (hf : d.phase.Owns f) (hg : e.phase.Owns g) : j = k := by
  rcases getElem?_set_cases hj with ⟨hji, rfl⟩ | ⟨-, hj'⟩
  · rcases getElem?_set_cases hk with ⟨hki, -⟩ | ⟨-, hk'⟩
    · exact hji.trans hki.symm
    · exact hji.trans (hinv.one i k c e f g hi hk' (howns f hf) hg)
  · rcases getElem?_set_cases hk with ⟨hki, rfl⟩ | ⟨-, hk'⟩
    · exact (hinv.one j i d c f g hj' hi hf (howns g hg)).trans hki.symm
    · exact hinv.one j k d e f g hj' hk' hf hg

/-- **A call moves on**, and the provider stays as it is. -/
theorem Inv.move (hinv : Inv cfg h y) (hi : y.calls[i]? = some c) (hclock : y.clock ≤ now)
    (hended : c'.ended = c.ended) (hexplicit : c'.explicit = c.explicit)
    (howns : ∀ f, c'.phase.Owns f → c.phase.Owns f)
    (hok : PhaseOk cfg (ev :: h) y i c'.phase) :
    Inv cfg (ev :: h) { y.setCall i c' with clock := now } := by
  obtain ⟨hend, hexp, -⟩ := hinv.calls i c hi
  refine ⟨fun j d hj => ?_, fun j k d e f g hj hk hf hg => hinv.one_set hi howns hj hk hf hg,
    hinv.going, hinv.current, hinv.kept, fun t ht => Int.le_trans (hinv.stamps t ht) hclock⟩
  rcases getElem?_set_cases hj with ⟨rfl, rfl⟩ | ⟨-, hj⟩
  · exact ⟨hended.trans hend, hexplicit.trans hexp, hok⟩
  · obtain ⟨h₁, h₂, hold⟩ := hinv.calls j d hj
    exact ⟨h₁, h₂, hold.cons⟩

/-! ### What a call does after its sections -/

theorem resume_frame (c : Call κ ε) (err : Option (Err ε)) :
    (resume c err).ended = c.ended ∧ (resume c err).explicit = c.explicit := by
  unfold resume
  split
  · exact ⟨rfl, rfl⟩
  · split_ifs <;> exact ⟨rfl, rfl⟩

/-- After a refresh a call begins anew, looks again, or has returned, and not a key. -/
theorem resume_phase (c : Call κ ε) (err : Option (Err ε)) :
    (resume c err).phase = .reading ∨ (resume c err).phase = .rereading ∨
      ∃ r, (resume c err).phase = .returned r ∧ ∀ k, r ≠ .key k := by
  unfold resume
  split
  · exact .inr (.inr ⟨_, rfl, nofun⟩)
  · split_ifs
    · exact .inr (.inr ⟨_, rfl, nofun⟩)
    · exact .inl rfl
    · exact .inr (.inr ⟨_, rfl, nofun⟩)
    · exact .inr (.inl rfl)

theorem not_owns_resume (c : Call κ ε) (err : Option (Err ε)) (f : ℕ) :
    ¬(resume c err).phase.Owns f := by
  rcases resume_phase c err with hphase | hphase | ⟨r, hphase, -⟩ <;> rw [hphase] <;> exact id

/-- A call whose refresh had no error needs a young snapshot, unless it has forced it. -/
theorem phaseOk_resume {err : Option (Err ε)} (hheld : HeldOk cfg h y i)
    (hgot : err = none → c.forced = false → Got cfg h y i) :
    PhaseOk cfg h y i (resume c err).phase := by
  unfold resume
  split
  · trivial
  · split_ifs with hexplicit hforced
    · trivial
    · trivial
    · trivial
    · exact ⟨hheld, hgot rfl (eq_false_of_ne_true hforced)⟩

/-- **What the check does**: it finds a record, or forces a refresh, or finds no valid snapshot. -/
theorem check_cases (cfg : Config) (publication : Option (Publication κ)) (now : ℤ) (c : Call κ ε) :
    (∃ p r, publication = some p ∧ now < p.fetchedAt + cfg.cacheTTL ∧ p.keys.lookup c.kid = some r ∧
      check cfg publication now c = { c with phase := .returned (found r c.algorithm) }) ∨
    (∃ p, publication = some p ∧ now < p.fetchedAt + cfg.cacheTTL ∧
      check cfg publication now c = { c with forced := true, phase := .deciding }) ∨
    Expired cfg publication now ∧
      check cfg publication now c = { c with forced := false, phase := .deciding } := by
  cases publication with
  | none => exact .inr (.inr ⟨nofun, rfl⟩)
  | some p =>
    by_cases hnow : now < p.fetchedAt + cfg.cacheTTL
    · cases hr : p.keys.lookup c.kid with
      | some r =>
        refine .inl ⟨p, r, rfl, hnow, hr, ?_⟩
        unfold check
        simp only [if_pos hnow, hr]
      | none =>
        refine .inr (.inl ⟨p, rfl, hnow, ?_⟩)
        unfold check
        simp only [if_pos hnow, hr]
    · refine .inr (.inr ⟨fun q hq => ?_, ?_⟩)
      · cases hq
        exact Int.not_lt.mp hnow
      · unfold check
        simp only [if_neg hnow]

theorem forced_of_cooling {err : Option (Err ε)} (hcool : cooling cfg y c now = some err)
    (herr : err = none) : c.forced = true := by
  unfold cooling at hcool
  split_ifs at hcool with hforced hfailed
  · exact hforced.1
  · cases hcool
    rw [herr] at hfailed
    exact nomatch hfailed.2.1

end Frame

/-! ### One lemma for each step -/

section Steps

variable {cfg : Config} {h : List (Ev κ ε)} {y y' : Sys κ ε} {i : ℕ} {c : Call κ ε} {now : ℤ}

variable (hinv : Inv cfg h y) (hi : y.calls[i]? = some c)
variable {phase : Phase κ ε} {j : ℕ}

theorem PhaseOk.start {calls : List (Call κ ε)} (hok : PhaseOk cfg h y j phase)
    (hflight : y.flight = none) :
    PhaseOk cfg h { y with
      calls := calls, clock := now, flight := some y.flights.length
      flights := y.flights ++ [{}] } j phase := by
  cases phase with
  | waiting f =>
    refine ⟨hok.1, fun fl hfl hdone herr => ?_⟩
    rcases getElem?_concat hfl with hold | ⟨-, rfl⟩
    · exact hok.2 fl hold hdone herr
    · exact nomatch hdone
  | fetching f => exact nomatch hflight.symm.trans hok.2
  | finishing f o | stamped f o => exact nomatch hflight.symm.trans hok.2.1
  | _ => exact hok

include hinv hi in
theorem Inv.not_owns (hflight : y.flight = none) (f : ℕ) : ¬c.phase.Owns f := by
  intro howns
  obtain ⟨-, -, hok⟩ := hinv.calls i c hi
  cases hphase : c.phase with
  | fetching g =>
    rw [hphase] at hok
    exact nomatch hflight.symm.trans hok.2
  | finishing g o | stamped g o =>
    rw [hphase] at hok
    exact nomatch hflight.symm.trans hok.2.1
  | _ =>
    rw [hphase] at howns
    exact howns

variable {ev : Ev κ ε}

include hinv hi in
/-- **A call starts a refresh.** -/
theorem Inv.start (hheld : y.held = none) (hflight : y.flight = none) (hclock : y.clock ≤ now) :
    Inv cfg (ev :: h) { y.setCall i { c with phase := .fetching y.flights.length } with
      clock := now, flight := some y.flights.length, flights := y.flights ++ [{}] } := by
  refine ⟨fun j d hj => ?_, fun j k d e f g hj hk hf hg => ?_, fun f fl hf hnone => ?_,
    fun f hf => ?_, fun fl hfl => ?_, fun t ht => Int.le_trans (hinv.stamps t ht) hclock⟩
  · rcases getElem?_set_cases hj with ⟨rfl, rfl⟩ | ⟨-, hj⟩
    · obtain ⟨hended, hexplicit, -⟩ := hinv.calls j c hi
      exact ⟨hended, hexplicit, HeldOk.of_none hheld, rfl⟩
    · obtain ⟨hended, hexplicit, hok⟩ := hinv.calls j d hj
      exact ⟨hended, hexplicit, (hok.start hflight).cons⟩
  · rcases getElem?_set_cases hj with ⟨rfl, -⟩ | ⟨-, hj⟩
    · rcases getElem?_set_cases hk with ⟨rfl, -⟩ | ⟨-, hk⟩
      · rfl
      · exact absurd hg (hinv.not_owns hk hflight g)
    · exact absurd hf (hinv.not_owns hj hflight f)
  · rcases lt_trichotomy f y.flights.length with hlt | rfl | hgt
    · rw [getElem?_append_left hlt] at hf
      exact nomatch hflight.symm.trans (hinv.going f fl hf hnone)
    · rfl
    · rw [getElem?_eq_none (by rw [length_append]; exact hgt)] at hf
      exact nomatch hf
  · cases hf
    exact ⟨{}, getElem?_concat_length, rfl⟩
  · exact forall_mem_concat hinv.kept rfl fl hfl

include hinv hi in
theorem Inv.ended (hended : c.ended = true) : False :=
  Bool.false_ne_true ((hinv.calls i c hi).1.symm.trans hended)

/-- **The clock is read for a snapshot**, and every call under way is there to see it. -/
theorem PhaseOk.stamp {calls : List (Call κ ε)} (hok : PhaseOk cfg h y j phase)
    (hyoung : Young cfg j (ev :: h) now) :
    PhaseOk cfg (ev :: h) { y with calls := calls, clock := now, held := some now } j phase := by
  have hheld : HeldOk cfg (ev :: h)
      { y with calls := calls, clock := now, held := some now } j := by
    intro t ht
    cases ht
    exact hyoung
  cases phase with
  | reading => trivial
  | checking now =>
    rintro t (hpub | ht) hnow
    · exact (hok t (.inl hpub) hnow).cons
    · exact hheld t ht
  | deciding => exact hheld
  | waiting f => exact ⟨hheld, fun fl hf hdone herr => (hok.2 fl hf hdone herr).cons⟩
  | fetching f | finishing f o | stamped f o => exact ⟨hheld, hok.2⟩
  | rereading => exact ⟨hheld, hok.2.cons⟩
  | returned r => trivial

include hinv hi in
theorem Inv.stamp {f : ℕ} {o : Outcome κ ε} (hphase : c.phase = .finishing f o)
    (hclock : y.clock ≤ now)
    (hy' : y' = { y.setCall i { c with phase := .stamped f o } with
      clock := now, held := some now }) :
    Inv cfg (⟨y, .call i (.stamp now), y'⟩ :: h) y' := by
  subst hy'
  obtain ⟨hended, hexplicit, hok⟩ := hinv.calls i c hi
  rw [hphase] at hok
  have hyoung : ∀ {j : ℕ} {d : Call κ ε}, y.calls[j]? = some d → Young cfg j
      (⟨y, .call i (.stamp now), { y.setCall i { c with phase := .stamped f o } with
        clock := now, held := some now }⟩ :: h) now := by
    intro j d hj
    refine ⟨_, mem_cons_self, ?_, Int.le_refl now, Int.lt_add_of_pos_right now cfg.cacheTTL_pos⟩
    exact (List.getElem?_eq_some_iff.mp hj).1.trans_eq length_set.symm
  have howns : ∀ g, (Phase.stamped f o).Owns g → c.phase.Owns g := by
    intro g hg
    rw [hphase]
    exact hg
  refine ⟨fun j d hj => ?_, fun j k d e f g hj hk hf hg => hinv.one_set hi howns hj hk hf hg,
    hinv.going, hinv.current, hinv.kept, fun t ht => ?_⟩
  · rcases getElem?_set_cases hj with ⟨rfl, rfl⟩ | ⟨-, hj⟩
    · have hstamped : PhaseOk cfg h y j (.stamped f o) := hok
      exact ⟨hended, hexplicit, hstamped.stamp (hyoung hi)⟩
    · obtain ⟨h₁, h₂, hold⟩ := hinv.calls j d hj
      exact ⟨h₁, h₂, hold.stamp (hyoung hj)⟩
  · rcases ht with hpub | ht
    · exact Int.le_trans (hinv.stamps t (.inl hpub)) hclock
    · exact Int.le_of_eq (Option.some.inj ht).symm

/-- The snapshot afterwards: the one that was about to be published, or the one before. -/
theorem publication_finishRefresh (y : Sys κ ε) (f : ℕ) (fl : Flight κ ε) (forced : Bool)
    (t now : ℤ) (o : Outcome κ ε) :
    (∃ keys, o = .fetched (.keys keys) ∧
      (finishRefresh y f fl forced t now o).publication = some ⟨keys, t⟩) ∨
    o.err ≠ none ∧ (finishRefresh y f fl forced t now o).publication = y.publication := by
  cases o with
  | fetched r =>
    cases r with
    | keys keys => exact .inl ⟨keys, rfl, rfl⟩
    | error e => exact .inr ⟨nofun, rfl⟩
  | canceled => exact .inr ⟨nofun, rfl⟩

theorem finishRefresh_eq (y : Sys κ ε) (f : ℕ) (fl : Flight κ ε) (forced : Bool) (t now : ℤ)
    (o : Outcome κ ε) :
    (finishRefresh y f fl forced t now o).clock = now ∧
    (finishRefresh y f fl forced t now o).flight = none ∧
    (finishRefresh y f fl forced t now o).held = none ∧
    (finishRefresh y f fl forced t now o).calls = y.calls ∧
    (finishRefresh y f fl forced t now o).flights = y.flights.set f
      { fl with done := true, err := o.err, callerCanceled := o.callerCanceled } := by
  cases o with
  | fetched r =>
    cases r with
    | keys keys | error e => exact ⟨rfl, rfl, rfl, rfl, rfl⟩
  | canceled => exact ⟨rfl, rfl, rfl, rfl, rfl⟩

structure Publishes (y y' : Sys κ ε) (f : ℕ) (fl : Flight κ ε) (t : ℤ) (o : Outcome κ ε) :
    Prop where
  held : y.held = some t
  held' : y'.held = none
  flight : y'.flight = none
  flights : y'.flights = y.flights.set f
    { fl with done := true, err := o.err, callerCanceled := o.callerCanceled }
  publication : (∃ p, y'.publication = some p ∧ p.fetchedAt = t) ∨
    o.err ≠ none ∧ y'.publication = y.publication

variable {f : ℕ} {fl : Flight κ ε} {t : ℤ} {o : Outcome κ ε}

theorem Publishes.stamp (hpub : Publishes y y' f fl t o) {t' : ℤ} (ht : Stamp y' t') :
    Stamp y t' := by
  rcases ht with ⟨p, hp, rfl⟩ | ht
  · rcases hpub.publication with ⟨q, hq, rfl⟩ | ⟨-, heq⟩
    · obtain rfl := mem_unique hp hq
      exact .inr hpub.held
    · exact .inl ⟨p, heq ▸ hp, rfl⟩
  · exact nomatch hpub.held'.symm.trans ht

/-- A call that was there before the clock was read has got a young snapshot still. -/
theorem Publishes.got (hpub : Publishes y y' f fl t o) (hheld : HeldOk cfg h y j)
    (hgot : o.err ≠ none → Got cfg h y j) : Got cfg h y' j := by
  rcases hpub.publication with ⟨p, hp, rfl⟩ | ⟨herr, heq⟩
  · exact ⟨p, hp, hheld _ hpub.held⟩
  · obtain ⟨p, hp, hyoung⟩ := hgot herr
    exact ⟨p, heq.trans hp, hyoung⟩

theorem PhaseOk.finish (hok : PhaseOk cfg h y j phase) (hpub : Publishes y y' f fl t o)
    (hfl : y.flights[f]? = some fl) (hother : ∀ g, ¬phase.Owns g) : PhaseOk cfg h y' j phase := by
  have hheld : HeldOk cfg h y' j := HeldOk.of_none hpub.held'
  cases phase with
  | reading => trivial
  | checking now => exact fun t' ht' hnow => hok t' (hpub.stamp ht') hnow
  | deciding => exact hheld
  | waiting g =>
    refine ⟨hheld, fun gl hgl hdone herr => ?_⟩
    rw [hpub.flights] at hgl
    rcases getElem?_set_cases hgl with ⟨rfl, rfl⟩ | ⟨-, hgl⟩
    · exact hpub.got hok.1 fun hne => absurd herr hne
    · exact hpub.got hok.1 fun _ => hok.2 gl hgl hdone herr
  | fetching g | finishing g o | stamped g o => exact absurd rfl (hother g)
  | rereading => exact ⟨hheld, hpub.got hok.1 fun _ => hok.2⟩
  | returned r => trivial

include hinv hi in
theorem Inv.finish (hphase : c.phase = .stamped f o) (hheld : y.held = some t)
    (hfl : y.flights[f]? = some fl) (hclock : y.clock ≤ now)
    (hy' : y' = (finishRefresh y f fl c.forced t now o).setCall i (resume c o.err)) :
    Inv cfg (ev :: h) y' := by
  obtain ⟨hclock', hflight', hheld', hcalls', hflights'⟩ :=
    finishRefresh_eq y f fl c.forced t now o
  have hpublication : (∃ p, (finishRefresh y f fl c.forced t now o).publication = some p ∧
      p.fetchedAt = t) ∨
      o.err ≠ none ∧ (finishRefresh y f fl c.forced t now o).publication = y.publication := by
    rcases publication_finishRefresh y f fl c.forced t now o with ⟨keys, -, hp⟩ | hp
    · exact .inl ⟨_, hp, rfl⟩
    · exact .inr hp
  have hpub : Publishes y y' f fl t o := by
    subst hy'
    exact ⟨hheld, hheld', hflight', hflights', hpublication⟩
  have hcalls : y'.calls = y.calls.set i (resume c o.err) := by
    subst hy'
    change (finishRefresh y f fl c.forced t now o).calls.set i _ = _
    rw [hcalls']
  have hnow : y'.clock = now := by
    subst hy'
    exact hclock'
  obtain ⟨hended, hexplicit, hok⟩ := hinv.calls i c hi
  rw [hphase] at hok
  obtain ⟨hyoung, hflight, hcanceled, fl', hfl', hresults⟩ := hok
  obtain rfl := mem_unique hfl hfl'
  have howns : c.phase.Owns f := by
    rw [hphase]
    rfl
  refine ⟨fun j d hj => ?_, fun j k d e g g' hj hk hg hg' => ?_, fun g gl hgl hnone => ?_,
    fun g hg => (nomatch hpub.flight.symm.trans hg), fun gl hgl => ?_, fun t' ht' => ?_⟩
  · rw [hcalls] at hj
    rcases getElem?_set_cases hj with ⟨rfl, rfl⟩ | ⟨hne, hj⟩
    · refine ⟨(resume_frame c _).1.trans hended, (resume_frame c _).2.trans hexplicit, ?_⟩
      refine phaseOk_resume (HeldOk.of_none hpub.held') fun herr _ => ?_
      exact (hpub.got hyoung fun hne => absurd herr hne).cons
    · obtain ⟨h₁, h₂, hold⟩ := hinv.calls j d hj
      refine ⟨h₁, h₂, (hold.finish hpub hfl fun g hg => hne ?_).cons⟩
      exact hinv.one j i d c g f hj hi hg howns
  · rw [hcalls] at hj hk
    exact hinv.one_set hi (fun f hf => absurd hf (not_owns_resume c _ f)) hj hk hg hg'
  · rw [hpub.flights] at hgl
    rcases getElem?_set_cases hgl with ⟨rfl, rfl⟩ | ⟨hne, hgl⟩
    · exact absurd hnone hresults
    · have hg := hinv.going g gl hgl hnone
      exact absurd (mem_unique hg hflight) hne
  · rw [hpub.flights] at hgl
    exact forall_mem_set hinv.kept hcanceled gl hgl
  · rw [hnow]
    exact Int.le_trans (hinv.stamps t' (hpub.stamp ht')) hclock

include hinv hi in
/-- **Every step of a call keeps the invariant.** -/
theorem Inv.stepCall {a : Act} (hs : stepCall cfg y i c a = some y') :
    Inv cfg (⟨y, .call i a, y'⟩ :: h) y' := by
  obtain ⟨hended, -, hok⟩ := hinv.calls i c hi
  cases did_of_stepCall hs with
  | read _ hclock =>
    refine hinv.move hi hclock rfl rfl (fun f hf => hf.elim) fun t ht hnow => ?_
    refine ⟨_, mem_cons_self, ?_, Int.le_trans (hinv.stamps t ht) hclock, hnow⟩
    exact (List.getElem?_eq_some_iff.mp hi).1.trans_eq length_set.symm
  | @check t _ hheld =>
    rcases check_cases cfg y.publication t c with
      ⟨p, r, -, -, -, hcheck⟩ | ⟨p, -, -, hcheck⟩ | ⟨-, hcheck⟩
    · rw [hcheck]
      exact hinv.move hi (Int.le_refl y.clock) rfl rfl (fun f hf => hf.elim) trivial
    · rw [hcheck]
      exact hinv.move hi (Int.le_refl y.clock) rfl rfl (fun f hf => hf.elim) (HeldOk.of_none hheld)
    · rw [hcheck]
      exact hinv.move hi (Int.le_refl y.clock) rfl rfl (fun f hf => hf.elim) (HeldOk.of_none hheld)
  | @join f hheld hf =>
    refine hinv.move hi (Int.le_refl y.clock) rfl rfl (fun f hf => hf.elim)
      ⟨HeldOk.of_none hheld, fun fl hfl hdone => ?_⟩
    -- The flight is the current one, and so it is not done.
    obtain ⟨fl', hfl', hgoing⟩ := hinv.current f hf
    obtain rfl := mem_unique hfl' hfl
    exact nomatch hgoing.symm.trans hdone
  | @cool now err hheld hclock hcool =>
    refine hinv.move hi hclock (resume_frame c err).1 (resume_frame c err).2
      (fun f hf => absurd hf (not_owns_resume c err f)) ?_
    refine phaseOk_resume (HeldOk.of_none hheld) fun herr hforced => ?_
    exact nomatch hforced.symm.trans (forced_of_cooling hcool herr)
  | start _ hheld hflight hclock => exact hinv.start hi hheld hflight hclock
  | wake hphase hfl hdone =>
    rw [hphase] at hok
    rw [if_neg (ne_true_of_eq_false hended),
      if_neg (ne_true_of_eq_false (hinv.kept _ (mem_of_getElem? hfl)))]
    refine hinv.move hi (Int.le_refl y.clock) (resume_frame c _).1 (resume_frame c _).2
      (fun f hf => absurd hf (not_owns_resume c _ f)) ?_
    exact phaseOk_resume hok.1.cons fun herr _ => (hok.2 _ hfl hdone herr).cons
  | giveUp hend | abandon hend => exact (hinv.ended hi hend).elim
  | complete hphase hfl hresults =>
    rw [hphase] at hok
    rw [if_neg (ne_true_of_eq_false hended)]
    refine hinv.move hi (Int.le_refl y.clock) rfl rfl (fun g hg => ?_)
      ⟨hok.1.cons, hok.2, rfl, _, hfl, fun hnone => nomatch hnone.symm.trans hresults⟩
    rw [hphase]
    exact hg
  | yield hphase hflight =>
    rw [hphase] at hok
    exact absurd hok.2.1 hflight
  | stamp hphase hclock => exact hinv.stamp hi hphase hclock rfl
  | finish hphase hheld hfl hclock => exact hinv.finish hi hphase hheld hfl hclock rfl
  | reread => exact hinv.move hi (Int.le_refl y.clock) rfl rfl (fun f hf => hf.elim) trivial

theorem PhaseOk.fetched {r : Fetched κ ε} (hok : PhaseOk cfg h y j phase)
    (hfl : y.flights[f]? = some fl) :
    PhaseOk cfg h { y with flights := y.flights.set f { fl with results := some r } } j phase := by
  cases phase with
  | waiting g =>
    refine ⟨hok.1, fun gl hgl hdone herr => ?_⟩
    rcases getElem?_set_cases hgl with ⟨rfl, rfl⟩ | ⟨-, hgl⟩
    · exact hok.2 fl hfl hdone herr
    · exact hok.2 gl hgl hdone herr
  | finishing g o | stamped g o =>
    obtain ⟨hheld, hflight, hcanceled, hex⟩ := hok
    exact ⟨hheld, hflight, hcanceled, exists_getElem?_set hfl hex fun _ _ => nofun⟩
  | _ => exact hok

/-- **Every step keeps the invariant.** -/
theorem Inv.step {l : Label κ ε} (hinv : Inv cfg h y) (hquiet : l.quiet = true)
    (hs : step cfg y l = some y') : Inv cfg (⟨y, l, y'⟩ :: h) y' := by
  cases l with
  | lookup kid a =>
    cases hs
    have hphase : ∀ f, ¬(lookup cfg kid a : Call κ ε).phase.Owns f ∧
        PhaseOk cfg (⟨y, .lookup kid a, { y with calls := y.calls ++ [lookup cfg kid a] }⟩ :: h) y
          y.calls.length (lookup cfg kid a : Call κ ε).phase := by
      intro f
      unfold lookup
      split_ifs <;> exact ⟨id, trivial⟩
    refine ⟨fun j d hj => ?_, fun j k d e f g hj hk hf hg => ?_, hinv.going, hinv.current,
      hinv.kept, hinv.stamps⟩
    · rcases getElem?_concat hj with hj | ⟨rfl, rfl⟩
      · obtain ⟨h₁, h₂, hold⟩ := hinv.calls j d hj
        exact ⟨h₁, h₂, hold.cons⟩
      · exact ⟨rfl, rfl, (hphase 0).2⟩
    · rcases getElem?_concat hj with hj | ⟨-, rfl⟩
      · rcases getElem?_concat hk with hk | ⟨-, rfl⟩
        · exact hinv.one j k d e f g hj hk hf hg
        · exact absurd hg (hphase g).1
      · exact absurd hf (hphase f).1
  | refresh | cancel i => exact nomatch hquiet
  | call i a =>
    obtain ⟨c, hi, hs⟩ := bind_eq_some_iff.mp hs
    exact hinv.stepCall hi hs
  | fetched f r =>
    obtain ⟨fl, hfl, hs⟩ := bind_eq_some_iff.mp hs
    obtain ⟨hnone, ⟨⟩⟩ := ite_none_right_eq_some.mp hs
    refine ⟨fun j d hj => ?_, hinv.one, fun g gl hgl hgoing => ?_, fun g hg => ?_, ?_, hinv.stamps⟩
    · obtain ⟨h₁, h₂, hold⟩ := hinv.calls j d hj
      exact ⟨h₁, h₂, (hold.fetched hfl).cons⟩
    · rcases getElem?_set_cases hgl with ⟨rfl, rfl⟩ | ⟨-, hgl⟩
      · exact nomatch hgoing
      · exact hinv.going g gl hgl hgoing
    · exact exists_getElem?_set hfl (hinv.current g hg) fun _ hdone => hdone
    · exact forall_mem_set hinv.kept (hinv.kept fl (mem_of_getElem? hfl))

end Steps

/-! ### Keys come from young snapshots -/

/-- **A call that returns a key** has found it in the snapshot, which was young. -/
def Returns (cfg : Config) (older : List (Ev κ ε)) (ev : Ev κ ε) : Prop :=
  ∀ i c k, ev.label.actor = some i → ev.after.calls[i]? = some c → c.phase = .returned (.key k) →
    ∃ p r, ev.before.publication = some p ∧ p.keys.lookup c.kid = some r ∧ r.key = k ∧
      recordMatchesAlgorithm r c.algorithm = true ∧ Young cfg i older p.fetchedAt

section Keys

variable {cfg : Config} {h : List (Ev κ ε)} {y y' : Sys κ ε} {i : ℕ} {c c' : Call κ ε}
  {k : Key κ} {start : ℤ}

theorem found_eq_key {r : Record κ} {a : Algorithm} (hfound : (found r a : Result κ ε) = .key k) :
    r.key = k ∧ recordMatchesAlgorithm r a = true := by
  unfold found at hfound
  split_ifs at hfound with hmatches
  · exact ⟨Result.key.inj hfound, hmatches⟩

theorem resume_ne_key (c : Call κ ε) (err : Option (Err ε)) :
    (resume c err).phase ≠ .returned (.key k) := by
  intro hkey
  rcases resume_phase c err with hphase | hphase | ⟨r, hphase, hne⟩
  · exact nomatch hphase.symm.trans hkey
  · exact nomatch hphase.symm.trans hkey
  · exact hne k (Phase.returned.inj (hphase.symm.trans hkey))

/-- **What a step makes of its call**: only the check and the second look return keys. -/
theorem stepCall_calls {a : Act} (hs : stepCall cfg y i c a = some y') :
    ∃ d, y'.calls = y.calls.set i d ∧
      ((∃ now, c.phase = .checking now ∧ d = check cfg y.publication now c) ∨
        c.phase = .rereading ∧ d = { c with phase := .returned (reread y.publication c) } ∨
        ∀ k, d.phase ≠ .returned (.key k)) := by
  cases did_of_stepCall hs with
  | check hphase => exact ⟨_, rfl, .inl ⟨_, hphase, rfl⟩⟩
  | reread hphase => exact ⟨_, rfl, .inr (.inl ⟨hphase, rfl⟩)⟩
  | read | join | start | complete | abandon | stamp => exact ⟨_, rfl, .inr (.inr nofun)⟩
  | cool | giveUp | yield => exact ⟨_, rfl, .inr (.inr fun k => resume_ne_key c _)⟩
  | wake =>
    refine ⟨_, rfl, .inr (.inr fun k => ?_)⟩
    split_ifs
    · exact resume_ne_key c _
    · exact nofun
    · exact resume_ne_key c _
  | @finish now t f fl o =>
    refine ⟨resume c o.err, ?_, .inr (.inr fun k => resume_ne_key c _)⟩
    change (finishRefresh y f fl c.forced t now o).calls.set i _ = _
    rw [(finishRefresh_eq y f fl c.forced t now o).2.2.2.1]

theorem Inv.returns {l : Label κ ε} (hinv : Inv cfg h y) (hs : Jwks.step cfg y l = some y') :
    Returns cfg h ⟨y, l, y'⟩ := by
  intro i c' k hactor hi' hkey
  cases l with
  | lookup kid a | refresh | cancel i | fetched f r => exact nomatch hactor
  | call j a =>
    obtain rfl := Option.some.inj hactor
    obtain ⟨c, hi, hs⟩ := bind_eq_some_iff.mp hs
    obtain ⟨-, -, hok⟩ := hinv.calls j c hi
    obtain ⟨d, hcalls, hd⟩ := stepCall_calls hs
    rw [hcalls, getElem?_set_of_some hi] at hi'
    cases hi'
    rcases hd with ⟨now, hphase, hcheck⟩ | ⟨hphase, rfl⟩ | hnot
    · rw [hphase] at hok
      rcases check_cases cfg y.publication now c with
        ⟨p, r, hp, hnow, hr, heq⟩ | ⟨p, -, -, heq⟩ | ⟨-, heq⟩
      · obtain rfl := hcheck.trans heq
        obtain ⟨hk, hmatches⟩ := found_eq_key (Phase.returned.inj hkey)
        exact ⟨p, r, hp, hr, hk, hmatches, hok _ (.inl ⟨p, hp, rfl⟩) hnow⟩
      · obtain rfl := hcheck.trans heq
        exact nomatch hkey
      · obtain rfl := hcheck.trans heq
        exact nomatch hkey
    · rw [hphase] at hok
      obtain ⟨-, p, hp, hyoung⟩ := hok
      have hfound := Phase.returned.inj hkey
      rw [hp] at hfound
      unfold Jwks.reread at hfound
      dsimp only at hfound
      cases hr : p.keys.lookup c.kid with
      | none =>
        rw [hr] at hfound
        exact nomatch hfound
      | some r =>
        rw [hr] at hfound
        obtain ⟨hk, hmatches⟩ := found_eq_key hfound
        exact ⟨p, r, hp, hr, hk, hmatches, hyoung⟩
    · exact absurd hkey (hnot k)

end Keys

end Bluetape.Jwks
