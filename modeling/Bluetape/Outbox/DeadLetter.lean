import Bluetape.Outbox.Relay

/-!
# Dead letters

A relay gives a record up as a dead letter when its attempts have reached the relay's `MaxAttempts`.
What `MarkFailed` compares is the column `attempts`, and that column counts *claims*, not failed
publications: a claim whose relay stopped before it called `Publish`, or whose rows were lost on the
way, counts like a failure. So a record can become a dead letter after fewer than `MaxAttempts`
calls of `Publish` have failed (`deadLetter_not_always_justified`).

What has to be ruled out is that a claim is **lost**: that a pass ends early, by an error, a
cancelled context or a crash, that the reply to a claim does not arrive, or that a lease runs out,
and the record is claimed again although no call of `Publish` has failed for the last claim
(`NoneLost`). A record that never loses a claim becomes a dead letter only after `MaxAttempts` calls
of `Publish` for it have returned an error (`deadLetter_justified`), whatever happens to the others:
its claims are at most one more than its failed calls, and no more once the last of them has failed
(`Counted`).
-/

namespace Bluetape.Outbox

open Go Lts Keyed List

/-! ### Claims that fail and claims that are lost -/

/-- The record for which an event's `Publish` returns an error. -/
def failedPublish (ev : Ev) : Option ℤ :=
  match ev.label with
  | .published i outcome =>
    match ev.before.relays i with
    | .publishing _ record => if outcome = .ok then none else some record.id
    | _ => none
  | _ => none

/-- The number of calls of `Publish` for a record that have returned an error. -/
def failures (id : ℤ) (h : List Ev) : ℕ := h.countP fun ev => failedPublish ev = some id

section

variable (relay : ℕ → Relay) (id : ℤ)

/-- The records that an event claims, whether or not they reach the relay. -/
def claimed (ev : Ev) : List ℤ :=
  match ev.label with
  | .claim i now locked _ _ =>
    (returned ev.before.table (.claim ((relay i).claimOptions now) now locked)).map Row.id
  | _ => []

/-- **The last claim of the record has failed**: since it was claimed last, a call of
`Publish` for it has returned an error. -/
def LastFailed : List Ev → Prop
  | [] => True
  | ev :: older => failedPublish ev = some id ∨ (id ∉ claimed relay ev ∧ LastFailed older)

instance decidableLastFailed : ∀ h, Decidable (LastFailed relay id h)
  | [] => isTrue trivial
  | ev :: older =>
    have := decidableLastFailed older
    inferInstanceAs (Decidable (failedPublish ev = some id ∨
      (id ∉ claimed relay ev ∧ LastFailed relay id older)))

/-- **No claim of the record is lost**: it is not claimed again before its last claim has
failed. -/
def NoneLost (older : List Ev) (ev : Ev) : Prop :=
  id ∈ claimed relay ev → LastFailed relay id older
  deriving Decidable

/-- The records that an event turns into dead letters, each with the relay that does
it. -/
def deadLetters (ev : Ev) : List (ℕ × Row) :=
  match ev.label with
  | .mark i _ _ =>
    (ev.before.table.rows.filter fun r => decide (r.status ≠ .deadLetter) &&
      (ev.after.table.get r.id).any fun r' => decide (r'.status = .deadLetter)).map (i, ·)
  | _ => []

/-- If the record becomes a dead letter, `MaxAttempts` calls of `Publish` for it have
failed before. -/
def Justified (older : List Ev) (ev : Ev) : Prop :=
  ∀ d ∈ deadLetters ev, d.2.id = id → (relay d.1).maxAttempt ≤ failures id older
  deriving Decidable

end

/-! ### Claims and failed calls -/

/-- The claim with which a row was returned has been handed out: the row has it, or a later
one. -/
def Issued (t : Table) (rec : Row) : Prop :=
  ∃ r, t.get rec.id = some r ∧ rec.attempts ≤ r.attempts

variable {relay : ℕ → Relay} {id : ℤ} {h : List Ev} {y y' : Sys} {l : Label}

/-- **The claims of a record, and its failed calls.** -/
structure Counted (relay : ℕ → Relay) (id : ℤ) (h : List Ev) (y : Sys) : Prop where
  /-- There is at most one claim that has not failed, and it is the last. -/
  row : ∀ r, y.table.get id = some r → r.attempts ≤ failures id h + 1 ∧
    (LastFailed relay id h → r.attempts ≤ failures id h)
  held : ∀ i, ∀ rec ∈ (y.relays i).held, Issued y.table rec
  /-- A relay that is about to mark the last claim as failed has seen it fail. -/
  marking : ∀ i c rec, y.relays i = .marking c rec true → Issued y.table rec ∧
    (rec.id = id → ∀ r, y.table.get id = some r → r.attempts ≤ rec.attempts →
      LastFailed relay id h)

theorem counted_init : Counted relay id [] init where
  row _ h := nomatch h
  held _ _ h := nomatch h
  marking _ _ _ h := nomatch h

section Tables

variable {t t' : Table} {s : Statement} {r r' : Row}

theorem issued_exec (he : exec t s = some t') {rec : Row} (h : Issued t rec) : Issued t' rec := by
  obtain ⟨r, hr, hle⟩ := h
  obtain ⟨r', hr', hstep⟩ := exec_get he hr
  exact ⟨r', hr', hle.trans hstep.attempts_le⟩

theorem issued_of_returned (he : exec t s = some t') {rec : Row} (hrec : rec ∈ returned t s) :
    Issued t' rec := by
  obtain ⟨-, -, -, -, -, hget⟩ := returned_spec he hrec
  exact ⟨rec, hget, le_refl _⟩

/-- **The attempts of a row are its claims**: only a claim of the row counts. -/
theorem attempts_exec (he : exec t s = some t') (hr' : t'.get id = some r') :
    r'.attempts = 0 ∨ ∃ r, t.get id = some r ∧ (r'.attempts = r.attempts ∨
      (r'.attempts = r.attempts + 1 ∧ id ∈ (returned t s).map Row.id)) := by
  rcases exec_get_inv he hr' with ⟨r, hr, hstep⟩ | ⟨-, a, v, at', -, -, rfl⟩
  · refine .inr ⟨r, hr, ?_⟩
    cases hstep with
    | same | publish | fail => exact .inl rfl
    | claim _ _ hmem =>
      exact .inr ⟨rfl, mem_map.mpr ⟨_, hmem, (Table.get_eq_some.mp hr).2⟩⟩
  · exact .inl rfl

/-- **What makes a record a dead letter**: its last claim is marked as failed, by a relay
whose `MaxAttempts` it has reached. -/
theorem deadLetter_of_mark {rl : Relay} {now clock : ℤ} {record : Row} {failed : Bool}
    (he : exec t (rl.markStatement now record failed clock) = some t') (hr : t.get id = some r)
    (hopen : r.status ≠ .deadLetter) (hr' : t'.get id = some r') (hdead : r'.status = .deadLetter) :
    failed = true ∧ record.id = id ∧ record.attempts = r.attempts ∧
      rl.maxAttempt ≤ r.attempts := by
  have hsame : t' = t → False := by
    rintro rfl
    obtain rfl := Option.mem_unique hr hr'
    exact hopen hdead
  cases failed with
  | false =>
    simp only [exec, Relay.markStatement, Bool.false_eq_true, if_false, markPublishedRecord,
      apply_ite Prod.fst] at he
    split_ifs at he <;> cases he
    · exact (hsame rfl).elim
    · exact (hsame rfl).elim
    · rw [Table.get_update, hr, Option.map_some, Option.some.injEq] at hr'
      split_ifs at hr' <;> cases hr'
      · cases hdead
      · exact absurd hdead hopen
  | true =>
    simp only [exec, Relay.markStatement, if_true, markFailed, apply_ite Prod.fst] at he
    split_ifs at he <;> cases he
    · exact (hsame rfl).elim
    · exact (hsame rfl).elim
    · exact (hsame rfl).elim
    · rw [Table.get_update, hr, Option.map_some, Option.some.injEq] at hr'
      split_ifs at hr' with hclaim <;> cases hr'
      · obtain ⟨-, hid, hattempts⟩ := isClaim_iff.mp hclaim
        refine ⟨rfl, hid.symm.trans (Table.get_eq_some.mp hr).2, hattempts.symm, ?_⟩
        by_contra hlt
        cases (if_neg hlt).symm.trans hdead
      · exact absurd hdead hopen

end Tables

/-! ### What a step does to the counts -/

/-- **The attempts of the record grow by a step that claims it**, and by no other. -/
theorem Move.attempts (hm : Move relay y l y') {r' : Row} (hr' : y'.table.get id = some r') :
    r'.attempts = 0 ∨ ∃ r, y.table.get id = some r ∧ (r'.attempts = r.attempts ∨
      (r'.attempts = r.attempts + 1 ∧ id ∈ claimed relay ⟨y, l, y'⟩)) := by
  cases hm with
  | enqueue he => exact (attempts_exec he hr').imp_right fun ⟨r, hr, h⟩ =>
      ⟨r, hr, h.imp_right fun ⟨_, hmem⟩ => nomatch hmem⟩
  | claim _ he => exact attempts_exec he hr'
  | @mark _ _ _ _ _ failed _ _ _ he =>
    rcases attempts_exec he hr' with hzero | ⟨r, hr, hsame | ⟨-, hmem⟩⟩
    · exact .inl hzero
    · exact .inr ⟨r, hr, .inl hsame⟩
    · cases failed <;> exact nomatch hmem
  | refused | publish | published | stop => exact .inr ⟨r', hr', .inl rfl⟩

/-- A step that claims the record gives it a new attempt. -/
theorem Move.lt_of_claimed (hm : Move relay y l y') (hmem : id ∈ claimed relay ⟨y, l, y'⟩)
    {r r' : Row} (hr : y.table.get id = some r) (hr' : y'.table.get id = some r') :
    r.attempts < r'.attempts := by
  cases hm with
  | refused hnone =>
    simp only [claimed, hnone] at hmem
    exact nomatch hmem
  | claim _ he =>
    obtain ⟨rec, hrec, rfl⟩ := mem_map.mp hmem
    obtain ⟨r₀, leaseUntil, hget, rfl, -, hget'⟩ := returned_spec he hrec
    obtain rfl := Option.mem_unique hget hr
    obtain rfl := Option.mem_unique hget' hr'
    exact Int.lt_succ _
  | enqueue | publish | published | mark | stop => exact nomatch hmem

theorem Sys.marking_setPhase {t : Table} {i j : ℕ} {phase : Phase} {c : RunOnce} {rec : Row}
    (h : ({ y with table := t }.setPhase i phase).relays j = .marking c rec true)
    (hne : phase ≠ .marking c rec true) : y.relays j = .marking c rec true := by
  by_cases hj : j = i
  · subst hj
    rw [Sys.relays_setPhase_self] at h
    exact absurd h hne
  · rwa [Sys.relays_setPhase_of_ne _ hj] at h

/-- **A relay is about to mark a record as failed** if it was before, or if its call of
`Publish` fails now. -/
theorem Move.marking (hm : Move relay y l y') {j : ℕ} {c : RunOnce} {rec : Row}
    (h : y'.relays j = .marking c rec true) :
    y.relays j = .marking c rec true ∨
      (rec ∈ (y.relays j).held ∧ failedPublish ⟨y, l, y'⟩ = some rec.id) := by
  cases hm with
  | enqueue | refused => exact .inl h
  | claim _ _ _ hphase =>
    refine .inl (Sys.marking_setPhase h ?_)
    rcases hphase with rfl | ⟨_, rfl⟩ <;> exact nofun
  | publish | stop => exact .inl (Sys.marking_setPhase h nofun)
  | @published i outcome c' record phase hphase hnext =>
    by_cases hj : j = i
    · subst hj
      obtain rfl : phase = .marking c rec true := (Sys.relays_setPhase_self ..).symm.trans h
      obtain ⟨rfl, rfl, hok⟩ := Phase.marking.inj (hnext.resolve_left nofun)
      refine .inr ⟨by rw [hphase]; exact mem_cons_self, ?_⟩
      simp only [failedPublish, hphase, if_neg (of_decide_eq_true hok.symm)]
    · exact .inl ((Sys.relays_setPhase_of_ne y hj _).symm.trans h)
  | mark _ _ hnext =>
    refine .inl (Sys.marking_setPhase h ?_)
    rcases hnext with rfl | ⟨_, rfl⟩ <;> exact nofun

theorem failures_cons (ev : Ev) :
    failures id (ev :: h) = failures id h + if failedPublish ev = some id then 1 else 0 := by
  rw [failures, countP_cons]
  simp only [decide_eq_true_eq]
  rfl

/-- **Every step keeps the count**, unless it loses a claim of the record. -/
theorem counted_step (hC : Counted relay id h y) (hs : step relay y l = some y')
    (hkept : NoneLost relay id h ⟨y, l, y'⟩) : Counted relay id (⟨y, l, y'⟩ :: h) y' := by
  have hm := move_of_step hs
  have hissued : ∀ rec, Issued y.table rec → Issued y'.table rec := by
    intro rec hrec
    rcases hm.table with hsame | ⟨s, he, -⟩
    · exact hsame ▸ hrec
    · exact issued_exec he hrec
  refine ⟨fun r' hr' => ?_, fun i rec hrec => ?_, fun i c rec hmark => ?_⟩
  · rw [failures_cons, LastFailed]
    rcases hm.attempts hr' with hzero | ⟨r, hr, hattempts⟩
    · omega
    · obtain ⟨hle, hlast⟩ := hC.row r hr
      by_cases hfail : failedPublish ⟨y, l, y'⟩ = some id
      · rw [if_pos hfail]
        rcases hattempts with hsame | ⟨hnew, hmem⟩
        · omega
        · have := hlast (hkept hmem)
          omega
      · rw [if_neg hfail]
        rcases hattempts with hsame | ⟨hnew, hmem⟩
        · refine ⟨by omega, fun h => ?_⟩
          have := hlast (h.resolve_left hfail).2
          omega
        · have := hlast (hkept hmem)
          exact ⟨by omega, fun h => absurd hmem (h.resolve_left hfail).1⟩
  · rcases hm.held hrec with hold | ⟨s, he, hret⟩
    · exact hissued rec (hC.held i rec hold)
    · exact issued_of_returned he hret
  · rcases hm.marking hmark with hold | ⟨hheld, hfail⟩
    · obtain ⟨hrec, hlast⟩ := hC.marking i c rec hold
      refine ⟨hissued rec hrec, ?_⟩
      rintro rfl r' hr' hle
      -- a new claim would have given the row more attempts than this one has
      obtain ⟨r, hr, hle'⟩ := hrec
      have hid := (Table.get_eq_some.mp hr).2
      obtain ⟨r₁, hr₁, hmono⟩ := hissued r ⟨r, hid.symm ▸ hr, le_refl _⟩
      obtain rfl := Option.mem_unique hr₁ (hid.symm ▸ hr')
      refine .inr ⟨fun hmem => ?_, hlast rfl r hr (hmono.trans hle)⟩
      exact absurd (hm.lt_of_claimed hmem hr hr') (not_lt.mpr (hle.trans hle'))
    · exact ⟨hissued rec (hC.held i rec hheld), fun hid _ _ _ => .inl (hid ▸ hfail)⟩

/-- **A record of which no claim is lost is given up with reason**: in every run of any number
of relays, if the record is never claimed again before a call of `Publish` for its last claim
has returned an error, then at least `MaxAttempts` calls for it have returned an error when it
becomes a dead letter. -/
theorem deadLetter_justified (hr : Run (step relay) init h y)
    (hkept : Always (NoneLost relay id) h) : Always (Justified relay id) h := by
  refine hr.always_of hkept counted_init (fun _ _ _ _ hC hs hk => counted_step hC hs hk) ?_
  intro h y l y' hC hs _ d hd hid
  have hm := move_of_step hs
  cases hm with
  | @mark i clock lost c record failed t phase hphase he =>
    obtain ⟨r, hrow, rfl⟩ := mem_map.mp hd
    obtain ⟨hmem, hboth⟩ := mem_filter.mp hrow
    obtain ⟨hopen, hdead⟩ := Bool.and_eq_true_iff.mp hboth
    obtain ⟨r', hr', hdead'⟩ := (Option.any_eq_true _ _).mp hdead
    obtain rfl : r.id = id := hid
    obtain ⟨rfl, hrecord, hattempts, hmax⟩ := deadLetter_of_mark he (Table.get_key hmem)
      (of_decide_eq_true hopen) hr' (of_decide_eq_true hdead')
    have hlast := (hC.marking i c record hphase).2 hrecord r (Table.get_key hmem) hattempts.ge
    exact hmax.trans ((hC.row r (Table.get_key hmem)).2 hlast)
  | enqueue | refused | claim | publish | published | stop => exact nomatch hd

/-- Three calls of `Publish` fail and the record becomes a dead letter: nothing is lost,
and the dead letter is justified. -/
theorem deadLetter_justified_three : ∃ h y,
    Run (step fun _ => Relay.default) init h y ∧ (h.flatMap deadLetters).length = 1 ∧
    Always (NoneLost (fun _ => Relay.default) 1) h ∧
    Always (Justified (fun _ => Relay.default) 1) h := by
  obtain ⟨h, y, hr, hone, hkept⟩ := exists_run (step fun _ => Relay.default) init
    [.enqueue 1 ⟨"order", "a"⟩ 1 0,
      .claim 0 0 [] [⟨1, .claimed, ⟨"order", "a"⟩, 1, 1, 30 * second⟩] false,
      .publish 0, .published 0 .error, .mark 0 0 false, .stop 0,
      .claim 0 second [] [⟨1, .claimed, ⟨"order", "a"⟩, 1, 2, 31 * second⟩] false,
      .publish 0, .published 0 .error, .mark 0 0 false, .stop 0,
      .claim 0 (2 * second) [] [⟨1, .claimed, ⟨"order", "a"⟩, 1, 3, 32 * second⟩] false,
      .publish 0, .published 0 .error, .mark 0 0 false]
    (fun h _ => (h.flatMap deadLetters).length = 1 ∧
      Always (NoneLost (fun _ => Relay.default) 1) h) (by decide +kernel)
  exact ⟨h, y, hr, hone, hkept, deadLetter_justified hr hkept⟩

/-- **A dead letter need not be justified**: the first two claims of a record are lost –
the relay stops before it calls `Publish` – and the single call that fails makes the
record a dead letter, with `MaxAttempts` at its default of 3. -/
theorem deadLetter_not_always_justified :
    ¬∀ h y, Run (step fun _ => Relay.default) init h y →
      Always (Justified (fun _ => Relay.default) 1) h := by
  intro hall
  obtain ⟨h, y, hr, hnot⟩ := exists_run (step fun _ => Relay.default) init
    [.enqueue 1 ⟨"order", "a"⟩ 1 0,
      .claim 0 0 [] [⟨1, .claimed, ⟨"order", "a"⟩, 1, 1, 30 * second⟩] false, .stop 0,
      .claim 0 (30 * second) [] [⟨1, .claimed, ⟨"order", "a"⟩, 1, 2, 60 * second⟩] false, .stop 0,
      .claim 0 (60 * second) [] [⟨1, .claimed, ⟨"order", "a"⟩, 1, 3, 90 * second⟩] false,
      .publish 0, .published 0 .error, .mark 0 0 false]
    (fun h _ => ¬Always (Justified (fun _ => Relay.default) 1) h) (by decide +kernel)
  exact hnot (hall h y hr)

end Bluetape.Outbox
