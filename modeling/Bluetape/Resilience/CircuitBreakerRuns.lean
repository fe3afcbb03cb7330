import Mathlib.Data.List.TakeWhile
import Bluetape.Resilience.CircuitBreaker

/-!
# What a circuit breaker guarantees along a run

Three properties one expects of a breaker under any interleaving of calls – it
stays open until its timeout, it bounds the probes in flight, it trips on
consecutive failures – and for each of them the exact place where the code gives
it up. All three failures have one cause: an outcome is accounted to the breaker's
*present* state although it belongs to a call let in under an earlier one.

| property | lost when | theorem |
|---|---|---|
| leaves `Open` only by a timed `beforeCall` | a late probe succeeds while open | `leavesOpenOnTime_iff` |
| probes in flight ≤ `HalfOpenMaxConcurrent` | a reset forgets running probes | `probes_le_of_no_forgetting` |
| trips on `FailureThreshold` consecutive failures | a late probe fails while closed | `tripsOnFailures_iff` |

The first and the third are equivalences along each run: the property holds of
every step of the run exactly when no step of the run is the offending one.
-/

namespace Bluetape.Resilience

open Lts List

variable {p : Policy} {h : List Ev} {s : Sys}

/-! ### Leaving the open state -/

variable (p) in
/-- A step leaves the open state only by a `beforeCall` that moves it to half-open
at a clock reading at least `OpenTimeout` after the opening. -/
def LeavesOpenOnTime (ev : Ev) : Prop :=
  ev.before.breaker.state = .opened → ev.after.breaker.state ≠ .opened →
    ev.after.breaker.state = .halfOpen ∧
      ∃ id now, ev.label = .beforeCall id now ∧ p.openTimeout ≤ now - ev.before.breaker.openedAt

variable (p) in
/-- **A late probe closes an open breaker**: a call let in as a half-open probe
reports success while the breaker is open, and this success completes the
threshold. -/
def LateSuccessCloses (ev : Ev) : Prop :=
  ∃ id now c, ev.label = .afterCall id false now ∧ ev.before.find id = some c ∧
    c.2 = .halfOpen ∧ ev.before.breaker.state = .opened ∧
    p.successThreshold ≤ ev.before.breaker.successCount + 1

variable {e : Label}

/-- **Step by step, the two are opposite**: among the steps out of the open state
the only untimely one is a late success. -/
theorem leavesOpenOnTime_step_iff {s s' : Sys} (hs : step p s e = some s') :
    LeavesOpenOnTime p ⟨s, e, s'⟩ ↔ ¬LateSuccessCloses p ⟨s, e, s'⟩ := by
  rcases step_cases hs with ⟨id, now, rfl, hcases⟩ | ⟨id, failed, now, c, rfl, hfind, rfl⟩
  · refine iff_of_true ?_ ?_
    · intro hopen hleft
      rcases hcases with ⟨hst, -⟩ | ⟨-, rfl⟩ | ⟨hst, -⟩ | ⟨-, hel, hhalf, -⟩
      · exact nomatch hst.symm.trans hopen
      · exact absurd hopen hleft
      · exact nomatch hst.symm.trans hopen
      · exact ⟨hhalf, id, now, rfl, hel⟩
    · rintro ⟨id', now', c, hlab, -⟩
      exact Label.noConfusion hlab
  · have hlate : LateSuccessCloses p ⟨s, .afterCall id failed now,
        ⟨(afterCall p s.breaker c.2 failed now).1, s.calls.erase c⟩⟩ ↔
        s.breaker.state = .opened ∧ resets p s.breaker c.2 failed := by
      constructor
      · rintro ⟨id', now', c', hlab, hfind', hhalf, hopen, hth⟩
        cases hlab
        obtain rfl : c = c' := Option.mem_unique hfind hfind'
        exact ⟨hopen, (resets_of_opened hopen).mpr ⟨hhalf, rfl, hth⟩⟩
      · rintro ⟨hopen, hres⟩
        obtain ⟨hhalf, rfl, hth⟩ := (resets_of_opened hopen).mp hres
        exact ⟨id, now, c, rfl, hfind, hhalf, hopen, hth⟩
    rw [hlate, not_and]
    constructor
    · intro honTime hopen hres
      -- a reset leaves the open state, and no `afterCall` may
      obtain ⟨hne, htgt, -⟩ := afterCall_of_resets now hres
      obtain ⟨-, _, _, hbad, -⟩ := honTime hopen (by
        rw [hopen] at hne
        exact fun hstay => hne (hstay.symm.trans htgt))
      exact Label.noConfusion hbad
    · intro hno hopen hleft
      obtain ⟨hstay, -⟩ := afterCall_of_not_resets now (hno hopen)
      exact absurd (hstay.trans hopen) hleft

/-- **When the breaker leaves the open state only on time**: in every run of any
number of concurrent calls, all departures from the open state are timed moves to
half-open exactly when no half-open probe completes the success threshold while
the breaker is open. -/
theorem leavesOpenOnTime_iff (hr : Runs p h s) :
    (∀ ev ∈ h, LeavesOpenOnTime p ev) ↔ ∀ ev ∈ h, ¬LateSuccessCloses p ev := by
  rw [← always_iff_forall_mem, ← always_iff_forall_mem]
  exact hr.always_iff (I := fun _ _ => True) trivial (fun _ _ _ _ _ _ _ => trivial)
    fun _ _ _ _ _ hs => leavesOpenOnTime_step_iff hs

/-- A breaker with the given failure threshold that closes on one success and
lets two probes in, one nanosecond after opening. -/
def twoProbes (failureThreshold : ℤ) (hpos : 0 < failureThreshold) : Policy where
  name := "two-probes"
  failureThreshold := failureThreshold
  successThreshold := 1
  openTimeout := 1
  halfOpenMaxConcurrent := 2
  failureThreshold_pos := hpos
  successThreshold_pos := Int.one_pos
  openTimeout_pos := Int.one_pos
  halfOpenMaxConcurrent_pos := by decide

def Label.succeeded : Label → Bool
  | .beforeCall _ _ => false
  | .afterCall _ failed _ => !failed

/-- A failure opens the breaker, the timeout passes, and a failed probe opens it
again: this run meets the condition, so it leaves the open state on time. -/
theorem leavesOpenOnTime_reopened :
    ∃ h s, Runs (twoProbes 1 (by decide)) h s ∧ s.breaker.state = .opened ∧
      ∀ ev ∈ h, LeavesOpenOnTime (twoProbes 1 (by decide)) ev := by
  obtain ⟨h, s, hr, hopened, hfailed⟩ := exists_run (step (twoProbes 1 (by decide))) {}
    [.beforeCall 0 0, .afterCall 0 true 0, .beforeCall 1 1, .afterCall 1 true 1]
    (fun h s => s.breaker.state = .opened ∧ ∀ ev ∈ h, ev.label.succeeded = false)
    (by decide)
  refine ⟨h, s, hr, hopened, (leavesOpenOnTime_iff hr).mpr fun ev hev => ?_⟩
  rintro ⟨id, now, c, hlab, -⟩
  have := hfailed ev hev
  rw [hlab] at this
  exact nomatch this

/-- **The open state can be left early**: two probes are let in, one fails and
reopens the breaker, the other succeeds and closes it at once. -/
theorem late_success_closes_open :
    ¬∀ (p : Policy) (h : List Ev) (s : Sys), Runs p h s → ∀ ev ∈ h, LeavesOpenOnTime p ev := by
  intro hall
  obtain ⟨h, s, hr, ev, hev, hopened, hclosed⟩ :=
    exists_run (step (twoProbes 1 (by decide))) {}
      [.beforeCall 0 0, .afterCall 0 true 0, .beforeCall 1 1, .beforeCall 2 1,
      .afterCall 1 true 1, .afterCall 2 false 1]
      (fun h _ => ∃ ev ∈ h, ev.before.breaker.state = .opened ∧ ev.after.breaker.state = .closed)
      (by decide)
  obtain ⟨hhalf, -⟩ := hall _ h s hr ev hev hopened (by
    rw [hclosed]
    decide)
  exact nomatch hclosed.symm.trans hhalf

/-! ### The number of probes in flight -/

theorem Sys.probes_cons (b : Breaker) (id : ℕ) (st : CircuitState)
    (calls : List (ℕ × CircuitState)) :
    Sys.probes ⟨b, (id, st) :: calls⟩ =
      Sys.probes ⟨b, calls⟩ + if st = .halfOpen then 1 else 0 := by
  simp only [Sys.probes, countP_cons, beq_iff_eq]

theorem Sys.probes_erase {s : Sys} {c : ℕ × CircuitState} (hc : c ∈ s.calls) (b : Breaker) :
    Sys.probes ⟨b, s.calls.erase c⟩ + (if c.2 = .halfOpen then 1 else 0) = s.probes := by
  have hperm := (perm_cons_erase hc).countP_eq (fun c => c.2 == .halfOpen)
  simp only [Sys.probes, hperm, countP_cons, beq_iff_eq]

variable (p) in
/-- **A reset forgets running probes**: an outcome makes `transitionLocked` set
`halfOpenInFlight` to zero while probes other than the reporting call are still in
flight. -/
def ForgetsProbes (ev : Ev) : Prop :=
  ∃ id failed now c, ev.label = .afterCall id failed now ∧ ev.before.find id = some c ∧
    resets p ev.before.breaker c.2 failed ∧
    Sys.probes ⟨ev.before.breaker, ev.before.calls.erase c⟩ ≠ 0

variable (p) in
/-- The counter agrees with the probes in flight in the half-open state and is
within the limit, and no probe is in flight otherwise. -/
structure ProbesCounted (s : Sys) : Prop where
  counted : s.breaker.state = .halfOpen →
    s.breaker.halfOpenInFlight = s.probes ∧ s.breaker.halfOpenInFlight ≤ p.halfOpenMaxConcurrent
  settled : s.breaker.state ≠ .halfOpen → s.probes = 0

/-- **The counter stays honest as long as no reset forgets a probe.** -/
theorem probesCounted_step {s s' : Sys} (hinv : ProbesCounted p s) (hs : step p s e = some s')
    (hok : ¬ForgetsProbes p ⟨s, e, s'⟩) : ProbesCounted p s' := by
  rcases step_cases hs with ⟨id, now, rfl, hcases⟩ | ⟨id, failed, now, c, rfl, hfind, rfl⟩
  · rcases hcases with ⟨hst, rfl⟩ | ⟨-, rfl⟩ | ⟨hst, hlt, rfl⟩ | ⟨hst, -, hhalf, hfl, hcalls⟩
    · refine ⟨fun hc => (nomatch hst.symm.trans hc), fun hne => ?_⟩
      exact hinv.settled hne
    · exact hinv
    · refine ⟨fun _ => ?_, fun hne => absurd hst hne⟩
      obtain ⟨hcount, -⟩ := hinv.counted hst
      rw [Sys.probes_cons, if_pos rfl]
      refine ⟨?_, hlt⟩
      change s.breaker.halfOpenInFlight + 1 = ((s.probes + 1 : ℕ) : ℤ)
      omega
    · -- the first probe of a half-open period: none is left from before
      have hzero : s.probes = 0 := hinv.settled (by
        rw [hst]
        decide)
      have hone : s'.probes = 1 := by
        have := Sys.probes_cons s'.breaker id .halfOpen s.calls
        rw [← hcalls] at this
        rw [this, if_pos rfl]
        exact congrArg (· + 1) hzero
      refine ⟨fun _ => ?_, fun hne => absurd hhalf hne⟩
      have hpos := p.halfOpenMaxConcurrent_pos
      omega
  · have hmem := Sys.mem_of_find hfind
    have herase := Sys.probes_erase hmem (afterCall p s.breaker c.2 failed now).1
    by_cases hres : resets p s.breaker c.2 failed
    · -- the condition says that the counter is reset over no running probe
      have hzero : Sys.probes ⟨(afterCall p s.breaker c.2 failed now).1, s.calls.erase c⟩ = 0 := by
        by_contra hne
        exact hok ⟨id, failed, now, c, rfl, hfind, hres, hne⟩
      obtain ⟨-, -, -, hfl⟩ := afterCall_of_resets now hres
      have hpos := p.halfOpenMaxConcurrent_pos
      refine ⟨fun _ => ?_, fun _ => hzero⟩
      rw [hzero, hfl]
      exact ⟨rfl, hpos.le⟩
    · obtain ⟨hstay, hfl, -⟩ := afterCall_of_not_resets now hres
      refine ⟨fun hhalf => ?_, fun hne => ?_⟩
      · obtain ⟨hcount, hle⟩ := hinv.counted (hstay.symm.trans hhalf)
        split_ifs at herase with hc
        · rw [if_pos ⟨hc, by omega⟩] at hfl
          constructor <;> rw [hfl] <;> omega
        · rw [if_neg (fun hcon => hc hcon.1)] at hfl
          constructor <;> rw [hfl] <;> omega
      · have hzero := hinv.settled (fun hhalf => hne (hstay.trans hhalf))
        omega

/-- **When the probes in flight stay within the limit**: in every run none of whose
resets forgets a running probe, at most `HalfOpenMaxConcurrent` half-open probes are
in flight in every state reached. -/
theorem probes_le_of_no_forgetting (hr : Runs p h s) (hok : ∀ ev ∈ h, ¬ForgetsProbes p ev) :
    (s.probes : ℤ) ≤ p.halfOpenMaxConcurrent := by
  have hinv : ProbesCounted p s :=
    hr.invariant_of_mem hok ⟨nofun, fun _ => rfl⟩
      fun _ _ _ hinv hs hc => probesCounted_step hinv hs hc
  have hpos := p.halfOpenMaxConcurrent_pos
  by_cases hst : s.breaker.state = .halfOpen
  · obtain ⟨hcount, hle⟩ := hinv.counted hst
    omega
  · rw [hinv.settled hst]
    exact hpos.le

/-- Two probes are let in, with a third call rejected: the limit is met exactly. -/
theorem probes_le_two_probes :
    ∃ h s, Runs (twoProbes 1 (by decide)) h s ∧ s.probes = 2 ∧
      (s.probes : ℤ) ≤ (twoProbes 1 (by decide)).halfOpenMaxConcurrent := by
  obtain ⟨h, s, hr, hprobes, hfirst⟩ := exists_run (step (twoProbes 1 (by decide))) {}
    [.beforeCall 0 0, .afterCall 0 true 0, .beforeCall 1 1, .beforeCall 2 1,
    .beforeCall 3 1]
    (fun h s => s.probes = 2 ∧ ∀ ev ∈ h, (match ev.label with
      | .afterCall _ _ _ => ev.before.calls == [(0, .closed)]
      | _ => true) = true)
    (by decide)
  refine ⟨h, s, hr, hprobes, probes_le_of_no_forgetting hr fun ev hev => ?_⟩
  rintro ⟨id, failed, now, c, hlab, hfind, -, hne⟩
  have hcalls := hfirst ev hev
  rw [hlab] at hcalls
  have hcalls' : ev.before.calls = [(0, .closed)] := by simpa using hcalls
  have hc := Sys.mem_of_find hfind
  rw [hcalls', mem_singleton] at hc
  subst hc
  rw [hcalls'] at hne
  exact hne (by simp [Sys.probes])

/-- **The limit can be exceeded**: one of two probes fails, which reopens the breaker
and forgets the other; after the timeout two more are let in. -/
theorem probes_exceed_limit :
    ¬∀ (p : Policy) (h : List Ev) (s : Sys), Runs p h s →
      (s.probes : ℤ) ≤ p.halfOpenMaxConcurrent := by
  intro hall
  obtain ⟨h, s, hr, hprobes⟩ := exists_run (step (twoProbes 1 (by decide))) {}
    [.beforeCall 0 0, .afterCall 0 true 0, .beforeCall 1 1, .beforeCall 2 1,
    .afterCall 1 true 1, .beforeCall 3 2, .beforeCall 4 2]
    (fun _ s => s.probes = 3)
    (by decide)
  have hle := hall _ h s hr
  rw [hprobes] at hle
  exact nomatch hle

/-! ### Tripping on consecutive failures -/

/-- An outcome processed by `afterCall`: the state its call was let in with, and
whether it failed. -/
structure Outcome where
  callState : CircuitState
  failed : Bool
  deriving DecidableEq, Repr

/-- A success of a call let in with the closed state – what clears the failure
counter. -/
def Outcome.clears (o : Outcome) : Bool := o.callState == .closed && !o.failed

/-- The outcome an event processes, if it is an `afterCall`. -/
def outcome (ev : Ev) : Option Outcome :=
  match ev.label with
  | .beforeCall _ _ => none
  | .afterCall id failed _ => (ev.before.find id).map fun c => ⟨c.2, failed⟩

/-- **The outcomes processed since the breaker last entered the closed state** (or
since its creation), newest first. -/
def sinceClosed : List Ev → List Outcome
  | [] => []
  | ev :: h =>
    if ev.before.breaker.state ≠ .closed ∧ ev.after.breaker.state = .closed then []
    else (outcome ev).toList ++ sinceClosed h

/-- At least `n` failed outcomes among the most recent ones, with no success of a
call let in closed processed since the first of them. -/
def FailedInARow (n : ℤ) (outcomes : List Outcome) : Prop :=
  ∃ recent, recent <+: outcomes ∧ n ≤ recent.countP (·.failed) ∧ ∀ o ∈ recent, o.clears = false

variable (p) in
/-- A step trips the breaker – takes it from closed to open – only after
`FailureThreshold` failures in a row since it last entered the closed state. -/
def TripsOnFailures (older : List Ev) (ev : Ev) : Prop :=
  ev.before.breaker.state = .closed → ev.after.breaker.state = .opened →
    FailedInARow p.failureThreshold (sinceClosed (ev :: older))

variable (p) in
/-- **A late probe trips a closed breaker**: a call let in as a half-open probe
fails while the breaker is closed, with too few failures counted. -/
def LateFailureTrips (ev : Ev) : Prop :=
  ∃ id now c, ev.label = .afterCall id true now ∧ ev.before.find id = some c ∧
    c.2 = .halfOpen ∧ ev.before.breaker.state = .closed ∧
    ev.before.breaker.failureCount + 1 < p.failureThreshold

/-- The failures since the last success of a call let in closed. -/
def streak (outcomes : List Outcome) : ℤ :=
  (outcomes.takeWhile (fun o => !o.clears)).countP (·.failed)

theorem streak_cons (o : Outcome) (outcomes : List Outcome) :
    streak (o :: outcomes) =
      if o.clears then 0 else streak outcomes + if o.failed then 1 else 0 := by
  cases hc : o.clears with
  | true => simp [streak, hc]
  | false =>
    simp only [streak, takeWhile_cons, hc, Bool.not_false, if_true, countP_cons]
    cases o.failed <;> simp

/-- A stretch of the most recent outcomes without a clearing one holds at most the
failures of the streak. -/
theorem countP_le_streak {recent outcomes : List Outcome} (hpre : recent <+: outcomes)
    (hno : ∀ o ∈ recent, o.clears = false) : (recent.countP (·.failed) : ℤ) ≤ streak outcomes := by
  obtain ⟨rest, rfl⟩ := hpre
  have hall : recent.takeWhile (fun o => !o.clears) = recent := by
    rw [takeWhile_eq_self_iff]
    intro o ho
    simp [hno o ho]
  have hlen : (recent.takeWhile (fun o => !o.clears)).length = recent.length := by rw [hall]
  rw [streak, takeWhile_append, if_pos hlen, countP_append]
  omega

/-- **Failing in a row is having a long enough streak.** -/
theorem failedInARow_iff (n : ℤ) (outcomes : List Outcome) :
    FailedInARow n outcomes ↔ n ≤ streak outcomes := by
  constructor
  · rintro ⟨recent, hpre, hn, hno⟩
    exact hn.trans (countP_le_streak hpre hno)
  · intro hn
    refine ⟨_, List.takeWhile_prefix _, hn, fun o ho => ?_⟩
    simpa using mem_takeWhile_imp ho

/-- In the closed state the failure counter is the streak: the counter is reset on
entering the state, and the only other failures – those of late probes – take the
breaker out of it. No call was let in with the open state. -/
structure CountsStreak (h : List Ev) (s : Sys) : Prop where
  noneOpened : ∀ c ∈ s.calls, c.2 ≠ .opened
  counts : s.breaker.state = .closed → s.breaker.failureCount = streak (sinceClosed h)

theorem noneOpened_step {s s' : Sys} (hinv : ∀ c ∈ s.calls, c.2 ≠ .opened)
    (hs : step p s e = some s') : ∀ c ∈ s'.calls, c.2 ≠ .opened := by
  rcases step_cases hs with ⟨id, now, rfl, hcases⟩ | ⟨id, failed, now, c, rfl, -, rfl⟩
  · rcases hcases with ⟨-, rfl⟩ | ⟨-, rfl⟩ | ⟨-, -, rfl⟩ | ⟨-, -, -, -, hcalls⟩
    · exact forall_mem_cons.mpr ⟨by simp, hinv⟩
    · exact hinv
    · exact forall_mem_cons.mpr ⟨by simp, hinv⟩
    · rw [hcalls]
      exact forall_mem_cons.mpr ⟨by simp, hinv⟩
  · exact fun c' hc' => hinv c' (mem_of_mem_erase hc')

/-- The outcomes after an `afterCall` that did not enter the closed state. -/
theorem sinceClosed_afterCall {s s' : Sys} {id : ℕ} {failed : Bool} {now : ℤ} {c : ℕ × CircuitState}
    (hfind : s.find id = some c) (hst : s.breaker.state = .closed ∨ s'.breaker.state ≠ .closed) :
    sinceClosed (⟨s, .afterCall id failed now, s'⟩ :: h) = ⟨c.2, failed⟩ :: sinceClosed h := by
  have hno : ¬(s.breaker.state ≠ .closed ∧ s'.breaker.state = .closed) := by
    rintro ⟨h1, h2⟩
    exact hst.elim h1 fun h3 => h3 h2
  rw [sinceClosed, if_neg hno]
  simp [outcome, hfind]

/-- The outcomes are not affected by a `beforeCall`, which never enters the closed
state. -/
theorem sinceClosed_beforeCall {s s' : Sys} {id : ℕ} {now : ℤ}
    (hst : s'.breaker.state = .closed → s.breaker.state = .closed) :
    sinceClosed (⟨s, .beforeCall id now, s'⟩ :: h) = sinceClosed h := by
  have hno : ¬(s.breaker.state ≠ .closed ∧ s'.breaker.state = .closed) := by
    rintro ⟨h1, h2⟩
    exact h1 (hst h2)
  rw [sinceClosed, if_neg hno]
  rfl

/-- **Every step keeps the counter equal to the streak.** -/
theorem countsStreak_step {s s' : Sys} (hinv : CountsStreak h s) (hs : step p s e = some s') :
    CountsStreak (⟨s, e, s'⟩ :: h) s' := by
  refine ⟨noneOpened_step hinv.noneOpened hs, fun hclosed => ?_⟩
  rcases step_cases hs with ⟨id, now, rfl, hcases⟩ | ⟨id, failed, now, c, rfl, hfind, rfl⟩
  · rcases hcases with ⟨hst, rfl⟩ | ⟨-, rfl⟩ | ⟨hst, -, rfl⟩ | ⟨-, -, hhalf, -⟩
    · rw [sinceClosed_beforeCall fun _ => hst]
      exact hinv.counts hst
    · rw [sinceClosed_beforeCall fun hst => hst]
      exact hinv.counts hclosed
    · exact nomatch hst.symm.trans hclosed
    · exact nomatch hhalf.symm.trans hclosed
  · by_cases hres : resets p s.breaker c.2 failed
    · -- the state was entered by this very step
      obtain ⟨hne, htgt, hzero, -⟩ := afterCall_of_resets now hres
      have hcl : resetTarget c.2 failed = .closed := htgt.symm.trans hclosed
      rw [hcl] at hne
      rw [sinceClosed, if_pos ⟨hne, hclosed⟩]
      exact hzero
    · obtain ⟨hstay, -, hcount⟩ := afterCall_of_not_resets now hres
      have hst : s.breaker.state = .closed := hstay.symm.trans hclosed
      rw [sinceClosed_afterCall hfind (.inl hst), streak_cons, ← hinv.counts hst]
      rw [hcount]
      cases hc : c.2 with
      | closed => cases failed <;> simp [Outcome.clears]
      | opened => exact absurd hc (hinv.noneOpened c (Sys.mem_of_find hfind))
      | halfOpen =>
        cases failed with
        | false => simp [Outcome.clears]
        -- a late probe's failure is not counted, but then it takes the breaker out of closed
        | true => exact absurd ((resets_of_closed hst).mpr ⟨rfl, .inl hc⟩) hres

/-- **Step by step, the two are opposite**: a step from closed to open has its
failures in a row, unless it is the failure of a late probe. -/
theorem tripsOnFailures_step_iff {s s' : Sys} (hinv : CountsStreak h s) (hs : step p s e = some s')
    :
    TripsOnFailures p h ⟨s, e, s'⟩ ↔ ¬LateFailureTrips p ⟨s, e, s'⟩ := by
  rcases step_cases hs with ⟨id, now, rfl, hcases⟩ | ⟨id, failed, now, c, rfl, hfind, rfl⟩
  · refine iff_of_true ?_ ?_
    · intro hclosed hopen
      rcases hcases with ⟨hst, rfl⟩ | ⟨hst, -⟩ | ⟨hst, -⟩ | ⟨hst, -⟩
      · exact nomatch hst.symm.trans hopen
      · exact absurd hclosed hst
      · exact nomatch hst.symm.trans hclosed
      · exact nomatch hst.symm.trans hclosed
    · rintro ⟨id', now', c, hlab, -⟩
      exact Label.noConfusion hlab
  · by_cases hclosed : s.breaker.state = .closed
    · have hsince : sinceClosed (⟨s, .afterCall id failed now,
          ⟨(afterCall p s.breaker c.2 failed now).1, s.calls.erase c⟩⟩ :: h) =
          ⟨c.2, failed⟩ :: sinceClosed h := sinceClosed_afterCall hfind (.inl hclosed)
      by_cases hres : resets p s.breaker c.2 failed
      · obtain ⟨rfl, hwhy⟩ := (resets_of_closed hclosed).mp hres
        obtain ⟨-, htgt, -⟩ := afterCall_of_resets now hres
        have hopen : (afterCall p s.breaker c.2 true now).1.state = .opened := by
          rw [htgt]
          cases c.2 <;> rfl
        have hstreak : streak (⟨c.2, true⟩ :: sinceClosed h) = s.breaker.failureCount + 1 := by
          rw [streak_cons, ← hinv.counts hclosed]
          simp [Outcome.clears]
        constructor
        · rintro htrips ⟨id', now', c', hlab, hfind', -, -, hfew⟩
          have hrow := htrips hclosed hopen
          rw [hsince, failedInARow_iff, hstreak] at hrow
          exact absurd hrow (not_le.mpr hfew)
        · intro hno _ _
          rw [hsince, failedInARow_iff, hstreak]
          -- either the counter has reached the threshold, or a probe has failed
          rcases hwhy with hhalf | ⟨-, hth⟩
          · by_contra hfew
            exact hno ⟨id, now, c, rfl, hfind, hhalf, hclosed, not_le.mp hfew⟩
          · exact hth
      · obtain ⟨hstay, -⟩ := afterCall_of_not_resets now hres
        refine iff_of_true (fun _ hopen => ?_) ?_
        · exact nomatch (hstay.trans hclosed).symm.trans hopen
        · rintro ⟨id', now', c', hlab, hfind', hhalf, -⟩
          cases hlab
          obtain rfl : c = c' := Option.mem_unique hfind hfind'
          exact hres ((resets_of_closed hclosed).mpr ⟨rfl, .inl hhalf⟩)
    · refine iff_of_true (fun hc => absurd hc hclosed) ?_
      rintro ⟨_, _, _, _, _, _, hc, _⟩
      exact hclosed hc

/-- **When the breaker trips only on consecutive failures**: in every run of any
number of concurrent calls, every move from closed to open comes after
`FailureThreshold` failures in a row since the breaker last entered the closed state,
exactly when no half-open probe fails in the closed state with fewer than
`FailureThreshold - 1` failures counted. -/
theorem tripsOnFailures_iff (hr : Runs p h s) :
    Always (TripsOnFailures p) h ↔ ∀ ev ∈ h, ¬LateFailureTrips p ev := by
  rw [← always_iff_forall_mem]
  exact hr.always_iff (I := CountsStreak) ⟨nofun, fun _ => rfl⟩
    (fun _ _ _ _ hinv hs _ => countsStreak_step hinv hs)
    fun _ _ _ _ hinv hs => tripsOnFailures_step_iff hinv hs

/-- Two failures of calls let in closed trip a breaker of threshold two. -/
theorem tripsOnFailures_two_failures :
    ∃ h s, Runs (twoProbes 2 (by decide)) h s ∧ s.breaker.state = .opened ∧
      Always (TripsOnFailures (twoProbes 2 (by decide))) h := by
  obtain ⟨h, s, hr, hopened, hcalls⟩ := exists_run (step (twoProbes 2 (by decide))) {}
    [.beforeCall 0 0, .beforeCall 1 0, .afterCall 0 true 0, .afterCall 1 true 0]
    (fun h s => s.breaker.state = .opened ∧ ∀ ev ∈ h, ∀ c ∈ ev.before.calls, c.2 = .closed)
    (by decide)
  refine ⟨h, s, hr, hopened, (tripsOnFailures_iff hr).mpr fun ev hev => ?_⟩
  rintro ⟨id, now, c, -, hfind, hhalf, -⟩
  have hcl := hcalls ev hev c (Sys.mem_of_find hfind)
  exact nomatch hcl.symm.trans hhalf

/-- **A single late failure can trip the breaker**: of two probes one succeeds and
closes it, and the failure of the other reopens it although the threshold is two. -/
theorem late_failure_trips_closed :
    ¬∀ (p : Policy) (h : List Ev) (s : Sys), Runs p h s → Always (TripsOnFailures p) h := by
  intro hall
  obtain ⟨h, s, hr, ev, older, rfl, hclosed, hopened, hstreak⟩ :=
    exists_run (step (twoProbes 2 (by decide))) {}
      [.beforeCall 0 0, .beforeCall 1 0, .afterCall 0 true 0, .afterCall 1 true 0,
      .beforeCall 2 1, .beforeCall 3 1, .afterCall 2 false 1, .afterCall 3 true 1]
      (fun h _ => ∃ ev older, h = ev :: older ∧ ev.before.breaker.state = .closed ∧
        ev.after.breaker.state = .opened ∧ streak (sinceClosed (ev :: older)) = 1)
      (by decide)
  have hrow := hall _ _ s hr older ev (suffix_refl _) hclosed hopened
  rw [failedInARow_iff, hstreak] at hrow
  exact nomatch hrow

end Bluetape.Resilience
