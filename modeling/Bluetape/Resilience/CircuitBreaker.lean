import Bluetape.Go
import Bluetape.Library.Run

/-!
# The circuit breaker

A model of `resilience/circuit_breaker.go`: the validated options, the mutable fields behind the
mutex, and the two critical sections a protected call runs – `beforeCall` on the way in and
`afterCall` on the way out. Both are functions on `Breaker`, with the clock reading as an argument.

The point that decides what the breaker guarantees is visible in the type of `afterCall`: it
receives the state the call was *let in* with, and the breaker may have moved since. `Sys` therefore
keeps, beside the breaker, the calls that are in flight with the state each was let in with; a step
is one critical section of one call (`step`), so a run is an interleaving of any number of
concurrent calls.

Left out: the `State` accessor, and `FailureIf`, which classifies the error of the
protected operation before `afterCall` is entered – the classification is the
`failed` argument, and a panicking operation counts as failed.
-/

namespace Bluetape.Resilience

open Go

/-! ### Options -/

inductive CircuitState where
  /-- `CircuitStateClosed` admits calls and records outcomes. -/
  | closed
  /-- `CircuitStateOpen` rejects calls until the open interval elapses. -/
  | opened
  /-- `CircuitStateHalfOpen` admits a bounded number of probe calls. -/
  | halfOpen
  deriving DecidableEq, Repr

/-- `CircuitBreakerOptions`, as the caller writes them. -/
structure CircuitBreakerOptions where
  name : String
  failureThreshold : ℤ
  successThreshold : ℤ
  openTimeout : ℤ
  halfOpenMaxConcurrent : ℤ

/-- The options of a constructed `CircuitBreakerPolicy`: every bound is positive,
which is what `NewCircuitBreaker` establishes. -/
structure Policy where
  name : String
  failureThreshold : ℤ
  successThreshold : ℤ
  openTimeout : ℤ
  halfOpenMaxConcurrent : ℤ
  failureThreshold_pos : 0 < failureThreshold
  successThreshold_pos : 0 < successThreshold
  openTimeout_pos : 0 < openTimeout
  halfOpenMaxConcurrent_pos : 0 < halfOpenMaxConcurrent

/-- A bound that the constructor replaces by `1` when the caller left it out. -/
def orOne (n : ℤ) : ℤ := if n ≤ 0 then 1 else n

theorem orOne_pos (n : ℤ) : 0 < orOne n := by
  unfold orOne
  split <;> omega

def newCircuitBreaker (options : CircuitBreakerOptions) : Except String Policy :=
  if hf : options.failureThreshold ≤ 0 then
    .error "failure threshold must be positive"
  else if ho : options.openTimeout ≤ 0 then
    .error "open timeout must be positive"
  else
    .ok {
      name := options.name
      failureThreshold := options.failureThreshold
      successThreshold := orOne options.successThreshold
      openTimeout := options.openTimeout
      halfOpenMaxConcurrent := orOne options.halfOpenMaxConcurrent
      failureThreshold_pos := by omega
      successThreshold_pos := orOne_pos _
      openTimeout_pos := by omega
      halfOpenMaxConcurrent_pos := orOne_pos _ }

/-! ### Events and errors -/

structure CircuitOpenError where
  policyName : String
  state : CircuitState
  deriving DecidableEq, Repr

inductive PolicyEvent where
  /-- `EventCircuitStateTransition`, with `PreviousState` and `State`. -/
  | stateTransition (policyName : String) (previousState state : CircuitState)
  /-- `EventCircuitRejected`, with `State`, `InFlight` and `Err`. -/
  | rejected (policyName : String) (state : CircuitState) (inFlight : ℤ)
      (err : CircuitOpenError)
  deriving DecidableEq, Repr

/-! ### The critical sections -/

/-- The fields of a `CircuitBreakerPolicy` behind its mutex. -/
structure Breaker where
  state : CircuitState := .closed
  failureCount : ℤ := 0
  successCount : ℤ := 0
  openedAt : ℤ := 0
  halfOpenInFlight : ℤ := 0
  deriving DecidableEq, Repr

variable (p : Policy)

/-- `transitionLocked`: every counter is reset, unless the breaker is already in
the requested state. -/
def transitionLocked (b : Breaker) (next : CircuitState) (now : ℤ) :
    Breaker × Option PolicyEvent :=
  if b.state = next then (b, none)
  else
    ({ state := next
       failureCount := 0
       successCount := 0
       halfOpenInFlight := 0
       openedAt := if next = .opened then now else b.openedAt },
      some (.stateTransition p.name b.state next))

/-- Whether `beforeCall` finds the open interval elapsed. -/
def openElapsed (b : Breaker) (now : ℤ) : Prop :=
  b.state = .opened ∧ p.openTimeout ≤ timeSub now b.openedAt
  deriving Decidable

/-- The admission `beforeCall` performs once the open interval has been looked at;
`transition` is the event pending from there. -/
def enter (b : Breaker) (transition : Option PolicyEvent) :
    Breaker × Except CircuitOpenError CircuitState × List PolicyEvent :=
  match b.state with
  | .closed => (b, .ok .closed, transition.toList)
  | .opened =>
    let rejection : CircuitOpenError := ⟨p.name, .opened⟩
    (b, .error rejection, [.rejected p.name .opened 0 rejection])
  | .halfOpen =>
    if p.halfOpenMaxConcurrent ≤ b.halfOpenInFlight then
      let rejection : CircuitOpenError := ⟨p.name, .halfOpen⟩
      (b, .error rejection, [.rejected p.name .halfOpen b.halfOpenInFlight rejection])
    else
      ({ b with halfOpenInFlight := b.halfOpenInFlight + 1 }, .ok .halfOpen, transition.toList)

/-- `beforeCall`: the breaker it leaves, the state the call is let in with or the
rejection, and the events it emits. -/
def beforeCall (b : Breaker) (now : ℤ) :
    Breaker × Except CircuitOpenError CircuitState × List PolicyEvent :=
  if openElapsed p b now then
    enter p (transitionLocked p b .halfOpen now).1 (transitionLocked p b .halfOpen now).2
  else enter p b none

/-- `afterCall`, with the state the call was let in with. -/
def afterCall (b : Breaker) (callState : CircuitState) (failed : Bool) (now : ℤ) :
    Breaker × Option PolicyEvent :=
  match callState with
  | .closed =>
    if failed then
      let b' := { b with failureCount := b.failureCount + 1 }
      if p.failureThreshold ≤ b'.failureCount then transitionLocked p b' .opened now
      else (b', none)
    else ({ b with failureCount := 0 }, none)
  | .halfOpen =>
    let b' := if 0 < b.halfOpenInFlight then
        { b with halfOpenInFlight := b.halfOpenInFlight - 1 } else b
    if failed then transitionLocked p b' .opened now
    else
      let b'' := { b' with successCount := b'.successCount + 1 }
      if p.successThreshold ≤ b''.successCount then transitionLocked p b'' .closed now
      else (b'', none)
  -- no call is let in with the open state, and the `switch` has no case for it
  | .opened => (b, none)

/-! ### The calls of a breaker, interleaved -/

/-- The breaker together with the calls in flight: those that have run
`beforeCall`, were let in, and have not run `afterCall` yet, each with the state
it was let in with. -/
structure Sys where
  breaker : Breaker := {}
  calls : List (ℕ × CircuitState) := []
  deriving DecidableEq, Repr

/-- One critical section of one call. The clock reading is taken by the call
before it enters the section, and nothing orders the readings of different
calls. -/
inductive Label where
  /-- Call `id` runs `beforeCall`. -/
  | beforeCall (id : ℕ) (now : ℤ)
  /-- Call `id` runs `afterCall` with this outcome. -/
  | afterCall (id : ℕ) (failed : Bool) (now : ℤ)
  deriving DecidableEq, Repr

def Sys.find (s : Sys) (id : ℕ) : Option (ℕ × CircuitState) :=
  s.calls.find? (fun c => c.1 == id)

/-- **One step of the system.** A call that is in flight does not start again, and
only a call in flight can finish. -/
def step (s : Sys) : Label → Option Sys
  | .beforeCall id now =>
    match s.find id with
    | some _ => none
    | none =>
      match (beforeCall p s.breaker now).2.1 with
      | .ok st => some ⟨(beforeCall p s.breaker now).1, (id, st) :: s.calls⟩
      | .error _ => some ⟨(beforeCall p s.breaker now).1, s.calls⟩
  | .afterCall id failed now =>
    match s.find id with
    | none => none
    | some c => some ⟨(afterCall p s.breaker c.2 failed now).1, s.calls.erase c⟩

abbrev Ev := Lts.Event Sys Label

/-- **The runs of a circuit breaker**, from its creation. -/
abbrev Runs (h : List Ev) (s : Sys) : Prop := Lts.Run (step p) {} h s

def Sys.probes (s : Sys) : ℕ := s.calls.countP (fun c => c.2 == .halfOpen)

theorem Sys.mem_of_find {s : Sys} {id : ℕ} {c : ℕ × CircuitState} (h : s.find id = some c) :
    c ∈ s.calls :=
  List.mem_of_find?_eq_some h

/-! ### What the critical sections do -/

variable {p} {b : Breaker} {now : ℤ} {failed : Bool}

/-- **What `beforeCall` can do**: let the call in closed or reject it with nothing
changed, or – in the half-open state, or from the open state once its interval has
elapsed – let a probe in while fewer than the limit are counted. -/
theorem beforeCall_cases (b : Breaker) (now : ℤ) :
    (b.state = .closed ∧ beforeCall p b now = (b, .ok .closed, [])) ∨
    (b.state ≠ .closed ∧ (beforeCall p b now).1 = b ∧
      ∃ err, (beforeCall p b now).2.1 = .error err) ∨
    (b.state = .halfOpen ∧ b.halfOpenInFlight < p.halfOpenMaxConcurrent ∧
      (beforeCall p b now).1 = { b with halfOpenInFlight := b.halfOpenInFlight + 1 } ∧
      (beforeCall p b now).2.1 = .ok .halfOpen) ∨
    (b.state = .opened ∧ p.openTimeout ≤ now - b.openedAt ∧
      (beforeCall p b now).1.state = .halfOpen ∧ (beforeCall p b now).1.halfOpenInFlight = 1 ∧
      (beforeCall p b now).2.1 = .ok .halfOpen) := by
  by_cases hel : openElapsed p b now
  · refine .inr (.inr (.inr ⟨hel.1, ?_, ?_⟩))
    · exact le_sub_of_le_timeSub p.openTimeout_pos.le hel.2
    · have hpos : ¬p.halfOpenMaxConcurrent ≤ 0 := not_le.mpr p.halfOpenMaxConcurrent_pos
      have hne : b.state ≠ .halfOpen := by
        rw [hel.1]
        decide
      simp [beforeCall, if_pos hel, enter, transitionLocked, if_neg hne, hpos]
  · cases hst : b.state with
    | closed => exact .inl ⟨rfl, by simp [beforeCall, if_neg hel, enter, hst]⟩
    | opened =>
      refine .inr (.inl ⟨by decide, ?_, ?_⟩) <;> simp [beforeCall, if_neg hel, enter, hst]
    | halfOpen =>
      by_cases hlim : p.halfOpenMaxConcurrent ≤ b.halfOpenInFlight
      · refine .inr (.inl ⟨by decide, ?_, ?_⟩) <;>
          simp [beforeCall, if_neg hel, enter, hst, hlim]
      · refine .inr (.inr (.inl ⟨rfl, not_le.mp hlim, ?_, ?_⟩)) <;>
          simp [beforeCall, if_neg hel, enter, hst, hlim]

variable (p b) in
/-- **When `afterCall` makes `transitionLocked` reset the counters**: the outcome
asks for a state the breaker is not in. -/
def resets (callState : CircuitState) (failed : Bool) : Prop :=
  match callState with
  | .closed => failed = true ∧ p.failureThreshold ≤ b.failureCount + 1 ∧ b.state ≠ .opened
  | .halfOpen =>
    if failed then b.state ≠ .opened
    else p.successThreshold ≤ b.successCount + 1 ∧ b.state ≠ .closed
  | .opened => False

variable {c : CircuitState}

/-- Out of the open state only a probe's success resets, when it completes the
threshold. -/
theorem resets_of_opened (hst : b.state = .opened) :
    resets p b c failed ↔
      c = .halfOpen ∧ failed = false ∧ p.successThreshold ≤ b.successCount + 1 := by
  cases c <;> cases failed <;> simp [resets, hst]

/-- Out of the closed state only a failure resets: one of a probe, or the one that completes
the threshold. -/
theorem resets_of_closed (hst : b.state = .closed) :
    resets p b c failed ↔ failed = true ∧
      (c = .halfOpen ∨ c = .closed ∧ p.failureThreshold ≤ b.failureCount + 1) := by
  cases c <;> cases failed <;> simp [resets, hst]

/-- The state a resetting `afterCall` moves to. -/
def resetTarget : CircuitState → Bool → CircuitState
  | .halfOpen, false => .closed
  | _, _ => .opened

/-- An `afterCall` that resets enters its target with every counter at zero. -/
theorem afterCall_of_resets (now : ℤ) (h : resets p b c failed) :
    b.state ≠ resetTarget c failed ∧
      (afterCall p b c failed now).1.state = resetTarget c failed ∧
      (afterCall p b c failed now).1.failureCount = 0 ∧
      (afterCall p b c failed now).1.halfOpenInFlight = 0 := by
  cases c with
  | closed =>
    obtain ⟨rfl, hth, hne⟩ := h
    refine ⟨hne, ?_⟩
    simp [afterCall, hth, transitionLocked, hne, resetTarget]
  | opened => exact h.elim
  | halfOpen =>
    cases failed with
    | true =>
      have hne : b.state ≠ .opened := by simpa [resets] using h
      refine ⟨hne, ?_⟩
      by_cases hfl : 0 < b.halfOpenInFlight <;>
        simp [afterCall, hfl, transitionLocked, hne, resetTarget]
    | false =>
      obtain ⟨hth, hne⟩ : p.successThreshold ≤ b.successCount + 1 ∧ b.state ≠ .closed := by
        simpa [resets] using h
      refine ⟨hne, ?_⟩
      by_cases hfl : 0 < b.halfOpenInFlight <;>
        simp [afterCall, hfl, hth, transitionLocked, hne, resetTarget]

/-- An `afterCall` that does not reset stays in its state; it counts the outcome,
and a probe gives its slot back if one is counted. -/
theorem afterCall_of_not_resets (now : ℤ) (h : ¬resets p b c failed) :
    (afterCall p b c failed now).1.state = b.state ∧
      (afterCall p b c failed now).1.halfOpenInFlight =
        (if c = .halfOpen ∧ 0 < b.halfOpenInFlight then b.halfOpenInFlight - 1
          else b.halfOpenInFlight) ∧
      (afterCall p b c failed now).1.failureCount =
        (if c = .closed then (if failed then b.failureCount + 1 else 0) else b.failureCount) := by
  cases c with
  | closed =>
    cases failed with
    | false => simp [afterCall]
    | true =>
      by_cases hth : p.failureThreshold ≤ b.failureCount + 1
      · have hst : b.state = .opened := by
          by_contra hne
          exact h ⟨rfl, hth, hne⟩
        simp [afterCall, hth, transitionLocked, hst]
      · simp [afterCall, hth]
  | opened => simp [afterCall]
  | halfOpen =>
    cases failed with
    | true =>
      have hst : b.state = .opened := by
        by_contra hne
        exact h (by simpa [resets] using hne)
      by_cases hfl : 0 < b.halfOpenInFlight <;> simp [afterCall, hfl, transitionLocked, hst]
    | false =>
      by_cases hth : p.successThreshold ≤ b.successCount + 1
      · have hst : b.state = .closed := by
          by_contra hne
          exact h (by simpa [resets] using ⟨hth, hne⟩)
        by_cases hfl : 0 < b.halfOpenInFlight <;>
          simp [afterCall, hfl, hth, transitionLocked, hst]
      · by_cases hfl : 0 < b.halfOpenInFlight <;> simp [afterCall, hfl, hth]

/-- **What one step of the system can do.** A `beforeCall` lets the call in
closed, rejects it, or lets a probe in – into the half-open state or, once the
interval has elapsed, out of the open one. An `afterCall` takes its call out of
flight and hands the outcome to the breaker. -/
theorem step_cases {s s' : Sys} {e : Label} (h : step p s e = some s') :
    (∃ id now, e = .beforeCall id now ∧
      ((s.breaker.state = .closed ∧ s' = ⟨s.breaker, (id, .closed) :: s.calls⟩) ∨
        (s.breaker.state ≠ .closed ∧ s' = s) ∨
        (s.breaker.state = .halfOpen ∧ s.breaker.halfOpenInFlight < p.halfOpenMaxConcurrent ∧
          s' = ⟨{ s.breaker with halfOpenInFlight := s.breaker.halfOpenInFlight + 1 },
            (id, .halfOpen) :: s.calls⟩) ∨
        (s.breaker.state = .opened ∧ p.openTimeout ≤ now - s.breaker.openedAt ∧
          s'.breaker.state = .halfOpen ∧ s'.breaker.halfOpenInFlight = 1 ∧
          s'.calls = (id, .halfOpen) :: s.calls))) ∨
    (∃ id failed now c, e = .afterCall id failed now ∧ s.find id = some c ∧
      s' = ⟨(afterCall p s.breaker c.2 failed now).1, s.calls.erase c⟩) := by
  cases e with
  | beforeCall id now =>
    refine .inl ⟨id, now, rfl, ?_⟩
    cases hf : s.find id with
    | some c => simp [step, hf] at h
    | none =>
      simp only [step, hf] at h
      rcases beforeCall_cases (p := p) s.breaker now with
        ⟨hst, hb⟩ | ⟨hst, hb, err, herr⟩ | ⟨hst, hlt, hb, hok⟩ | ⟨hst, hel, hb, hfl, hok⟩
      · simp only [hb, Option.some.injEq] at h
        exact .inl ⟨hst, h.symm⟩
      · simp only [herr, hb, Option.some.injEq] at h
        exact .inr (.inl ⟨hst, h.symm⟩)
      · simp only [hok, hb, Option.some.injEq] at h
        exact .inr (.inr (.inl ⟨hst, hlt, h.symm⟩))
      · simp only [hok, Option.some.injEq] at h
        subst h
        exact .inr (.inr (.inr ⟨hst, hel, hb, hfl, rfl⟩))
  | afterCall id failed now =>
    cases hf : s.find id with
    | none => simp [step, hf] at h
    | some c =>
      simp only [step, hf, Option.some.injEq] at h
      exact .inr ⟨id, failed, now, c, rfl, hf, h.symm⟩

end Bluetape.Resilience
