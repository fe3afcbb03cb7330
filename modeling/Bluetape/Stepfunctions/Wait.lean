import Bluetape.Go
import Bluetape.GoString

/-!
# Waiting for an execution

`Wait` describes an execution again and again while it runs. It remembers what it was told last and
returns it with its error, so that a caller who gives up still knows how far the execution got. But
what it remembers is reassigned by every call, also by one that fails: a call that times out after
one that has succeeded leaves the caller with nothing (`wait_forgets`). Apart from that, what is
returned is what was told last (`wait_reports_iff`).

A run is a list of rounds of the loop; each has the answers of the two contexts, in the order they
are asked, the reply of `DescribeExecution`, and what ends the wait. Of the classes of runes and of
the errors of the client nothing is assumed (`Lib`).
-/

namespace Bluetape.Stepfunctions

open Go GoString

/-- `ExecutionStatus`. -/
inductive Status where
  | running | succeeded | failed | timedOut | aborted | pendingRedrive
  | other (text : Text)
  deriving DecidableEq

/-- A status of the package. -/
def isKnownStatus : Status → Bool
  | .other _ => false
  | _ => true

/-- `ExecutionResult`. -/
structure Execution where
  executionARN : Text
  stateMachineARN : Text
  name : Text
  input : Option Text
  output : Option Text
  error : Text
  cause : Text
  status : Status
  startedAt : ℤ
  stoppedAt : Option ℤ
  deriving DecidableEq

/-- The errors of a context. -/
inductive ContextError where
  | canceled
  | deadlineExceeded
  deriving DecidableEq

/-- The kinds of `BridgeError`. -/
inductive Kind where
  | invalidOptions | invalidRequest | describeFailed | malformedOutput | unknownStatus
  | executionFailed | executionTimedOut | executionAborted | waitTimeout
  deriving DecidableEq

/-- An error of a context, or one of the bridge with its operation and cause. -/
inductive Err (E : Type) where
  | context (err : ContextError)
  | bridge (kind : Kind) (operation : String) (status : Option Status)
    (cause : Option (ContextError ⊕ E))
  deriving DecidableEq

/-- What the standard library decides: the classes of runes, and which errors of the client are
`context.DeadlineExceeded`. -/
structure Lib (E : Type) where
  isSpace : ℕ → Bool
  isControl : ℕ → Bool
  isDeadline : E → Bool

variable {E : Type} (lib : Lib E)

/-! ### Describe -/

/-- A text that may be an ARN. -/
def validARNValue (value : Text) : Bool :=
  validUTF8 value && !(trimSpace value).isEmpty && decide (value.length ≤ 256)

/-- A name without the characters that are not allowed. -/
def validResponseName (value : Text) : Bool :=
  value.isEmpty || validUTF8 value && decide (value.length ≤ 80) &&
    (rangeFrom 0 0 value).all fun piece =>
      !(lib.isSpace piece.rune || lib.isControl piece.rune || piece.rune == 0xFFFE ||
        piece.rune == 0xFFFF ||
        "<>\x7b\x7d[]?*\"#%\\^|~`$&,;:/".toList.any fun c => c.toNat == piece.rune)

/-- Valid UTF-8 of bounded length. -/
def validBoundedUTF8 (limit : ℕ) (value : Text) : Bool :=
  validUTF8 value && decide (value.length ≤ limit)

/-- What `DescribeExecution` answers. -/
structure DescribeOutput where
  executionArn : Option Text
  stateMachineArn : Option Text
  startDate : Option ℤ
  status : Status
  name : Option Text
  input : Option Text
  output : Option Text
  error : Option Text
  cause : Option Text
  stopDate : Option ℤ

/-- The execution that an output tells of, unless it is malformed. -/
def DescribeOutput.execution (maxInputSize : ℕ) (executionARN : Text) (o : DescribeOutput) :
    Option Execution := do
  let arn ← o.executionArn
  let machine ← o.stateMachineArn
  let started ← o.startDate
  guard (validARNValue arn ∧ arn = executionARN ∧ validARNValue machine)
  guard (o.name.all (validResponseName lib))
  guard (o.input.all (validBoundedUTF8 maxInputSize))
  guard (o.output.all (validBoundedUTF8 maxInputSize))
  guard (o.error.all (validBoundedUTF8 256) ∧ o.cause.all (validBoundedUTF8 32768))
  return ⟨arn, machine, o.name.getD [], o.input, o.output, o.error.getD [], o.cause.getD [],
    o.status, started, o.stopDate⟩

/-- What `DescribeExecution` returns. -/
structure Reply (E : Type) where
  output : Option DescribeOutput
  err : Option E

/-- `Describe`, for a bridge and an ARN that `Wait` has found valid. -/
def describe (maxInputSize : ℕ) (executionARN : Text) (ctx : ℕ → Option ContextError)
    (reply : Reply E) : Option Execution × Option (Err E) :=
  match (ctx 0).or (ctx 1) with
  | some err => (none, some (.context err))
  | none =>
    match ctx 2 with
    | some err => (none, some (.context err))
    | none =>
      match reply.err with
      | some err => (none, some (.bridge .describeFailed "describe" none (some (.inr err))))
      | none =>
        match reply.output.bind (DescribeOutput.execution lib maxInputSize executionARN) with
        | none => (none, some (.bridge .malformedOutput "describe" none none))
        | some execution =>
          if isKnownStatus execution.status then (some execution, none)
          else (some execution, some (.bridge .unknownStatus "describe" execution.status none))

/-! ### Wait -/

/-- The next delay, by the attempt and the last one. -/
abbrev Backoff := ℕ → ℤ → ℤ

/-- What `Wait` is given. -/
structure WaitOptions where
  pollInterval : ℤ
  maxPollInterval : ℤ
  timeout : ℤ
  backoff : Option Backoff

/-- The options with their defaults. -/
structure WaitConfig where
  pollInterval : ℤ
  maxPollInterval : ℤ
  backoff : Backoff

/-- Twice the last delay. -/
def defaultBackoff : Backoff := fun attempt previous =>
  if attempt = 0 ∨ previous ≤ 0 then previous
  else if maxInt64 / 2 < previous then maxInt64
  else previous * 2

/-- `normalizeWaitOptions`. -/
def normalizeWaitOptions (o : WaitOptions) : Option WaitConfig :=
  let pollInterval := if o.pollInterval = 0 then second else o.pollInterval
  let maxPollInterval := if o.maxPollInterval = 0 then 30 * second else o.maxPollInterval
  if pollInterval < 0 ∨ maxPollInterval < 0 ∨ o.timeout < 0 ∨ maxPollInterval < pollInterval then
    none
  else some ⟨pollInterval, maxPollInterval, o.backoff.getD defaultBackoff⟩

/-- What ends the `select` of `waitFor`. -/
inductive Fired where
  | timer | parent | wait

/-- A round of the loop: the answers of the contexts, in the order they are asked. -/
structure Round (E : Type) where
  parent : ℕ → Option ContextError
  wait : ℕ → Option ContextError
  reply : Reply E
  fired : Fired

/-- A pause, unless a context ends. -/
def waitFor (r : Round E) (delay : ℤ) : Option ContextError :=
  if delay ≤ 0 then (r.parent 4).or (r.wait 6)
  else
    match r.fired with
    | .timer => none
    | .parent => r.parent 4
    | .wait => (r.parent 4).or (r.wait 6)

/-- `errors.Is` a deadline. -/
def Err.isDeadline : Err E → Bool
  | .context err => err == .deadlineExceeded
  | .bridge _ _ _ cause => cause.any (Sum.elim (· == .deadlineExceeded) lib.isDeadline)

/-- The error that is returned. -/
def waitError (ownedTimeout : Bool) (parent wait : Option ContextError) (err : Err E) : Err E :=
  match parent with
  | some err => .context err
  | none =>
    if ownedTimeout && wait == some .deadlineExceeded && err.isDeadline lib then
      .bridge .waitTimeout "wait" none (some (.inl .deadlineExceeded))
    else err

/-- The variables of the loop, with what the calls have returned, the latest first, and the
delays. -/
structure State where
  last : Option Execution
  delay : ℤ
  attempt : ℕ
  calls : List (Option Execution)
  delays : List ℤ

/-- Before the first call. -/
def State.start (delay : ℤ) : State := ⟨none, delay, 1, [], []⟩

/-- What is returned: the execution is `last`. -/
structure Returned (E : Type) extends State where
  err : Option (Err E)

/-- The loop is left. -/
def State.return (s : State) (err : Option (Err E)) : State ⊕ Returned E := .inr ⟨s, err⟩

/-- A call has returned. -/
def State.told (s : State) (execution : Option Execution) : State :=
  { s with last := execution, calls := execution :: s.calls }

variable (maxInputSize : ℕ) (executionARN : Text) (cfg : WaitConfig) (ownedTimeout : Bool)

/-- The rest of a round, for an execution that is running. -/
def pause (s : State) (r : Round E) : State ⊕ Returned E :=
  match waitFor r s.delay with
  | some err => s.return (waitError lib ownedTimeout (r.parent 5) (r.wait 7) (.context err))
  | none =>
    match r.parent 6 with
    | some err => s.return (some (.context err))
    | none =>
      match r.wait 8 with
      | some err => s.return (waitError lib ownedTimeout (r.parent 7) (r.wait 9) (.context err))
      | none =>
        let nextDelay := cfg.backoff s.attempt s.delay
        if nextDelay < 0 then s.return (some (.bridge .invalidOptions "wait" none none))
        else
          .inl { s with
            delay := if cfg.maxPollInterval < nextDelay then cfg.maxPollInterval else nextDelay
            attempt := s.attempt + 1 }

/-- **One round of the loop.** -/
def round (s : State) (r : Round E) : State ⊕ Returned E :=
  match r.parent 0 with
  | some err => s.return (some (.context err))
  | none =>
    match r.wait 0 with
    | some err => s.return (waitError lib ownedTimeout (r.parent 1) (r.wait 1) (.context err))
    | none =>
      let (execution, err) :=
        describe lib maxInputSize executionARN (fun k => r.wait (k + 2)) r.reply
      let s := s.told execution
      match r.parent 2 with
      | some err => s.return (some (.context err))
      | none =>
        match err, execution with
        | some err, _ => s.return (waitError lib ownedTimeout (r.parent 3) (r.wait 5) err)
        | none, none => s.return (some (.bridge .malformedOutput "wait" none none))
        | none, some x =>
          match x.status with
          | .running => pause lib cfg ownedTimeout { s with delays := s.delay :: s.delays } r
          | .succeeded => s.return none
          | .failed => s.return (some (.bridge .executionFailed "wait" x.status none))
          | .timedOut => s.return (some (.bridge .executionTimedOut "wait" x.status none))
          | .aborted => s.return (some (.bridge .executionAborted "wait" x.status none))
          | .pendingRedrive => s.return none
          | .other _ => s.return (some (.bridge .unknownStatus "wait" x.status none))

/-- The loop, on as many rounds as there are. -/
def loop (s : State) : List (Round E) → Option (Returned E)
  | [] => none
  | r :: rs =>
    match round lib maxInputSize executionARN cfg ownedTimeout s r with
    | .inl s => loop s rs
    | .inr ret => some ret

/-- `Wait`, as far as some rounds take it; `parent` is what the context says first. -/
def wait (hasClient : Bool) (o : WaitOptions) (parent : Option ContextError)
    (rounds : List (Round E)) : Option (Returned E) :=
  let fail (err : Err E) : Option (Returned E) := some ⟨.start 0, some err⟩
  match parent with
  | some err => fail (.context err)
  | none =>
    if !hasClient || maxInputSize < 1 || 262144 < maxInputSize then
      fail (.bridge .invalidOptions "validate options" none none)
    else if !validARNValue executionARN then
      fail (.bridge .invalidRequest "validate request" none none)
    else
      match normalizeWaitOptions o with
      | none => fail (.bridge .invalidOptions "wait" none none)
      | some cfg =>
        loop lib maxInputSize executionARN cfg (decide (0 < o.timeout)) (.start cfg.pollInterval)
          rounds

/-! ### What is returned -/

/-- The last call is kept, and no delay is too long. -/
structure Inv (s : State) : Prop where
  last : s.last = s.calls.head?.join
  delay : s.delay ≤ cfg.maxPollInterval
  delays : ∀ d ∈ s.delays, d ≤ cfg.maxPollInterval

/-- Without an error, the execution is at its end. -/
structure Good (ret : Returned E) : Prop extends Inv cfg ret.toState where
  ended : ret.err = none → ∃ x, ret.last = some x ∧
    (x.status = .succeeded ∨ x.status = .pendingRedrive)

variable {lib maxInputSize executionARN cfg ownedTimeout} {s : State}

theorem Inv.start {o : WaitOptions} (h : normalizeWaitOptions o = some cfg) :
    Inv cfg (.start cfg.pollInterval) := by
  refine ⟨rfl, ?_, nofun⟩
  simp only [normalizeWaitOptions, Option.ite_none_left_eq_some, not_or, not_lt] at h
  obtain ⟨⟨-, -, -, hle⟩, ⟨⟩⟩ := h
  exact hle

theorem Inv.return (h : Inv cfg s) (err : Err E) :
    (s.return (some err)).elim (Inv cfg) (Good cfg) :=
  ⟨h, nofun⟩

theorem Inv.pause (h : Inv cfg s) (r : Round E) :
    (pause lib cfg ownedTimeout s r).elim (Inv cfg) (Good cfg) := by
  unfold Stepfunctions.pause
  split
  · exact h.return _
  split
  · exact h.return _
  split
  · exact h.return _
  dsimp only
  split
  · exact h.return _
  · refine ⟨h.last, ?_, h.delays⟩
    dsimp only
    split_ifs
    · exact le_rfl
    · omega

theorem Inv.round (h : Inv cfg s) (r : Round E) :
    (round lib maxInputSize executionARN cfg ownedTimeout s r).elim (Inv cfg) (Good cfg) := by
  have htold : ∀ x, Inv cfg (s.told x) := fun x => ⟨rfl, h.delay, h.delays⟩
  unfold Stepfunctions.round
  split
  · exact h.return _
  split
  · exact h.return _
  dsimp only
  split
  · exact (htold _).return _
  split
  · exact (htold _).return _
  · exact (htold _).return _
  next x _ hx =>
    rw [hx]
    cases hstatus : x.status with
    | running =>
      apply Inv.pause
      exact ⟨rfl, h.delay, List.forall_mem_cons.mpr ⟨h.delay, h.delays⟩⟩
    | succeeded => exact ⟨htold _, fun _ => ⟨x, rfl, .inl hstatus⟩⟩
    | pendingRedrive => exact ⟨htold _, fun _ => ⟨x, rfl, .inr hstatus⟩⟩
    | failed | timedOut | aborted | other => exact (htold _).return _

theorem Inv.loop (h : Inv cfg s) {rounds : List (Round E)} {ret : Returned E}
    (hret : loop lib maxInputSize executionARN cfg ownedTimeout s rounds = some ret) :
    Good cfg ret := by
  induction rounds generalizing s with
  | nil => cases hret
  | cons r rounds ih =>
    rw [Stepfunctions.loop] at hret
    split at hret <;> rename_i heq <;> have hround := heq ▸ h.round r
    · exact ih hround hret
    · cases hret
      exact hround

/-- The last execution that a call has returned. -/
def Returned.lastKnown (ret : Returned E) : Option Execution := ret.calls.findSome? id

/-- `Wait` fails before it asks, or returns from its loop. -/
theorem wait_cases {hasClient : Bool} {o : WaitOptions} {parent : Option ContextError}
    {rounds : List (Round E)} {ret : Returned E}
    (hret : wait lib maxInputSize executionARN hasClient o parent rounds = some ret) :
    (∃ err, ret = ⟨.start 0, some err⟩) ∨
      ∃ cfg, normalizeWaitOptions o = some cfg ∧ Good cfg ret := by
  unfold wait at hret
  split at hret
  · cases hret
    exact .inl ⟨_, rfl⟩
  split_ifs at hret
  · cases hret
    exact .inl ⟨_, rfl⟩
  · cases hret
    exact .inl ⟨_, rfl⟩
  split at hret
  · cases hret
    exact .inl ⟨_, rfl⟩
  next hcfg => exact .inr ⟨_, hcfg, (Inv.start hcfg).loop hret⟩

/-- **What is returned is the last known execution exactly if** no call fails after one that has
returned an execution. Without an error it is at its end, and no delay is too long. -/
theorem wait_reports_iff {hasClient : Bool} {o : WaitOptions} {parent : Option ContextError}
    {rounds : List (Round E)} {ret : Returned E}
    (hret : wait lib maxInputSize executionARN hasClient o parent rounds = some ret) :
    ((∀ x, ret.lastKnown = some x → ret.last = some x) ↔
      (ret.calls.head? = some none → ret.lastKnown = none)) ∧
    (ret.err = none → ∃ x, ret.last = some x ∧ ret.lastKnown = some x ∧
      (x.status = .succeeded ∨ x.status = .pendingRedrive)) ∧
    ∀ cfg, normalizeWaitOptions o = some cfg → ∀ d ∈ ret.delays, d ≤ cfg.maxPollInterval := by
  rcases wait_cases hret with ⟨err, rfl⟩ | ⟨cfg, hcfg, hgood⟩
  · -- Nothing has been asked yet.
    simp [Returned.lastKnown, State.start]
  · refine ⟨?_, fun herr => ?_, fun cfg' hcfg' => ?_⟩
    · rw [hgood.last, Returned.lastKnown]
      rcases ret.calls with _ | ⟨_ | x, calls⟩ <;> simp [Option.eq_none_iff_forall_ne_some]
    · obtain ⟨x, hx, hstatus⟩ := hgood.ended herr
      refine ⟨x, hx, ?_, hstatus⟩
      obtain ⟨calls, hcalls⟩ := List.head?_eq_some_iff.mp
        (Option.join_eq_some_iff.mp (hgood.last.symm.trans hx))
      rw [Returned.lastKnown, hcalls, List.findSome?_cons_of_isSome rfl, id]
    · cases hcfg.symm.trans hcfg'
      exact hgood.delays

/-! ### A call that fails -/

/-- An answer, and contexts that do not end. -/
def answered (output : Option DescribeOutput) (err : Option Unit) : Round Unit :=
  ⟨fun _ => none, fun _ => none, ⟨output, err⟩, .timer⟩

/-- An answer with this status. -/
def described (status : Status) : Option DescribeOutput :=
  some ⟨some [0x61], some [0x6D], some 0, status, none, none, none, none, none, none⟩

/-- `Wait` with the default options. -/
def waitAfter (rounds : List (Round Unit)) : Option (Returned Unit) :=
  wait ⟨fun _ => false, fun _ => false, fun _ => false⟩ 1 [0x61] true ⟨0, 0, 0, none⟩ none rounds

theorem wait_reports_iff_succeeded : ∃ ret,
    waitAfter [answered (described .running) none, answered (described .succeeded) none] =
      some ret ∧ ret.err = none ∧ ∃ x, ret.last = some x ∧ ret.lastKnown = some x ∧
        (x.status = .succeeded ∨ x.status = .pendingRedrive) := by
  have h : waitAfter [answered (described .running) none, answered (described .succeeded) none] =
    some _ := rfl
  exact ⟨_, h, rfl, (wait_reports_iff h).2.1 rfl⟩

/-- **A call that fails makes `Wait` forget** that the execution was running. -/
theorem wait_forgets : ∃ ret x,
    waitAfter [answered (described .running) none, answered none (some ())] = some ret ∧
      ret.lastKnown = some x ∧ x.status = .running ∧ ret.last = none :=
  ⟨_, _, rfl, rfl, rfl, rfl⟩

end Bluetape.Stepfunctions
