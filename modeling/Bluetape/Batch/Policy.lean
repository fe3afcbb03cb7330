import Mathlib.Data.Int.Notation
import Mathlib.Data.Nat.Notation

/-!
# Errors, retry and skip policies, and reports of a batch step

The vocabulary of the `batch` package: the errors a step can see
(`batch/errors.go`), the two policies that decide what happens to them
(`batch/policy.go`), and the report that a run returns (`batch/report.go`).

All that the code ever asks of an error is whether `errors.Is` finds one of a few sentinels in its
chain, so an error is a message with the sentinels it carries (`Err`); wrapping and joining put the
lists together. An error the model mentions is never `nil`: where Go returns a nil error, there is
an `Option`.

Left out: the time stamps of a report, and `Children`, which only a job fills in.
-/

namespace Bluetape.Batch

/-! ### Errors -/

/-- The errors the package compares with `errors.Is`. -/
inductive Sentinel where
  | canceled
  | deadlineExceeded
  /-- `ErrCheckpointConflict` -/
  | checkpointConflict
  /-- `ErrCommitUnknown` -/
  | commitUnknown
  /-- `ErrAtomicityUnknown` -/
  | atomicityUnknown
  /-- `ErrCheckpointVersionExhausted` -/
  | checkpointVersionExhausted
  /-- `ErrUnsafeWriterSkipCheckpoint` -/
  | unsafeWriterSkipCheckpoint
  deriving DecidableEq, Repr

/-- The text. -/
def Sentinel.message : Sentinel → String
  | .canceled => "context canceled"
  | .deadlineExceeded => "context deadline exceeded"
  | .checkpointConflict => "batch: checkpoint revision conflict"
  | .commitUnknown => "batch: commit outcome unknown"
  | .atomicityUnknown => "batch: atomicity outcome unknown"
  | .checkpointVersionExhausted => "batch: checkpoint version exhausted"
  | .unsafeWriterSkipCheckpoint =>
    "batch: skipped writer chunk cannot advance checkpoint safely"

/-- An error: its message, and the sentinels `errors.Is` finds in its chain. -/
structure Err where
  message : String
  is : List Sentinel := []
  deriving DecidableEq, Repr

/-- The error itself. -/
def Sentinel.err (t : Sentinel) : Err := ⟨t.message, [t]⟩

/-- `fmt.Errorf("%w: %w", e, e')`. -/
def Err.wrap (e e' : Err) : Err := ⟨e.message ++ ": " ++ e'.message, e.is ++ e'.is⟩

/-- `errors.Join`, which discards nil errors. -/
def Err.join : Option Err → Option Err → Option Err
  | none, e => e
  | e, none => e
  | some e, some e' => some ⟨e.message ++ "\n" ++ e'.message, e.is ++ e'.is⟩

/-- What `ctx.Err()` returns once the context is done. -/
inductive CtxErr where
  | canceled
  | deadlineExceeded
  deriving DecidableEq, Repr

/-- The error `ctx.Err()` returns. -/
def CtxErr.err : CtxErr → Err
  | .canceled => Sentinel.canceled.err
  | .deadlineExceeded => Sentinel.deadlineExceeded.err

/-- The context has ended. -/
def isContextError (e : Err) : Bool :=
  e.is.contains .canceled || e.is.contains .deadlineExceeded

/-- It is another error. -/
def nonContextError (e : Err) : Bool := !isContextError e

@[simp] theorem isContextError_ctxErr (c : CtxErr) : isContextError c.err = true := by
  cases c <;> decide

/-! ### Policies -/

/-- `RetryPolicy`. -/
structure RetryPolicy where
  maxAttempts : ℤ := 0
  retryIf : Option (Err → Bool) := none

/-- `SkipPolicy`. -/
structure SkipPolicy where
  maxSkips : ℤ := 0
  skipIf : Option (Err → Bool) := none

/-- With its defaults. -/
def RetryPolicy.normalize (p : RetryPolicy) : Except String RetryPolicy :=
  let maxAttempts := if p.maxAttempts = 0 then 1 else p.maxAttempts
  if maxAttempts < 0 then .error "max attempts must be positive"
  else
    .ok { maxAttempts := maxAttempts
          retryIf := if p.retryIf.isNone ∧ 1 < maxAttempts then some nonContextError
            else p.retryIf }

/-- Is there another attempt? -/
def RetryPolicy.shouldRetry (p : RetryPolicy) (e : Err) (attempt : ℕ) : Bool :=
  if p.maxAttempts ≤ attempt ∨ isContextError e = true then false
  else match p.retryIf with
    | none => false
    | some retryIf => retryIf e

/-- With its defaults. -/
def SkipPolicy.normalize (p : SkipPolicy) : Except String SkipPolicy :=
  if p.maxSkips < 0 then .error "max skips must not be negative"
  else
    .ok { maxSkips := p.maxSkips
          skipIf := if p.skipIf.isNone ∧ 0 < p.maxSkips then some nonContextError
            else p.skipIf }

/-- Is the item skipped? -/
def SkipPolicy.shouldSkip (p : SkipPolicy) (e : Err) (used cost : ℕ) : Bool :=
  if cost ≤ 0 ∨ p.maxSkips ≤ 0 ∨ isContextError e = true then false
  else if p.maxSkips < (used : ℤ) + cost then false
  else match p.skipIf with
    | none => false
    | some skipIf => skipIf e

theorem RetryPolicy.shouldRetry_ctxErr (p : RetryPolicy) (c : CtxErr) (attempt : ℕ) :
    p.shouldRetry c.err attempt = false := by
  simp [RetryPolicy.shouldRetry]

theorem SkipPolicy.shouldSkip_ctxErr (p : SkipPolicy) (c : CtxErr) (used cost : ℕ) :
    p.shouldSkip c.err used cost = false := by
  simp [SkipPolicy.shouldSkip]

/-! ### Reports -/

/-- `Status`; `StatusPartial` is only given by a job. -/
inductive Status where
  | completed
  | failed
  | cancelled
  deriving DecidableEq, Repr

/-- What a step reports. -/
structure Report where
  name : String
  status : Status := .completed
  readCount : ℕ := 0
  writeCount : ℕ := 0
  filterCount : ℕ := 0
  skipCount : ℕ := 0
  retryCount : ℕ := 0
  err : Option Err := none
  deriving DecidableEq, Repr

/-- The step has ended. -/
def Report.finish (r : Report) (status : Status) (err : Option Err) : Report :=
  { r with status := status, err := err }

/-- What closing the resources does to a report: an error turns completion into
failure, and is added to the error of a run that has one already. -/
def Report.close (r : Report) : Option Err → Report
  | none => r
  | some e =>
    if r.err = none ∧ r.status = .completed then r.finish .failed (some e)
    else { r with err := Err.join r.err (some e) }

/-- The status after an error. -/
def statusForError (e : Err) : Status :=
  if e.is.contains .commitUnknown || e.is.contains .atomicityUnknown then .failed
  else if isContextError e then .cancelled
  else .failed

theorem Report.completed_of_close {r : Report} {closeErr : Option Err}
    (h : (r.close closeErr).status = .completed) : r.status = .completed := by
  cases closeErr with
  | none => exact h
  | some e =>
    unfold Report.close at h
    dsimp only at h
    split at h
    · exact nomatch h
    · exact h

theorem statusForError_ne_completed (e : Err) : statusForError e ≠ .completed := by
  unfold statusForError
  split
  · decide
  · split <;> decide

end Bluetape.Batch
