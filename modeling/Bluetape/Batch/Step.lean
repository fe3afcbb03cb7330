import Bluetape.Batch.Policy
import Bluetape.Library.Run

/-!
# The batch step

A model of `batch/step.go`: the constructors, the retry loop around the processor,
and `Step.Run` on the path that writes through a `Writer` and checkpoints through
a `CheckpointStore`.

`Run` is a loop around calls to things the package does not own – the reader, the processor, the
writer, the store – any of which may fail, and the process may die after any of them. So it is
modelled as a machine whose program counter (`Pc`) names the call that is due next and whose labels
(`Label`) say how that call is answered. What runs between two calls is deterministic and belongs to
the step (`step`). The label `restart` abandons the run in whatever state it is and starts another
one: this is a crash, or simply the next run.

Of the state, only the stored checkpoint and what the writer has accepted survive
a restart. Outputs are kept with the index of the input item they come from, in the
buffer and in what was accepted; the code does not see the index.

A reader is its list of items: its checkpoint is the number of items read, and
`Restore` resumes there. `Open` starts at the beginning.
-/

namespace Bluetape.Batch

/-! ### Construction -/

inductive Verdict (O : Type) where
  | keep (value : O)
  /-- The item is filtered: `keep` is false. -/
  | filter
  | fail (e : Err)
  deriving DecidableEq, Repr

/-- A `Reader`, and whether it is a `CheckpointReader`. -/
structure Reader (I : Type) where
  items : List I
  checkpoints : Bool

/-- `StepOptions` and `AtomicStepOptions`. Interfaces that the constructors only
compare with nil are a truth value; the processor may answer each attempt at an item
differently. -/
structure StepOptions (I O : Type) where
  name : String
  chunkSize : ℤ
  reader : Option (Reader I)
  processor : Option (I → ℕ → Verdict O)
  writer : Bool
  retryPolicy : RetryPolicy
  skipPolicy : SkipPolicy
  checkpointStore : Bool
  checkpointKey : String

structure Step (I O : Type) where
  name : String
  chunkSize : ℕ
  reader : Reader I
  processor : I → ℕ → Verdict O
  retry : RetryPolicy
  skip : SkipPolicy
  store : Bool
  key : String
  chunkSize_pos : 0 < chunkSize

def defaultChunkSize : ℤ := 100

/-- What `saveCheckpoint`, `restoreCheckpoint` and `NewAtomicStep` return for a reader
that is no `CheckpointReader`. -/
def noCheckpoints : String := "reader does not support checkpoints"

variable {I O : Type}

/-- The checks the two constructors share, in their order. They differ in the
message for a missing writer, in whether the reader must support checkpoints, and in
when the key defaults to the name. -/
def buildStep (options : StepOptions I O) (writerError : String)
    (needsCheckpoints defaultKey : Bool) : Except String (Step I O) :=
  if options.name = "" then .error "step name must not be empty"
  else
    -- only zero stands for the default, so what is refused below is negative
    let chunkSize := if options.chunkSize = 0 then defaultChunkSize else options.chunkSize
    if hneg : chunkSize < 0 then .error "chunk size must be positive"
    else match options.reader, options.processor with
      | none, _ => .error "reader must not be nil"
      | some _, none => .error "processor must not be nil"
      | some reader, some processor =>
        if options.writer = false then .error writerError
        else if needsCheckpoints = true ∧ reader.checkpoints = false then .error noCheckpoints
        else match options.retryPolicy.normalize, options.skipPolicy.normalize with
          | .error e, _ => .error e
          | .ok _, .error e => .error e
          | .ok retry, .ok skip =>
            .ok {
              name := options.name
              chunkSize := chunkSize.toNat
              reader := reader
              processor := processor
              retry := retry
              skip := skip
              store := options.checkpointStore
              key := if defaultKey = true ∧ options.checkpointKey = "" then options.name
                else options.checkpointKey
              chunkSize_pos := by
                have hne : chunkSize ≠ 0 := by
                  simp only [chunkSize, defaultChunkSize]
                  split <;> simp_all
                omega }

def newStep (options : StepOptions I O) : Except String (Step I O) :=
  buildStep options "writer must not be nil" false options.checkpointStore

/-- `NewAtomicStep`, whose options have no checkpoint store. -/
def newAtomicStep (options : StepOptions I O) : Except String (Step I O) :=
  buildStep { options with checkpointStore := false } "atomic writer must not be nil" true true

/-! ### The retry loop around the processor -/

/-- `ctx.Err()` before an attempt: the context is done from attempt `n` on. -/
def ctxErrAt (cancel : Option (ℕ × CtxErr)) (attempt : ℕ) : Option CtxErr :=
  match cancel with
  | none => none
  | some (n, c) => if n ≤ attempt then some c else none

namespace Step

variable (s : Step I O)

/-- One attempt: the look at the context, then the processor. -/
def attempt (cancel : Option (ℕ × CtxErr)) (x : I) (n : ℕ) : Verdict O :=
  match ctxErrAt cancel n with
  | some c => .fail c.err
  | none => s.processor x n

/-- The loop of `process` from an attempt on, with the retries it counts; `left`
bounds the attempts that can follow. -/
def processFrom (cancel : Option (ℕ × CtxErr)) (x : I) : ℕ → ℕ → Verdict O × ℕ
  | 0, n => (s.attempt cancel x n, 0)
  | left + 1, n =>
    match s.attempt cancel x n with
    | .fail e =>
      if s.retry.shouldRetry e n then
        ((processFrom cancel x left (n + 1)).1, (processFrom cancel x left (n + 1)).2 + 1)
      else (.fail e, 0)
    | .keep value => (.keep value, 0)
    | .filter => (.filter, 0)

/-- `process`: its result, and what it adds to `RetryCount`. No error is retried
after attempt number `MaxAttempts`. -/
def process (cancel : Option (ℕ × CtxErr)) (x : I) : Verdict O × ℕ :=
  s.processFrom cancel x (s.retry.maxAttempts.toNat - 1) 1

/-- **What the step makes of an item** whose processing is not interrupted. -/
def verdict (x : I) : Verdict O := (s.process none x).1

def Kept (i : ℕ) (value : O) : Prop :=
  ∃ x, s.reader.items[i]? = some x ∧ s.verdict x = .keep value

variable {s}

theorem attempt_of_done {cancel : Option (ℕ × CtxErr)} {x : I} {n : ℕ} {c : CtxErr}
    (h : ctxErrAt cancel n = some c) : s.attempt cancel x n = .fail c.err := by
  rw [attempt, h]

theorem attempt_of_not_done {cancel : Option (ℕ × CtxErr)} {x : I} {n : ℕ}
    (h : ctxErrAt cancel n = none) : s.attempt cancel x n = s.attempt none x n := by
  rw [attempt, h]
  rfl

theorem processFrom_cancel (cancel : Option (ℕ × CtxErr)) (x : I) (left n : ℕ) :
    (s.processFrom cancel x left n).1 = (s.processFrom none x left n).1 ∨
      ∃ c : CtxErr, (s.processFrom cancel x left n).1 = .fail c.err := by
  -- on the attempts that can follow, for every number of the next one
  induction left generalizing n with
  | zero =>
    cases hc : ctxErrAt cancel n with
    | some c => exact .inr ⟨c, attempt_of_done hc⟩
    | none => exact .inl (attempt_of_not_done hc)
  | succ left ih =>
    cases hc : ctxErrAt cancel n with
    | some c =>
      refine .inr ⟨c, ?_⟩
      simp [processFrom, attempt_of_done hc, RetryPolicy.shouldRetry_ctxErr]
    | none =>
      rw [processFrom, processFrom, attempt_of_not_done hc]
      cases s.attempt none x n with
      | keep value | filter => exact .inl rfl
      | fail e =>
        by_cases hretry : s.retry.shouldRetry e n = true
        · simpa only [hretry, if_true] using ih (n + 1)
        · simp only [hretry]
          exact .inl rfl

variable (s) in
/-- What `process` may return for an item: its verdict, or the context's error. -/
def MayReturn (x : I) (v : Verdict O) : Prop := v = s.verdict x ∨ ∃ c : CtxErr, v = .fail c.err

/-- **An interrupted `process` returns the verdict or the context's error.** -/
theorem mayReturn_process (s : Step I O) (cancel : Option (ℕ × CtxErr)) (x : I) :
    s.MayReturn x (s.process cancel x).1 :=
  processFrom_cancel cancel x _ _

variable {x : I}

theorem MayReturn.keep {value : O} (hv : s.MayReturn x (.keep value)) :
    s.verdict x = .keep value := by
  rcases hv with h | ⟨c, h⟩
  · exact h.symm
  · cases h

theorem MayReturn.filter (hv : s.MayReturn x .filter) (value : O) : s.verdict x ≠ .keep value := by
  intro hcon
  rcases hv with h | ⟨c, h⟩
  · exact nomatch h.trans hcon
  · cases h

/-- An item whose error is skipped is not kept: the context's error is never
skipped. -/
theorem MayReturn.skip {e : Err} {used cost : ℕ} (hv : s.MayReturn x (.fail e))
    (hskip : s.skip.shouldSkip e used cost = true) (value : O) : s.verdict x ≠ .keep value := by
  intro hcon
  rcases hv with h | ⟨c, h⟩
  · exact nomatch h.trans hcon
  · cases h
    exact absurd hskip (by simp [SkipPolicy.shouldSkip_ctxErr])

end Step

/-- A step over the given items that keeps every `7` and filters the rest, in chunks of
two. -/
def sevens (items : List ℕ) : Step ℕ ℕ where
  name := "sevens"
  chunkSize := 2
  reader := ⟨items, true⟩
  processor := fun x _ => if x = 7 then .keep x else .filter
  retry := { maxAttempts := 1 }
  skip := {}
  store := true
  key := "sevens"
  chunkSize_pos := by decide

/-! ### The machine -/

/-- What follows a call of `saveCheckpoint`. -/
inductive After where
  | dropped
  /-- The end of `flush`; `last` at the end of the input. -/
  | flushed (last : Bool)
  deriving DecidableEq, Repr

inductive Pc (I : Type) where
  /-- The look at the context and `reader.Open`. -/
  | openReader
  /-- `writer.Open` -/
  | openWriter
  | load
  | restore (checkpoint : ℕ)
  /-- The head of the loop: the look at the context and `reader.Read`. -/
  | read
  /-- `process`, for the item at this index. -/
  | process (index : ℕ) (item : I)
  /-- `reader.Checkpoint` in `saveCheckpoint` -/
  | checkpoint (k : After)
  /-- `store.Save` in `saveCheckpoint` -/
  | save (checkpoint : ℕ) (k : After)
  /-- `writer.Write` in `flush`, with the look at the context before it. -/
  | write (attempt : ℕ) (last : Bool)
  /-- `writer.Close` in `closeResources` -/
  | closeWriter
  /-- `reader.Close` in `closeResources`, with the error of the writer's. -/
  | closeReader (closeErr : Option Err)
  /-- `Run` has returned. -/
  | finished
  deriving DecidableEq, Repr

inductive Answer where
  | ok
  | cancelled (c : CtxErr)
  | fail (e : Err)
  | failTaken (e : Err)
  /-- The call finds nothing: `exists` is false. -/
  | missing
  deriving DecidableEq, Repr

inductive Label where
  | answer (a : Answer)
  /-- The due item is processed; the context may be done from some attempt on. -/
  | process (cancel : Option (ℕ × CtxErr))
  | restart
  deriving DecidableEq, Repr

/-- The state of a run, and what outlives it: the stored checkpoint and the outputs
the writer has accepted. -/
structure Sys (I O : Type) where
  pc : Pc I := .openReader
  report : Report
  position : ℕ := 0
  chunk : List (ℕ × O) := []
  saved : Option ℕ := none
  accepted : List (ℕ × O) := []

namespace Sys

/-- `report.finish(statusForError(err), err)` and `return`. -/
def fail (st : Sys I O) (e : Err) (pc : Pc I) : Sys I O :=
  { st with report := st.report.finish (statusForError e) (some e), pc := pc }

/-- What `Run` does once `saveCheckpoint` has returned nil. -/
def resume (st : Sys I O) : After → Sys I O
  | .dropped => { st with pc := .read }
  | .flushed false => { st with chunk := [], pc := .read }
  | .flushed true => { st with report := st.report.finish .completed none, pc := .closeWriter }

variable (s : Step I O) (st : Sys I O)

/-- `saveCheckpoint`, up to its first call. -/
def saveCheckpoint (k : After) : Sys I O :=
  if s.store = false then st.resume k
  else if s.reader.checkpoints = false then st.fail ⟨noCheckpoints, []⟩ .closeWriter
  else { st with pc := .checkpoint k }

/-- `restoreCheckpoint`, up to its first call. -/
def restoreCheckpoint : Sys I O :=
  if s.store = false then { st with pc := .read }
  else if s.reader.checkpoints = false then st.fail ⟨noCheckpoints, []⟩ .closeWriter
  else { st with pc := .load }

/-- `flush`, up to its first call. -/
def flush (last : Bool) : Sys I O :=
  if st.chunk = [] then st.resume (.flushed last) else { st with pc := .write 1 last }

/-- What `Run` does with the answer of `reader.Read`. -/
def afterRead : Sys I O :=
  match s.reader.items[st.position]? with
  | none => st.flush true
  | some x =>
    { st with
      report := { st.report with readCount := st.report.readCount + 1 }
      position := st.position + 1
      pc := .process st.position x }

/-- What `Run` does with the result of `process`, before the retries are counted. -/
def afterVerdict (index : ℕ) : Verdict O → Sys I O
  | .fail e =>
    if s.skip.shouldSkip e st.report.skipCount 1 then
      saveCheckpoint s
        { st with report := { st.report with skipCount := st.report.skipCount + 1 } } .dropped
    else st.fail e .closeWriter
  | .filter =>
    saveCheckpoint s
      { st with report := { st.report with filterCount := st.report.filterCount + 1 } } .dropped
  | .keep value =>
    let st' := { st with chunk := st.chunk ++ [(index, value)] }
    if st'.chunk.length = s.chunkSize then st'.flush false else { st' with pc := .read }

/-- What `flush` does when `writer.Write` returns an error. -/
def afterWriteError (attempt : ℕ) (last : Bool) (e : Err) : Sys I O :=
  if s.retry.shouldRetry e attempt then
    { st with
      report := { st.report with retryCount := st.report.retryCount + 1 }
      pc := .write (attempt + 1) last }
  else if s.skip.shouldSkip e st.report.skipCount st.chunk.length then
    -- a skipped buffer must not be followed by a checkpoint that covers it
    if s.store = true then st.fail (Sentinel.unsafeWriterSkipCheckpoint.err.wrap e) .closeWriter
    else
      resume
        { st with report :=
            { st.report with skipCount := st.report.skipCount + st.chunk.length } }
        (.flushed last)
  else st.fail e .closeWriter

/-- The end of `closeResources`. -/
def close (closeErr : Option Err) : Sys I O :=
  { st with report := st.report.close closeErr, pc := .finished }

/-- **The answer to the due call.** An answer a call cannot give has no successor. -/
def answer (a : Answer) : Option (Sys I O) :=
  match st.pc, a with
  | .openReader, .ok => some { st with position := 0, pc := .openWriter }
  | .openReader, .cancelled c =>
    some { st with report := st.report.finish .cancelled (some c.err), pc := .finished }
  | .openReader, .fail e => some (st.fail e .finished)
  | .openWriter, .ok => some (restoreCheckpoint s st)
  | .openWriter, .fail e => some (st.fail e (.closeReader none))
  | .load, .ok =>
    match st.saved with
    | none => some { st with pc := .read }
    | some checkpoint => some { st with pc := .restore checkpoint }
  | .load, .fail e => some (st.fail e .closeWriter)
  | .restore checkpoint, .ok => some { st with position := checkpoint, pc := .read }
  | .restore _, .fail e => some (st.fail e .closeWriter)
  | .read, .ok => some (st.afterRead s)
  | .read, .cancelled c =>
    some { st with report := st.report.finish .cancelled (some c.err), pc := .closeWriter }
  | .read, .fail e => some (st.fail e .closeWriter)
  | .checkpoint k, .ok => some { st with pc := .save st.position k }
  -- without a position the store is left as it is, and that is no error
  | .checkpoint k, .missing => some (st.resume k)
  | .checkpoint _, .fail e => some (st.fail e .closeWriter)
  | .save checkpoint k, .ok => some (resume { st with saved := some checkpoint } k)
  | .save checkpoint _, .failTaken e =>
    some (fail { st with saved := some checkpoint } e .closeWriter)
  | .save _ _, .fail e => some (st.fail e .closeWriter)
  | .write _ last, .ok =>
    some (saveCheckpoint s
      { st with
        accepted := st.accepted ++ st.chunk
        report := { st.report with writeCount := st.report.writeCount + st.chunk.length } }
      (.flushed last))
  | .write _ _, .cancelled c => some (st.fail c.err .closeWriter)
  | .write attempt last, .fail e => some (st.afterWriteError s attempt last e)
  | .closeWriter, .ok => some { st with pc := .closeReader none }
  | .closeWriter, .fail e => some { st with pc := .closeReader (some e) }
  | .closeReader closeErr, .ok => some (st.close closeErr)
  | .closeReader closeErr, .fail e => some (st.close (Err.join closeErr (some e)))
  | _, _ => none

end Sys

variable (s : Step I O)

/-- **One step of the machine.** -/
def step (st : Sys I O) : Label → Option (Sys I O)
  | .answer a => st.answer s a
  | .process cancel =>
    match st.pc with
    | .process index x =>
      some (Sys.afterVerdict s
        { st with report :=
            { st.report with retryCount := st.report.retryCount + (s.process cancel x).2 } }
        index (s.process cancel x).1)
    | _ => none
  | .restart =>
    some { report := { name := s.name }, saved := st.saved, accepted := st.accepted }

/-- **The runs of a step**, any number of them one after the other, from an empty
store. -/
abbrev Runs (h : List (Lts.Event (Sys I O) Label)) (st : Sys I O) : Prop :=
  Lts.Run (step s) { report := { name := s.name } } h st

/-! ### What outlives a run -/

namespace Sys

variable {s} {st st' : Sys I O}

def durable (st : Sys I O) : Option ℕ × List (ℕ × O) := (st.saved, st.accepted)

@[simp] theorem durable_resume (k : After) : (st.resume k).durable = st.durable := by
  match k with
  | .dropped | .flushed false | .flushed true => rfl

@[simp] theorem durable_saveCheckpoint (k : After) :
    (st.saveCheckpoint s k).durable = st.durable := by
  unfold saveCheckpoint
  split
  · exact durable_resume k
  · split <;> rfl

@[simp] theorem durable_restoreCheckpoint : (st.restoreCheckpoint s).durable = st.durable := by
  unfold restoreCheckpoint
  split
  · rfl
  · split <;> rfl

@[simp] theorem durable_flush (last : Bool) : (st.flush last).durable = st.durable := by
  unfold flush
  split
  · exact durable_resume _
  · rfl

@[simp] theorem durable_afterRead : (st.afterRead s).durable = st.durable := by
  unfold afterRead
  split
  · exact durable_flush true
  · rfl

@[simp] theorem durable_afterVerdict (index : ℕ) (v : Verdict O) :
    (st.afterVerdict s index v).durable = st.durable := by
  cases v with
  | keep value =>
    unfold afterVerdict
    dsimp only
    split
    · exact durable_flush false
    · rfl
  | filter => exact durable_saveCheckpoint _
  | fail e =>
    unfold afterVerdict
    dsimp only
    split
    · exact durable_saveCheckpoint _
    · rfl

@[simp] theorem durable_afterWriteError (attempt : ℕ) (last : Bool) (e : Err) :
    (st.afterWriteError s attempt last e).durable = st.durable := by
  unfold afterWriteError
  split
  · rfl
  · split
    · split
      · rfl
      · exact durable_resume _
    · rfl

end Sys

/-- **What a step does to what outlives a run**: it stores a checkpoint, extends what
was accepted, or leaves both alone. -/
theorem step_durable {st st' : Sys I O} {e : Label} (h : step s st e = some st') :
    st'.durable = st.durable ∨
    (∃ checkpoint k, st.pc = .save checkpoint k ∧
      (e = .answer .ok ∨ ∃ err, e = .answer (.failTaken err)) ∧
      st'.durable = (some checkpoint, st.accepted)) ∨
    (∃ attempt last, st.pc = .write attempt last ∧
      st'.durable = (st.saved, st.accepted ++ st.chunk)) := by
  cases e with
  | answer a =>
    change st.answer s a = some st' at h
    unfold Sys.answer at h
    split at h <;> (try split at h) <;> cases h
    all_goals first
      | exact .inl rfl
      | (refine .inl ?_; simp; done)
      | skip
    -- what is left: a checkpoint that is stored, noticed or not, and a chunk that is written
    · next hpc => exact .inr (.inl ⟨_, _, hpc, .inl rfl, Sys.durable_resume _⟩)
    · next hpc => exact .inr (.inl ⟨_, _, hpc, .inr ⟨_, rfl⟩, rfl⟩)
    · next hpc => exact .inr (.inr ⟨_, _, hpc, Sys.durable_saveCheckpoint _⟩)
  | process cancel =>
    refine .inl ?_
    unfold step at h
    dsimp only at h
    split at h
    · cases h
      exact Sys.durable_afterVerdict _ _
    · cases h
  | restart =>
    cases h
    exact .inl rfl

theorem step_durable_save {st st' : Sys I O} {e : Label} {checkpoint : ℕ} {k : After}
    (hpc : st.pc = .save checkpoint k)
    (he : e = .answer .ok ∨ ∃ err, e = .answer (.failTaken err)) (h : step s st e = some st') :
    st'.durable = (some checkpoint, st.accepted) := by
  rcases he with rfl | ⟨err, rfl⟩
  · simp only [step, Sys.answer, hpc, Option.some.injEq] at h
    subst h
    exact Sys.durable_resume k
  · simp only [step, Sys.answer, hpc, Option.some.injEq] at h
    subst h
    rfl

end Bluetape.Batch
