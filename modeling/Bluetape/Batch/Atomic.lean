import Bluetape.Batch.Step
import Bluetape.Go

/-!
# The atomic batch step is exactly-once

A model of `runAtomic` and `commitAtomic` (`batch/atomic_step.go`) over the
checkpoint table of `batch/sqlcheckpoint`. A commit stores a chunk of outputs and the
reader's position in one transaction, guarded by a compare-and-set on the revision of
the stored checkpoint: an insert that yields to an existing row when no revision is
expected, an update of the row with the expected revision otherwise.

Any number of runs of one step share the table (`Sys`). Each is a machine of its own, with the
reader, the pending outputs and the revision it expects; their steps are interleaved freely, and a
run that dies simply takes no further step. A commit may also succeed without the run learning of
it.

* `exactlyOnce`: the outputs of all effective commits are the kept outputs of the items before the
  stored position.
* `completed_commits`: after a completion, those of the whole input.

What a run has pending is only known to fit the table while the revision it expects is the current
one (`Uncommitted`). That is all the compare-and-set needs, and the commits of other runs make it
vacuous.
-/

namespace Bluetape.Batch.Atomic

open Go Lts List

/-! ### The checkpoint table -/

/-- The row of a checkpoint key; the table demands a positive revision. -/
structure Row where
  revision : ℕ
  checkpoint : ℕ
  revision_pos : 0 < revision
  deriving DecidableEq, Repr

/-- The row of the key, if there is one, with the outputs of the transactions that
have committed, oldest first. -/
structure Store (O : Type) where
  row : Option Row := none
  log : List (List O) := []

/-- `insertCheckpointSQL`: the row it returns, unless there is one already. -/
def insertCheckpoint (row : Option Row) (checkpoint : ℕ) : Option Row :=
  match row with
  | some _ => none
  | none => some ⟨1, checkpoint, Nat.one_pos⟩

/-- `updateCheckpointSQL`: the row it returns, if one has the expected revision. -/
def updateCheckpoint (row : Option Row) (checkpoint expected : ℕ) : Option Row :=
  match row with
  | some r =>
    if r.revision = expected then some ⟨r.revision + 1, checkpoint, Nat.succ_pos _⟩ else none
  | none => none

theorem insertCheckpoint_eq_some {row : Option Row} {r' : Row} {checkpoint : ℕ}
    (h : insertCheckpoint row checkpoint = some r') :
    row = none ∧ r'.revision = 1 ∧ r'.checkpoint = checkpoint := by
  unfold insertCheckpoint at h
  split at h
  · cases h
  · cases h
    exact ⟨rfl, rfl, rfl⟩

theorem updateCheckpoint_eq_some {row : Option Row} {r' : Row} {checkpoint expected : ℕ}
    (h : updateCheckpoint row checkpoint expected = some r') :
    ∃ r, row = some r ∧ r.revision = expected ∧ r'.revision = expected + 1 ∧
      r'.checkpoint = checkpoint := by
  unfold updateCheckpoint at h
  split at h
  · next r =>
    split at h
    · next heq =>
      cases h
      exact ⟨r, rfl, heq, congrArg (· + 1) heq, rfl⟩
    · cases h
  · cases h

namespace Store

variable {O : Type}

/-- The current revision; an absent row counts as revision zero. -/
def revision (t : Store O) : ℕ := t.row.elim 0 Row.revision

def position (t : Store O) : ℕ := t.row.elim 0 Row.checkpoint

/-- `Writer.Commit`, once its transaction has gone through: the new table and the
revision, or the error with nothing changed. -/
def commit (t : Store O) (expectedVersion : ℕ) (items : List O) (checkpoint : ℕ) :
    Except Err (Store O × ℕ) :=
  if maxInt64 < (expectedVersion : ℤ) then
    .error ⟨"sqlcheckpoint: expected checkpoint version exceeds PostgreSQL bigint", []⟩
  else if (expectedVersion : ℤ) = maxInt64 then
    .error Sentinel.checkpointVersionExhausted.err
  else
    match if 0 < expectedVersion then updateCheckpoint t.row checkpoint expectedVersion
      else insertCheckpoint t.row checkpoint with
    | none => .error Sentinel.checkpointConflict.err
    | some row => .ok (⟨some row, t.log ++ [items]⟩, row.revision)

/-- **What an effective commit does**: it finds the revision it expects, and moves the
table to the next one. -/
theorem commit_eq_ok {t t' : Store O} {expected checkpoint version : ℕ} {items : List O}
    (h : t.commit expected items checkpoint = .ok (t', version)) :
    t.revision = expected ∧ t'.revision = expected + 1 ∧ version = expected + 1 ∧
      t'.position = checkpoint ∧ t'.log = t.log ++ [items] := by
  unfold commit at h
  split at h
  · cases h
  split at h
  · cases h
  split at h <;> cases h
  next row hrow =>
    split_ifs at hrow with hpos
    · obtain ⟨r, hr, hexp, hrev, hcp⟩ := updateCheckpoint_eq_some hrow
      refine ⟨?_, hrev, hrev, hcp, rfl⟩
      rw [revision, hr]
      exact hexp
    · -- no revision is expected, which is the revision of an absent row
      obtain rfl : expected = 0 := by omega
      obtain ⟨hnone, hrev, hcp⟩ := insertCheckpoint_eq_some hrow
      refine ⟨?_, hrev, hrev, hcp, rfl⟩
      rw [revision, hnone]
      rfl

end Store

/-! ### One run -/

inductive Pc (I : Type) where
  /-- The look at the context and `reader.Open`. -/
  | openReader
  | load
  /-- `reader.Restore`, with what was loaded. -/
  | restore (version checkpoint : ℕ)
  /-- The head of the loop: the look at the context and `reader.Read`. -/
  | read
  /-- `process`, for the item at this index. -/
  | process (index : ℕ) (item : I)
  /-- `reader.Checkpoint` in `commitAtomic`, with the look at the context before it;
  `last` at the end of the input. -/
  | checkpoint (last : Bool)
  /-- `atomic.Commit` in `commitAtomic`, with the look at the context before it. -/
  | commit (checkpoint : ℕ) (last : Bool)
  /-- `reader.Close` -/
  | closeReader
  /-- `runAtomic` has returned. -/
  | finished
  deriving DecidableEq, Repr

structure Runner (I O : Type) where
  pc : Pc I := .openReader
  report : Report
  position : ℕ := 0
  expected : ℕ := 0
  pending : List O := []
  progressCount : ℕ := 0

variable {I O : Type}

namespace Runner

/-- `report.finish(statusForError(err), err)` and `return`. -/
def fail (r : Runner I O) (e : Err) (pc : Pc I) : Runner I O :=
  { r with report := r.report.finish (statusForError e) (some e), pc := pc }

/-- `report.finish(StatusCompleted, nil)` and `return`. -/
def complete (r : Runner I O) : Runner I O :=
  { r with report := r.report.finish .completed none, pc := .closeReader }

def committed (r : Runner I O) (last : Bool) (version : ℕ) : Runner I O :=
  let r' := { r with report :=
    { r.report with writeCount := r.report.writeCount + r.pending.length } }
  if last then r'.complete
  else { r' with expected := version, pending := [], progressCount := 0, pc := .read }

variable (s : Step I O) (r : Runner I O)

/-- What `runAtomic` does with the answer of `reader.Read`. -/
def afterRead : Runner I O :=
  match s.reader.items[r.position]? with
  | none => if 0 < r.progressCount then { r with pc := .checkpoint true } else r.complete
  | some x =>
    { r with
      report := { r.report with readCount := r.report.readCount + 1 }
      progressCount := r.progressCount + 1
      position := r.position + 1
      pc := .process r.position x }

def endOfItem : Runner I O :=
  if r.progressCount = s.chunkSize then { r with pc := .checkpoint false }
  else { r with pc := .read }

/-- What `runAtomic` does with the result of `process`. -/
def afterVerdict : Verdict O → Runner I O
  | .fail e =>
    if s.skip.shouldSkip e r.report.skipCount 1 then
      endOfItem s { r with report := { r.report with skipCount := r.report.skipCount + 1 } }
    else r.fail e .closeReader
  | .filter =>
    endOfItem s { r with report := { r.report with filterCount := r.report.filterCount + 1 } }
  | .keep value => endOfItem s { r with pending := r.pending ++ [value] }

/-- **The answer to the due call of a run**, with the table it leaves. A commit that is
answered `failTaken` has gone through – if the table admitted it – although the run
is told it failed. -/
def answer (t : Store O) (a : Answer) : Option (Store O × Runner I O) :=
  match r.pc, a with
  | .openReader, .ok =>
    if s.reader.checkpoints = false then
      some (t, { r with report := r.report.finish .failed (some ⟨noCheckpoints, []⟩)
                        pc := .closeReader })
    else some (t, { r with position := 0, pc := .load })
  | .openReader, .cancelled c =>
    some (t, { r with report := r.report.finish .cancelled (some c.err), pc := .finished })
  | .openReader, .fail e => some (t, r.fail e .finished)
  | .load, .ok =>
    match t.row with
    | none => some (t, { r with expected := 0, pc := .read })
    | some row => some (t, { r with pc := .restore row.revision row.checkpoint })
  | .load, .fail e => some (t, r.fail e .closeReader)
  | .restore version checkpoint, .ok =>
    some (t, { r with position := checkpoint, expected := version, pc := .read })
  | .restore _ _, .fail e => some (t, r.fail e .closeReader)
  | .read, .ok => some (t, r.afterRead s)
  | .read, .cancelled c =>
    some (t, { r with report := r.report.finish .cancelled (some c.err), pc := .closeReader })
  | .read, .fail e => some (t, r.fail e .closeReader)
  | .checkpoint last, .ok => some (t, { r with pc := .commit r.position last })
  | .checkpoint _, .missing =>
    some (t, r.fail ⟨"reader checkpoint is unavailable", []⟩ .closeReader)
  | .checkpoint _, .cancelled c => some (t, r.fail c.err .closeReader)
  | .checkpoint _, .fail e => some (t, r.fail e .closeReader)
  | .commit checkpoint last, .ok =>
    match t.commit r.expected r.pending checkpoint with
    | .ok (t', version) => some (t', r.committed last version)
    | .error e => some (t, r.fail e .closeReader)
  | .commit checkpoint _, .failTaken e =>
    match t.commit r.expected r.pending checkpoint with
    | .ok (t', _) => some (t', r.fail e .closeReader)
    | .error _ => some (t, r.fail e .closeReader)
  | .commit _ _, .cancelled c => some (t, r.fail c.err .closeReader)
  | .commit _ _, .fail e => some (t, r.fail e .closeReader)
  | .closeReader, .ok => some (t, { r with pc := .finished })
  | .closeReader, .fail e =>
    some (t, { r with report := r.report.close (some e), pc := .finished })
  | _, _ => none

end Runner

/-! ### Runs of one step, interleaved -/

structure Sys (I O : Type) where
  store : Store O := {}
  runners : ℕ → Option (Runner I O) := fun _ => none

inductive Label where
  | start (id : ℕ)
  | answer (id : ℕ) (a : Answer)
  | process (id : ℕ) (cancel : Option (ℕ × CtxErr))
  deriving DecidableEq, Repr

def Sys.set (y : Sys I O) (id : ℕ) (t : Store O) (r : Runner I O) : Sys I O :=
  ⟨t, Function.update y.runners id (some r)⟩

variable (s : Step I O)

/-- **One step of the system.** -/
def step (y : Sys I O) : Label → Option (Sys I O)
  | .start id =>
    match y.runners id with
    | some _ => none
    | none => some (y.set id y.store { report := { name := s.name } })
  | .answer id a =>
    match y.runners id with
    | none => none
    | some r => (r.answer s y.store a).map fun p => y.set id p.1 p.2
  | .process id cancel =>
    match y.runners id with
    | none => none
    | some r =>
      match r.pc with
      | .process _ x =>
        some (y.set id y.store (Runner.afterVerdict s
          { r with report :=
              { r.report with retryCount := r.report.retryCount + (s.process cancel x).2 } }
          (s.process cancel x).1))
      | _ => none

/-- **The runs of the system**, from an empty table. -/
abbrev Runs (h : List (Event (Sys I O) Label)) (y : Sys I O) : Prop :=
  Run (step s) {} h y

/-! ### Exactly once -/

def outputs (xs : List I) : List O :=
  xs.filterMap fun x => match s.verdict x with
    | .keep value => some value
    | _ => none

/-- **Exactly once**: the outputs of all effective commits are the kept outputs of the
items before the stored position. -/
def ExactlyOnce (t : Store O) : Prop :=
  t.log.flatten = outputs s (s.reader.items.take t.position)

/-- What a run has pending, as long as the revision it expects is the current one: the
kept outputs of the items from the stored position to `n`. -/
structure Uncommitted (t : Store O) (r : Runner I O) (n : ℕ) : Prop where
  expected_le : r.expected ≤ t.revision
  pending : r.expected = t.revision →
    t.position ≤ n ∧ r.pending = outputs s ((s.reader.items.take n).drop t.position)

def RunnerInv (t : Store O) (r : Runner I O) : Prop :=
  match r.pc with
  | .openReader | .load => r.position = 0 ∧ r.pending = []
  | .restore version checkpoint =>
    r.pending = [] ∧ version ≤ t.revision ∧ (version = t.revision → checkpoint = t.position)
  | .read | .checkpoint _ => Uncommitted s t r r.position
  | .process index x =>
    s.reader.items[index]? = some x ∧ r.position = index + 1 ∧ Uncommitted s t r index
  | .commit checkpoint _ => checkpoint = r.position ∧ Uncommitted s t r r.position
  | .closeReader | .finished => True

/-- **The invariant of the system.** -/
structure Inv (y : Sys I O) : Prop where
  exactlyOnce : ExactlyOnce s y.store
  runners : ∀ id r, y.runners id = some r → RunnerInv s y.store r

variable {s} {t t' : Store O} {r r' : Runner I O}

/-! ### The kept outputs of a stretch of items -/

theorem outputs_append (xs ys : List I) : outputs s (xs ++ ys) = outputs s xs ++ outputs s ys :=
  filterMap_append

/-- The items before `n`, split at an earlier position. -/
theorem outputs_take_split {m n : ℕ} (hmn : m ≤ n) :
    outputs s (s.reader.items.take m) ++ outputs s ((s.reader.items.take n).drop m) =
      outputs s (s.reader.items.take n) := by
  have hsplit := take_append_drop m (s.reader.items.take n)
  rw [take_take, min_eq_left hmn] at hsplit
  rw [← outputs_append, hsplit]

theorem outputs_drop_succ {m n : ℕ} {x : I} (hmn : m ≤ n) (hx : s.reader.items[n]? = some x) :
    outputs s ((s.reader.items.take (n + 1)).drop m) =
      outputs s ((s.reader.items.take n).drop m) ++ outputs s [x] := by
  have hlt : n < s.reader.items.length := (List.getElem?_eq_some_iff.mp hx).1
  have hlen : m ≤ (s.reader.items.take n).length := by
    rw [length_take]
    omega
  rw [take_add_one, hx, Option.toList_some, drop_append_of_le_length hlen, outputs_append]

theorem outputs_drop_self (n : ℕ) : outputs s ((s.reader.items.take n).drop n) = [] := by
  rw [drop_eq_nil_of_le (length_take_le n _)]
  rfl

/-! ### Pending outputs -/

theorem Uncommitted.drop {index : ℕ} {x : I} (hun : Uncommitted s t r index)
    (hx : s.reader.items[index]? = some x) (hno : ∀ value, s.verdict x ≠ .keep value) :
    Uncommitted s t r (index + 1) := by
  refine ⟨hun.expected_le, fun heq => ?_⟩
  obtain ⟨hle, hpend⟩ := hun.pending heq
  refine ⟨by omega, ?_⟩
  have hnil : outputs s [x] = [] := by
    cases hv : s.verdict x with
    | keep value => exact absurd hv (hno value)
    | filter | fail e => simp [outputs, hv]
  rw [outputs_drop_succ hle hx, hnil, append_nil, hpend]

theorem Uncommitted.keep {index : ℕ} {x : I} {value : O} (hun : Uncommitted s t r index)
    (hx : s.reader.items[index]? = some x) (hv : s.verdict x = .keep value) :
    Uncommitted s t { r with pending := r.pending ++ [value] } (index + 1) := by
  refine ⟨hun.expected_le, fun heq => ?_⟩
  obtain ⟨hle, hpend⟩ := hun.pending heq
  refine ⟨by omega, ?_⟩
  have hone : outputs s [x] = [value] := by simp [outputs, hv]
  rw [outputs_drop_succ hle hx, hone, ← hpend]

theorem uncommitted_nil (hpend : r.pending = []) (hle : r.expected ≤ t.revision)
    (hpos : r.expected = t.revision → r.position = t.position) :
    Uncommitted s t r r.position := by
  refine ⟨hle, fun heq => ?_⟩
  rw [hpos heq, outputs_drop_self]
  exact ⟨le_rfl, hpend⟩

/-! ### The steps of a run -/

theorem runnerInv_endOfItem (hun : Uncommitted s t r r.position) :
    RunnerInv s t (r.endOfItem s) := by
  unfold Runner.endOfItem
  split
  · exact ⟨hun.expected_le, hun.pending⟩
  · exact ⟨hun.expected_le, hun.pending⟩

theorem runnerInv_afterRead (hun : Uncommitted s t r r.position) :
    RunnerInv s t (r.afterRead s) := by
  unfold Runner.afterRead
  split
  · split
    · exact ⟨hun.expected_le, hun.pending⟩
    · trivial
  · next x hx => exact ⟨hx, rfl, hun.expected_le, hun.pending⟩

theorem runnerInv_afterVerdict {index : ℕ} {x : I} {v : Verdict O}
    (hx : s.reader.items[index]? = some x) (hpos : r.position = index + 1)
    (hun : Uncommitted s t r index) (hv : s.MayReturn x v) :
    RunnerInv s t (r.afterVerdict s v) := by
  have hdrop : (∀ value, s.verdict x ≠ .keep value) → Uncommitted s t r r.position := by
    intro hno
    rw [hpos]
    exact hun.drop hx hno
  cases v with
  | keep value =>
    have hun' := hun.keep hx hv.keep
    rw [← hpos] at hun'
    exact runnerInv_endOfItem hun'
  | filter =>
    obtain ⟨hle, hpend⟩ := hdrop hv.filter
    exact runnerInv_endOfItem ⟨hle, hpend⟩
  | fail e =>
    unfold Runner.afterVerdict
    dsimp only
    split
    · next hskip =>
      obtain ⟨hle, hpend⟩ := hdrop (hv.skip hskip)
      exact runnerInv_endOfItem ⟨hle, hpend⟩
    · trivial

theorem runnerInv_committed {last : Bool} {version : ℕ} (hrev : t'.revision = version)
    (hpos : t'.position = r.position) : RunnerInv s t' (r.committed last version) := by
  unfold Runner.committed
  split
  · trivial
  · exact uncommitted_nil rfl hrev.ge fun _ => hpos.symm

variable (s t r) in
/-- **What an answer does** to the table and to the run. -/
inductive Did : Store O → Runner I O → Prop
  | opened (hpc : r.pc = .openReader) : Did t { r with position := 0, pc := .load }
  | absent (hpc : r.pc = .load) (hrow : t.row = none) : Did t { r with expected := 0, pc := .read }
  | loaded {row : Row} (hpc : r.pc = .load) (hrow : t.row = some row) :
      Did t { r with pc := .restore row.revision row.checkpoint }
  | restored {version checkpoint : ℕ} (hpc : r.pc = .restore version checkpoint) :
      Did t { r with position := checkpoint, expected := version, pc := .read }
  | read (hpc : r.pc = .read) : Did t (r.afterRead s)
  | positioned {last : Bool} (hpc : r.pc = .checkpoint last) :
      Did t { r with pc := .commit r.position last }
  | committed {checkpoint version : ℕ} {last : Bool} {t' : Store O}
      (hpc : r.pc = .commit checkpoint last)
      (hcommit : t.commit r.expected r.pending checkpoint = .ok (t', version)) :
      Did t' (r.committed last version)
  | unnoticed {checkpoint version : ℕ} {last : Bool} {t' : Store O} {e : Err}
      (hpc : r.pc = .commit checkpoint last)
      (hcommit : t.commit r.expected r.pending checkpoint = .ok (t', version)) :
      Did t' (r.fail e .closeReader)
  /-- The run ends without completion. -/
  | failed {report : Report} {pc : Pc I} (hstatus : report.status ≠ .completed)
      (hpc : pc = .closeReader ∨ pc = .finished) : Did t { r with report, pc }
  | closed {report : Report} (hpc : r.pc = .closeReader)
      (hstatus : report.status = .completed → r.report.status = .completed) :
      Did t { r with report, pc := .finished }

theorem did_of_answer {a : Answer} (h : r.answer s t a = some (t', r')) : Did s t r t' r' := by
  have hfail : ∀ {e : Err}, some (t, r.fail e .closeReader) = some (t', r') → Did s t r t' r' := by
    rintro e ⟨⟩
    exact .failed (statusForError_ne_completed e) (.inl rfl)
  unfold Runner.answer at h
  -- one case for each line of `answer`
  split at h
  · split_ifs at h <;> cases h
    · exact .failed nofun (.inl rfl)
    · exact .opened ‹_›
  · cases h
    exact .failed nofun (.inr rfl)
  · cases h
    exact .failed (statusForError_ne_completed _) (.inr rfl)
  · split at h <;> cases h
    · exact .absent ‹_› ‹_›
    · exact .loaded ‹_› ‹_›
  · exact hfail h
  · cases h
    exact .restored ‹_›
  · exact hfail h
  · cases h
    exact .read ‹_›
  · cases h
    exact .failed nofun (.inl rfl)
  · exact hfail h
  · cases h
    exact .positioned ‹_›
  · exact hfail h
  · exact hfail h
  · exact hfail h
  · split at h
    · cases h
      exact .committed ‹_› ‹_›
    · exact hfail h
  · split at h
    · cases h
      exact .unnoticed ‹_› ‹_›
    · exact hfail h
  · exact hfail h
  · exact hfail h
  · cases h
    exact .closed ‹_› id
  · cases h
    exact .closed ‹_› Report.completed_of_close
  · cases h

/-- **An answer changes the table only by an effective commit** of what is pending. -/
theorem store_answer {a : Answer} (h : r.answer s t a = some (t', r')) :
    t' = t ∨ ∃ checkpoint last version, r.pc = .commit checkpoint last ∧
      t.commit r.expected r.pending checkpoint = .ok (t', version) := by
  cases did_of_answer h with
  | committed hpc hcommit | unnoticed hpc hcommit => exact .inr ⟨_, _, _, hpc, hcommit⟩
  | _ => exact .inl rfl

/-- **An answer keeps the invariant of its run.** -/
theorem runnerInv_answer {a : Answer} (hinv : RunnerInv s t r)
    (h : r.answer s t a = some (t', r')) : RunnerInv s t' r' := by
  unfold RunnerInv at hinv
  cases did_of_answer h with
  | opened hpc =>
    rw [hpc] at hinv
    exact ⟨rfl, hinv.2⟩
  | absent hpc hrow =>
    rw [hpc] at hinv
    refine uncommitted_nil hinv.2 (Nat.zero_le _) fun _ => ?_
    rw [Store.position, hrow]
    exact hinv.1
  | loaded hpc hrow =>
    rw [hpc] at hinv
    refine ⟨hinv.2, ?_, fun _ => ?_⟩
    · rw [Store.revision, hrow]
      exact le_rfl
    · rw [Store.position, hrow]
      rfl
  | restored hpc =>
    rw [hpc] at hinv
    exact uncommitted_nil hinv.1 hinv.2.1 hinv.2.2
  | read hpc =>
    rw [hpc] at hinv
    exact runnerInv_afterRead hinv
  | positioned hpc =>
    rw [hpc] at hinv
    exact ⟨rfl, hinv.expected_le, hinv.pending⟩
  | committed hpc hcommit =>
    rw [hpc] at hinv
    obtain ⟨-, hrev, rfl, hpos, -⟩ := Store.commit_eq_ok hcommit
    exact runnerInv_committed hrev (hpos.trans hinv.1)
  | failed _ hpc => rcases hpc with rfl | rfl <;> trivial
  | unnoticed | closed => trivial

/-! ### The system -/

/-- **A commit of one run leaves the others alone**: none of them expects the new
revision. -/
theorem RunnerInv.of_commit {expected checkpoint version : ℕ} {items : List O}
    (hinv : RunnerInv s t r) (hcommit : t.commit expected items checkpoint = .ok (t', version)) :
    RunnerInv s t' r := by
  obtain ⟨hrev, hrev', -⟩ := Store.commit_eq_ok hcommit
  -- nobody expects more than the old revision, so the new one makes the rest vacuous
  have hun : ∀ n, Uncommitted s t r n → Uncommitted s t' r n := by
    intro n hun
    have hle := hun.expected_le
    exact ⟨by omega, fun heq => by omega⟩
  unfold RunnerInv at hinv ⊢
  split at hinv
  · exact hinv
  · exact hinv
  · obtain ⟨hpend, hle, -⟩ := hinv
    exact ⟨hpend, by omega, fun heq => by omega⟩
  · exact hun _ hinv
  · exact hun _ hinv
  · exact ⟨hinv.1, hinv.2.1, hun _ hinv.2.2⟩
  · exact ⟨hinv.1, hun _ hinv.2⟩
  · trivial
  · trivial

/-- **An effective commit keeps the table exactly-once.** -/
theorem ExactlyOnce.commit {checkpoint version : ℕ} (hex : ExactlyOnce s t)
    (hun : Uncommitted s t r checkpoint)
    (hcommit : t.commit r.expected r.pending checkpoint = .ok (t', version)) :
    ExactlyOnce s t' := by
  obtain ⟨hrev, -, -, hpos, hlog⟩ := Store.commit_eq_ok hcommit
  obtain ⟨hle, hpend⟩ := hun.pending hrev.symm
  rw [ExactlyOnce, hlog, flatten_append, hex, hpos, flatten_singleton, hpend,
    outputs_take_split hle]

theorem inv_set {y : Sys I O} {id : ℕ} (hex : ExactlyOnce s t')
    (hothers : ∀ j r, y.runners j = some r → RunnerInv s t' r) (hrun : RunnerInv s t' r') :
    Inv s (y.set id t' r') :=
  ⟨hex, fun _ _ hj => forall_update (fun j r _ => hothers j r) hrun hj⟩

/-- **Every step keeps the invariant.** -/
theorem inv_step {y y' : Sys I O} {e : Label} (hinv : Inv s y) (h : step s y e = some y') :
    Inv s y' := by
  obtain ⟨hex, hrunners⟩ := hinv
  cases e with
  | start id =>
    cases hr : y.runners id with
    | some r => simp [step, hr] at h
    | none =>
      simp only [step, hr, Option.some.injEq] at h
      subst h
      exact inv_set hex hrunners ⟨rfl, rfl⟩
  | process id cancel =>
    cases hr : y.runners id with
    | none => simp [step, hr] at h
    | some r =>
      simp only [step, hr] at h
      split at h
      · next index x hpc =>
        cases h
        have hrun := hrunners id r hr
        simp only [RunnerInv, hpc] at hrun
        obtain ⟨hx, hpos, hun⟩ := hrun
        refine inv_set hex hrunners (runnerInv_afterVerdict hx hpos ?_ (s.mayReturn_process _ x))
        exact ⟨hun.expected_le, hun.pending⟩
      · cases h
  | answer id a =>
    cases hr : y.runners id with
    | none => simp [step, hr] at h
    | some r =>
      simp only [step, hr] at h
      obtain ⟨⟨t', r'⟩, hans, rfl⟩ := Option.map_eq_some_iff.mp h
      have hrun := hrunners id r hr
      have hrun' := runnerInv_answer hrun hans
      rcases store_answer hans with rfl | ⟨checkpoint, last, version, hpc, hcommit⟩
      · exact inv_set hex hrunners hrun'
      · simp only [RunnerInv, hpc] at hrun
        obtain ⟨rfl, hun⟩ := hrun
        exact inv_set (hex.commit hun hcommit)
          (fun j r'' hj => (hrunners j r'' hj).of_commit hcommit) hrun'

/-- **Atomic steps are exactly-once**: whatever any number of runs of a step do, in
whatever order, and wherever each of them stops, the outputs of all effective commits
are the kept outputs of the items before the stored position, in order and each once. -/
theorem exactlyOnce {h : List (Event (Sys I O) Label)} {y : Sys I O} (hr : Runs s h y) :
    y.store.log.flatten = outputs s (s.reader.items.take y.store.position) :=
  (hr.invariant (P := Inv s) ⟨rfl, nofun⟩ fun _ _ _ hinv hs => inv_step hinv hs).exactlyOnce

/-- Two runs: the first commit of the one goes through unnoticed, and the other, which has
started in the meantime, does the rest of the work. -/
def unnoticedCommit : List Label :=
  [.start 0, .answer 0 .ok, .answer 0 .ok, .start 1, .answer 0 .ok, .process 0 none,
    .answer 0 .ok, .process 0 none, .answer 0 .ok,
    .answer 0 (.failTaken Sentinel.commitUnknown.err), .answer 1 .ok, .answer 1 .ok,
    .answer 1 .ok, .answer 1 .ok, .process 1 none, .answer 1 .ok, .answer 1 .ok, .answer 1 .ok]

/-- Two commits, three items, nothing twice. -/
theorem exactlyOnce_unknown_outcome :
    ∃ h y, Runs (sevens [7, 1, 7]) h y ∧ y.store.log = [[7], [7]] ∧ y.store.position = 3 ∧
      y.store.log.flatten =
        outputs (sevens [7, 1, 7]) ((sevens [7, 1, 7]).reader.items.take y.store.position) := by
  obtain ⟨h, y, hr, hlog, hposition⟩ := exists_run (step (sevens [7, 1, 7])) {}
    unnoticedCommit (fun _ y => y.store.log = [[7], [7]] ∧ y.store.position = 3) (by decide)
  exact ⟨h, y, hr, hlog, hposition, exactlyOnce hr⟩

/-! ### Completion -/

variable (s) in
/-- **What a run knows of the end of the input**, with the table at `n`: unless it has read
something new it is not beyond `n`, and it commits for the last time, or completes, at the end. -/
def Ends (n : ℕ) (r : Runner I O) : Prop :=
  (r.progressCount = 0 → r.position ≤ n) ∧
  match r.pc with
  | .restore _ checkpoint => checkpoint ≤ n
  | .checkpoint last | .commit _ last => last = true → s.reader.items.length ≤ r.position
  | .closeReader | .finished => r.report.status = .completed → s.reader.items.length ≤ n
  | _ => True

theorem Ends.mono {n n' : ℕ} (h : Ends s n r) (hle : n ≤ n') : Ends s n' r := by
  obtain ⟨hzero, hend⟩ := h
  refine ⟨fun hz => (hzero hz).trans hle, ?_⟩
  obtain ⟨pc, _, _, _, _, _⟩ := r
  cases pc with
  | restore => exact hend.trans hle
  | closeReader | finished => exact fun hst => (hend hst).trans hle
  | openReader | load | read | process | checkpoint | commit => exact hend

/-- The stored position never goes back: what is committed begins there. -/
theorem position_le_of_answer {a : Answer} (hinv : RunnerInv s t r)
    (h : r.answer s t a = some (t', r')) : t.position ≤ t'.position := by
  rcases store_answer h with rfl | ⟨checkpoint, last, version, hpc, hcommit⟩
  · rfl
  · simp only [RunnerInv, hpc] at hinv
    obtain ⟨hrev, -, -, hpos, -⟩ := Store.commit_eq_ok hcommit
    rw [hpos, hinv.1]
    exact (hinv.2.pending hrev.symm).1

section

variable {n : ℕ} (h : r.progressCount = 0 → r.position ≤ n)
include h

theorem ends_endOfItem : Ends s n (r.endOfItem s) := by
  unfold Runner.endOfItem
  split
  · exact ⟨h, nofun⟩
  · exact ⟨h, trivial⟩

theorem ends_afterVerdict (v : Verdict O) : Ends s n (r.afterVerdict s v) := by
  cases v with
  | keep | filter => exact ends_endOfItem h
  | fail e =>
    rw [Runner.afterVerdict]
    split_ifs
    · exact ends_endOfItem h
    · exact ⟨h, fun hst => absurd hst (statusForError_ne_completed e)⟩

theorem ends_afterRead : Ends s n (r.afterRead s) := by
  unfold Runner.afterRead
  split
  · next hnone =>
    split_ifs with hpos
    · exact ⟨h, fun _ => getElem?_eq_none_iff.mp hnone⟩
    · exact ⟨h, fun _ => (getElem?_eq_none_iff.mp hnone).trans (h (by omega))⟩
  · exact ⟨nofun, trivial⟩

end

theorem ends_answer {a : Answer} (hinv : RunnerInv s t r) (h : Ends s t.position r)
    (hans : r.answer s t a = some (t', r')) : Ends s t'.position r' := by
  obtain ⟨hzero, hend⟩ := h.mono (position_le_of_answer hinv hans)
  unfold RunnerInv at hinv
  cases did_of_answer hans with
  | opened => exact ⟨fun _ => Nat.zero_le _, trivial⟩
  | absent => exact ⟨hzero, trivial⟩
  | loaded _ hrow =>
    refine ⟨hzero, ?_⟩
    rw [Store.position, hrow]
    exact le_rfl
  | restored hpc =>
    rw [hpc] at hend
    exact ⟨fun _ => hend, trivial⟩
  | read => exact ends_afterRead hzero
  | positioned hpc =>
    rw [hpc] at hend
    exact ⟨hzero, hend⟩
  | @committed _ _ last _ hpc hcommit =>
    rw [hpc] at hend hinv
    obtain ⟨-, -, -, hpos, -⟩ := Store.commit_eq_ok hcommit
    have hle : r.position ≤ t'.position := (hpos.trans hinv.1).ge
    cases last with
    | true => exact ⟨hzero, fun _ => (hend rfl).trans hle⟩
    | false => exact ⟨fun _ => hle, trivial⟩
  | unnoticed => exact ⟨hzero, fun hst => absurd hst (statusForError_ne_completed _)⟩
  | failed hstatus hpc =>
    rcases hpc with rfl | rfl <;> exact ⟨hzero, fun hst => absurd hst hstatus⟩
  | closed hpc hstatus =>
    rw [hpc] at hend
    exact ⟨hzero, fun hst => hend (hstatus hst)⟩

variable (s) in
def AllEnd (y : Sys I O) : Prop := ∀ id r, y.runners id = some r → Ends s y.store.position r

theorem allEnd_step {y y' : Sys I O} {e : Label} (hinv : Inv s y) (hends : AllEnd s y)
    (h : step s y e = some y') : AllEnd s y' := by
  cases e with
  | start id =>
    simp only [step] at h
    split at h <;> cases h
    exact fun _ _ => forall_update (fun j r _ => hends j r) ⟨fun _ => Nat.zero_le _, trivial⟩
  | answer id a =>
    simp only [step] at h
    split at h
    · cases h
    · next r hr =>
      obtain ⟨⟨t', r'⟩, hans, rfl⟩ := Option.map_eq_some_iff.mp h
      have hrun := hinv.runners id r hr
      have hle := position_le_of_answer hrun hans
      exact fun _ _ => forall_update (fun j r _ hj => (hends j r hj).mono hle)
        (ends_answer hrun (hends id r hr) hans)
  | process id cancel =>
    simp only [step] at h
    split at h
    · cases h
    · next r hr =>
      split at h <;> cases h
      have hzero := (hends id r hr).1
      exact fun _ _ => forall_update (fun j r _ => hends j r) (ends_afterVerdict (by exact hzero) _)

/-- **A run that completes has left nothing out**: whatever the other runs do, once a run has
returned and reports completion, the kept outputs of the whole input are committed, each once. -/
theorem completed_commits {h : List (Event (Sys I O) Label)} {y : Sys I O} {id : ℕ}
    (hr : Runs s h y) (hid : y.runners id = some r) (hpc : r.pc = .finished)
    (hst : r.report.status = .completed) : y.store.log.flatten = outputs s s.reader.items := by
  have hinv := hr.invariant (P := fun y => Inv s y ∧ AllEnd s y) ⟨⟨rfl, nofun⟩, nofun⟩
    fun _ _ _ hP hs => ⟨inv_step hP.1 hs, allEnd_step hP.1 hP.2 hs⟩
  have hend := (hinv.2 id r hid).2
  rw [hpc] at hend
  rw [hinv.1.exactlyOnce, take_of_length_le (hend hst)]

/-- The first run does not know what has become of its commit; the other one completes. -/
theorem completed_commits_unknown_outcome :
    ∃ h y, Runs (sevens [7, 1, 7]) h y ∧ (∃ r ∈ y.runners 0, r.report.status ≠ .completed) ∧
      ∃ r ∈ y.runners 1, r.pc = .finished ∧ r.report.status = .completed ∧
        y.store.log.flatten = outputs (sevens [7, 1, 7]) [7, 1, 7] := by
  obtain ⟨h, y, hr, hother, r, hid, hpc, hst⟩ := exists_run (step (sevens [7, 1, 7])) {}
    (unnoticedCommit ++ [.answer 1 .ok])
    (fun _ y => (∃ r ∈ y.runners 0, r.report.status ≠ .completed) ∧
      ∃ r ∈ y.runners 1, r.pc = .finished ∧ r.report.status = .completed) (by decide)
  exact ⟨h, y, hr, hother, r, hid, hpc, hst, completed_commits hr hid hpc hst⟩

end Bluetape.Batch.Atomic
