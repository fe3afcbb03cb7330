import Bluetape.Batch.Step

/-!
# Which items a checkpointed step can lose

A stored checkpoint promises that the items before it need not be read again. It is **safe**
(`Safe`) when every item before it that the processor keeps is among the outputs the writer has
accepted. As long as it is, no item is ever lost: whatever happens to a run, the next one resumes at
or before the first output that is missing, and a run that reports completion has had all of them
accepted.

The position that `saveCheckpoint` stores is the reader's, and the reader is ahead of the writer by
what sits in the chunk buffer. After a flush the buffer has just been accepted, and the two agree.
But an item that is filtered or skipped saves the position too, without a flush, while the buffer
may hold outputs of earlier items (`CheckpointsPastBuffer`).

* `safe_iff_no_checkpoint_past_buffer`: along every run the checkpoint is safe exactly when no such
  save takes effect.
* `filtered_item_loses_buffered_item`: a run of two items where it does.

The invariant (`Inv`) is given phase by phase: in the loop, every kept item before the reader's
position is accepted or in the buffer.
-/

namespace Bluetape.Batch

open Lts

variable {I O : Type} {s : Step I O} {st st' : Sys I O}

/-! ### The property -/

variable (s) in
/-- Every kept item before `n` has been accepted by the writer. -/
def AcceptedBelow (st : Sys I O) (n : ℕ) : Prop :=
  ∀ i value, i < n → s.Kept i value → (i, value) ∈ st.accepted

variable (s) in
/-- **The stored checkpoint is safe**: it covers no kept item the writer has not
accepted. -/
def Safe (st : Sys I O) : Prop := ∀ checkpoint, st.saved = some checkpoint →
  AcceptedBelow s st checkpoint

/-- **A checkpoint past the buffer**: the save that follows a filtered or skipped item
takes effect while the buffer holds an output the writer has not accepted. -/
def CheckpointsPastBuffer (ev : Event (Sys I O) Label) : Prop :=
  (∃ checkpoint, ev.before.pc = .save checkpoint .dropped) ∧
    (ev.label = .answer .ok ∨ ∃ e, ev.label = .answer (.failTaken e)) ∧
    ∃ c ∈ ev.before.chunk, c ∉ ev.before.accepted

/-! ### The invariant -/

variable (s) in
/-- The buffer accounts for the items before `n`: those that are kept are accepted or
buffered, and only such items are buffered. -/
structure Buffered (st : Sys I O) (n : ℕ) : Prop where
  covered : ∀ i value, i < n → s.Kept i value →
    (i, value) ∈ st.accepted ∨ (i, value) ∈ st.chunk
  kept : ∀ c ∈ st.chunk, c.1 < n ∧ s.Kept c.1 c.2

variable (s) in
def AtEnd (st : Sys I O) : Prop := s.reader.items.length ≤ st.position

variable (s) in
/-- What is known when `saveCheckpoint` is called: after a flush, the buffer has been
accepted. -/
def Flushed (st : Sys I O) : After → Prop
  | .dropped => True
  | .flushed last => (∀ c ∈ st.chunk, c ∈ st.accepted) ∧ (last = true → AtEnd s st)

variable (s) in
def Honest (st : Sys I O) : Prop :=
  st.report.status = .completed → ∀ i value, s.Kept i value → (i, value) ∈ st.accepted

variable (s) in
def PhaseInv (st : Sys I O) : Prop :=
  match st.pc with
  | .openReader | .openWriter | .load => st.position = 0 ∧ st.chunk = []
  | .restore checkpoint => st.saved = some checkpoint ∧ st.chunk = []
  | .read => Buffered s st st.position
  | .process index x =>
    s.reader.items[index]? = some x ∧ st.position = index + 1 ∧ Buffered s st index
  | .checkpoint k => Buffered s st st.position ∧ Flushed s st k
  | .save checkpoint k =>
    checkpoint = st.position ∧ Buffered s st st.position ∧ Flushed s st k
  | .write _ last => Buffered s st st.position ∧ (last = true → AtEnd s st)
  | .closeWriter | .closeReader _ | .finished => Honest s st

variable (s) in
/-- **The invariant of a checkpointed step.** -/
structure Inv (st : Sys I O) : Prop where
  safe : Safe s st
  phase : PhaseInv s st

/-! ### The buffer -/

theorem Buffered.acceptedBelow {n : ℕ} (hbuf : Buffered s st n)
    (hacc : ∀ c ∈ st.chunk, c ∈ st.accepted) : AcceptedBelow s st n := by
  intro i value hi hkept
  rcases hbuf.covered i value hi hkept with h | h
  · exact h
  · exact hacc _ h

theorem buffered_of_accepted {n : ℕ} (hchunk : st.chunk = []) (hacc : AcceptedBelow s st n) :
    Buffered s st n := by
  refine ⟨fun i value hi hkept => .inl (hacc i value hi hkept), fun c hc => ?_⟩
  rw [hchunk] at hc
  exact nomatch hc

theorem Buffered.honest (hbuf : Buffered s st st.position) (hend : AtEnd s st)
    (hacc : ∀ c ∈ st.chunk, c ∈ st.accepted) (i : ℕ) (value : O) (hkept : s.Kept i value) :
    (i, value) ∈ st.accepted := by
  have hlt : i < s.reader.items.length := by
    obtain ⟨x, hx, -⟩ := hkept
    exact (List.getElem?_eq_some_iff.mp hx).1
  exact hbuf.acceptedBelow hacc i value (lt_of_lt_of_le hlt hend) hkept

theorem Buffered.drop {index : ℕ} {x : I} (hbuf : Buffered s st index)
    (hx : s.reader.items[index]? = some x) (hno : ∀ value, s.verdict x ≠ .keep value) :
    Buffered s st (index + 1) := by
  refine ⟨fun i value hi hkept => ?_, fun c hc => ?_⟩
  · rcases Nat.lt_succ_iff_lt_or_eq.mp hi with hlt | rfl
    · exact hbuf.covered i value hlt hkept
    · obtain ⟨x', hx', hv⟩ := hkept
      obtain rfl : x = x' := Option.mem_unique hx hx'
      exact absurd hv (hno value)
  · exact ⟨(hbuf.kept c hc).1.trans (Nat.lt_succ_self _), (hbuf.kept c hc).2⟩

theorem Buffered.keep {index : ℕ} {x : I} {value : O} (hbuf : Buffered s st index)
    (hx : s.reader.items[index]? = some x) (hv : s.verdict x = .keep value) :
    Buffered s { st with chunk := st.chunk ++ [(index, value)] } (index + 1) := by
  refine ⟨fun i v hi hkept => ?_, forall_mem_concat (fun c hc => ?_) ?_⟩
  · rcases Nat.lt_succ_iff_lt_or_eq.mp hi with hlt | rfl
    · exact (hbuf.covered i v hlt hkept).imp_right (List.mem_append_left _)
    · obtain ⟨x', hx', hv'⟩ := hkept
      obtain rfl : x = x' := Option.mem_unique hx hx'
      obtain rfl : value = v := Verdict.keep.inj (hv.symm.trans hv')
      exact .inr (by simp)
  · exact ⟨(hbuf.kept c hc).1.trans (Nat.lt_succ_self _), (hbuf.kept c hc).2⟩
  · exact ⟨Nat.lt_succ_self _, x, hx, hv⟩

/-- What is known before `saveCheckpoint` does not depend on the rest of the state. -/
theorem Flushed.of_eq {k : After} (hfl : Flushed s st k) (hchunk : st'.chunk = st.chunk)
    (hacc : st'.accepted = st.accepted) (hpos : st'.position = st.position) :
    Flushed s st' k := by
  cases k with
  | dropped => trivial
  | flushed last =>
    refine ⟨fun c hc => ?_, fun hlast => ?_⟩
    · rw [hchunk] at hc
      rw [hacc]
      exact hfl.1 c hc
    · rw [AtEnd, hpos]
      exact hfl.2 hlast

/-! ### The phases, one by one -/

theorem honest_fail (e : Err) (pc : Pc I) : Honest s (st.fail e pc) := fun hst =>
  absurd hst (statusForError_ne_completed e)

theorem phaseInv_fail (e : Err) : PhaseInv s (st.fail e .closeWriter) := honest_fail e _

/-- Returning from `saveCheckpoint` into the loop or to the end. -/
theorem phaseInv_resume {k : After} (hbuf : Buffered s st st.position) (hfl : Flushed s st k) :
    PhaseInv s (st.resume k) := by
  match k with
  | .dropped => exact ⟨hbuf.covered, hbuf.kept⟩
  | .flushed false => exact buffered_of_accepted rfl (hbuf.acceptedBelow hfl.1)
  | .flushed true => exact fun _ => hbuf.honest (hfl.2 rfl) hfl.1

theorem phaseInv_saveCheckpoint {k : After} (hbuf : Buffered s st st.position)
    (hfl : Flushed s st k) : PhaseInv s (st.saveCheckpoint s k) := by
  unfold Sys.saveCheckpoint
  split
  · exact phaseInv_resume hbuf hfl
  · split
    · exact phaseInv_fail _
    · exact ⟨⟨hbuf.covered, hbuf.kept⟩, hfl.of_eq rfl rfl rfl⟩

theorem phaseInv_restoreCheckpoint (hstore : s.store = true) (hpos : st.position = 0)
    (hchunk : st.chunk = []) : PhaseInv s (st.restoreCheckpoint s) := by
  rw [Sys.restoreCheckpoint, if_neg (by simp [hstore])]
  split
  · exact phaseInv_fail _
  · exact ⟨hpos, hchunk⟩

theorem phaseInv_flush {last : Bool} (hbuf : Buffered s st st.position)
    (hend : last = true → AtEnd s st) : PhaseInv s (st.flush last) := by
  unfold Sys.flush
  split
  · next hnil =>
    refine phaseInv_resume hbuf ⟨fun c hc => ?_, hend⟩
    rw [hnil] at hc
    exact nomatch hc
  · exact ⟨⟨hbuf.covered, hbuf.kept⟩, hend⟩

theorem phaseInv_afterRead (hbuf : Buffered s st st.position) : PhaseInv s (st.afterRead s) := by
  unfold Sys.afterRead
  split
  · next hnone => exact phaseInv_flush hbuf fun _ => List.getElem?_eq_none_iff.mp hnone
  · next x hx => exact ⟨hx, rfl, hbuf.covered, hbuf.kept⟩

/-- **Processing an item keeps the invariant**, whatever interrupts it. -/
theorem phaseInv_afterVerdict {index : ℕ} {x : I} {v : Verdict O}
    (hx : s.reader.items[index]? = some x) (hpos : st.position = index + 1)
    (hbuf : Buffered s st index) (hv : s.MayReturn x v) :
    PhaseInv s (st.afterVerdict s index v) := by
  have hdrop : (∀ value, s.verdict x ≠ .keep value) → Buffered s st st.position := by
    intro hno
    rw [hpos]
    exact hbuf.drop hx hno
  cases v with
  | keep value =>
    have hbuf' := hbuf.keep hx hv.keep
    rw [← hpos] at hbuf'
    unfold Sys.afterVerdict
    dsimp only
    split
    · exact phaseInv_flush hbuf' (fun h => Bool.noConfusion h)
    · exact ⟨hbuf'.covered, hbuf'.kept⟩
  | filter =>
    obtain ⟨hcov, hkept⟩ := hdrop hv.filter
    exact phaseInv_saveCheckpoint ⟨hcov, hkept⟩ trivial
  | fail e =>
    unfold Sys.afterVerdict
    dsimp only
    split
    · next hskip =>
      obtain ⟨hcov, hkept⟩ := hdrop (hv.skip hskip)
      exact phaseInv_saveCheckpoint ⟨hcov, hkept⟩ trivial
    · exact phaseInv_fail e

/-- A writer that refuses the buffer leaves it where it is: with a checkpoint store, no
buffer is ever skipped. -/
theorem phaseInv_afterWriteError {attempt : ℕ} {last : Bool} {e : Err} (hstore : s.store = true)
    (hbuf : Buffered s st st.position) (hend : last = true → AtEnd s st) :
    PhaseInv s (st.afterWriteError s attempt last e) := by
  rw [Sys.afterWriteError, if_pos hstore]
  split
  · exact ⟨⟨hbuf.covered, hbuf.kept⟩, hend⟩
  · split
    · exact phaseInv_fail _
    · exact phaseInv_fail e

theorem phaseInv_close {closeErr : Option Err} (hh : Honest s st) :
    PhaseInv s (st.close closeErr) := fun hst => hh (Report.completed_of_close hst)

/-- **Every answer keeps the phase invariant.** -/
theorem phaseInv_answer {a : Answer} (hstore : s.store = true) (hinv : Inv s st)
    (h : st.answer s a = some st') : PhaseInv s st' := by
  obtain ⟨hsafe, hph⟩ := hinv
  unfold PhaseInv at hph
  unfold Sys.answer at h
  split at h <;> try cases h
  all_goals rw [‹st.pc = _›] at hph
  -- one case for each line of `answer`; an error ends the run
  · exact ⟨rfl, hph.2⟩
  · rintro ⟨⟩
  · exact honest_fail _ _
  · exact phaseInv_restoreCheckpoint hstore hph.1 hph.2
  · exact honest_fail _ _
  · split at h <;> cases h
    · refine buffered_of_accepted hph.2 fun i value hi => ?_
      rw [hph.1] at hi
      exact absurd hi (Nat.not_lt_zero i)
    · exact ⟨‹_›, hph.2⟩
  · exact honest_fail _ _
  · -- only here does the run rely on the stored checkpoint
    exact buffered_of_accepted hph.2 (hsafe _ hph.1)
  · exact honest_fail _ _
  · exact phaseInv_afterRead hph
  · rintro ⟨⟩
  · exact honest_fail _ _
  · exact ⟨rfl, ⟨hph.1.covered, hph.1.kept⟩, hph.2.of_eq rfl rfl rfl⟩
  · exact phaseInv_resume hph.1 hph.2
  · exact honest_fail _ _
  · exact phaseInv_resume ⟨hph.2.1.covered, hph.2.1.kept⟩ (hph.2.2.of_eq rfl rfl rfl)
  · exact honest_fail _ _
  · exact honest_fail _ _
  · -- what the writer accepts is what was buffered
    refine phaseInv_saveCheckpoint ⟨fun i value hi hkept => .inl ?_, hph.1.kept⟩
      ⟨fun c hc => List.mem_append_right _ hc, hph.2⟩
    rcases hph.1.covered i value hi hkept with hmem | hmem
    · exact List.mem_append_left _ hmem
    · exact List.mem_append_right _ hmem
  · exact honest_fail _ _
  · exact phaseInv_afterWriteError hstore hph.1 hph.2
  · exact hph
  · exact hph
  · exact phaseInv_close hph
  · exact phaseInv_close hph

/-- **Every step keeps the phase invariant.** -/
theorem phaseInv_step {e : Label} (hstore : s.store = true) (hinv : Inv s st)
    (h : step s st e = some st') : PhaseInv s st' := by
  cases e with
  | answer a => exact phaseInv_answer hstore hinv h
  | restart =>
    cases h
    exact ⟨rfl, rfl⟩
  | process cancel =>
    unfold step at h
    dsimp only at h
    split at h
    · next index x hpc =>
      have hph := hinv.phase
      simp only [PhaseInv, hpc] at hph
      obtain ⟨hx, hpos, hbuf⟩ := hph
      cases h
      exact phaseInv_afterVerdict hx hpos ⟨hbuf.covered, hbuf.kept⟩ (s.mayReturn_process cancel x)
    · cases h

/-! ### Safety of the checkpoint, step by step -/

theorem safe_of_durable {saved : Option ℕ} {accepted : List (ℕ × O)}
    (hd : st'.durable = (saved, accepted))
    (hsafe : ∀ checkpoint, saved = some checkpoint → ∀ i value, i < checkpoint →
      s.Kept i value → (i, value) ∈ accepted) : Safe s st' := by
  obtain ⟨hsaved, hacc⟩ := Prod.mk.inj hd
  intro checkpoint hcp i value hi hkept
  rw [hacc]
  exact hsafe checkpoint (hsaved.symm.trans hcp) i value hi hkept

/-- Storing the reader's position is safe exactly when the buffer has been
accepted. -/
theorem safe_save_iff {checkpoint : ℕ} (hd : st'.durable = (some checkpoint, st.accepted))
    (hcp : checkpoint = st.position) (hbuf : Buffered s st st.position) :
    Safe s st' ↔ ∀ c ∈ st.chunk, c ∈ st.accepted := by
  obtain ⟨hsaved, hacc⟩ := Prod.mk.inj hd
  constructor
  · intro hsafe c hc
    obtain ⟨hlt, hkept⟩ := hbuf.kept c hc
    rw [← hcp] at hlt
    have hmem := hsafe checkpoint hsaved c.1 c.2 hlt hkept
    rw [hacc] at hmem
    exact hmem
  · intro hchunk
    refine safe_of_durable hd fun cp hcp' => ?_
    obtain rfl : checkpoint = cp := Option.some.inj hcp'
    rw [hcp]
    exact hbuf.acceptedBelow hchunk

/-- **Step by step, the two are opposite**: a step from a state in order leaves the
checkpoint safe exactly when it is not a checkpoint past the buffer. -/
theorem safe_step_iff {e : Label} (hinv : Inv s st) (h : step s st e = some st') :
    Safe s st' ↔ ¬CheckpointsPastBuffer ⟨st, e, st'⟩ := by
  obtain ⟨hsafe, hph⟩ := hinv
  constructor
  · rintro hsafe' ⟨⟨checkpoint, hpc⟩, he, c, hc, hno⟩
    dsimp only at hpc
    simp only [PhaseInv, hpc] at hph
    obtain ⟨hcp, hbuf, -⟩ := hph
    exact hno ((safe_save_iff (step_durable_save s hpc he h) hcp hbuf).mp hsafe' c hc)
  · intro hno
    rcases step_durable s h with hd | ⟨checkpoint, k, hpc, he, hd⟩ | ⟨attempt, last, -, hd⟩
    · exact safe_of_durable hd hsafe
    · simp only [PhaseInv, hpc] at hph
      obtain ⟨hcp, hbuf, hfl⟩ := hph
      refine (safe_save_iff hd hcp hbuf).mpr fun c hc => ?_
      cases k with
      | dropped =>
        by_contra hcon
        exact hno ⟨⟨checkpoint, hpc⟩, he, c, hc, hcon⟩
      | flushed last => exact hfl.1 c hc
    · exact safe_of_durable hd fun cp hcp i value hi hkept =>
        List.mem_append_left _ (hsafe cp hcp i value hi hkept)

/-! ### Runs -/

theorem inv_init : Inv s { report := { name := s.name } } :=
  ⟨nofun, rfl, rfl⟩

/-- **When a checkpointed step loses nothing.** Along every run of the step – any
number of restarts after any call included – the stored checkpoint never covers a
kept item that the writer has not accepted, exactly when no save that follows a
filtered or skipped item takes effect over a buffer with an output not yet accepted.
In such a run, completion means that every kept item has been written. -/
theorem safe_iff_no_checkpoint_past_buffer (hstore : s.store = true)
    {h : List (Event (Sys I O) Label)} (hr : Runs s h st) :
    ((∀ ev ∈ h, Safe s ev.after) ↔ ∀ ev ∈ h, ¬CheckpointsPastBuffer ev) ∧
    ((∀ ev ∈ h, ¬CheckpointsPastBuffer ev) → st.pc = .finished →
      st.report.status = .completed → ∀ i value, s.Kept i value → (i, value) ∈ st.accepted) := by
  have hiff : (∀ ev ∈ h, Safe s ev.after) ↔ ∀ ev ∈ h, ¬CheckpointsPastBuffer ev := by
    rw [← always_iff_forall_mem, ← always_iff_forall_mem]
    exact hr.always_iff (I := fun _ st => Inv s st) inv_init
      (fun _ _ _ _ hinv hs hsafe => ⟨hsafe, phaseInv_step hstore hinv hs⟩)
      fun _ _ _ _ hinv hs => safe_step_iff hinv hs
  refine ⟨hiff, fun hno hpc hst => ?_⟩
  have hinv : Inv s st :=
    hr.invariant_of_mem (hiff.mpr hno) inv_init
      fun _ _ _ hinv hs hsafe => ⟨hsafe, phaseInv_step hstore hinv hs⟩
  have hph := hinv.phase
  simp only [PhaseInv, hpc] at hph
  exact hph hst

/-- A run dies before its buffer is written, and the next one writes both items: the
condition is met, the checkpoint is safe throughout and nothing is lost. -/
theorem safe_iff_no_checkpoint_past_buffer_restarted :
    ∃ h st, Runs (sevens [7, 7]) h st ∧ (∀ ev ∈ h, Safe (sevens [7, 7]) ev.after) ∧
      st.saved = some 2 ∧ ∀ i value, (sevens [7, 7]).Kept i value → (i, value) ∈ st.accepted := by
  obtain ⟨h, st, hr, hpc, hst, hsaved, hall⟩ := exists_run (step (sevens [7, 7]))
    { report := { name := "sevens" } }
    [.answer .ok, .answer .ok, .answer .ok, .answer .ok, .process none, .restart,
      .answer .ok, .answer .ok, .answer .ok, .answer .ok, .process none, .answer .ok,
      .process none, .answer .ok, .answer .ok, .answer .ok, .answer .ok, .answer .ok, .answer .ok]
    (fun h st => st.pc = .finished ∧ st.report.status = .completed ∧ st.saved = some 2 ∧
      ∀ ev ∈ h, (match ev.before.pc with
        | .save _ .dropped => false
        | _ => true) = true)
    (by decide)
  have hno : ∀ ev ∈ h, ¬CheckpointsPastBuffer ev := by
    rintro ev hev ⟨⟨checkpoint, hsave⟩, -⟩
    have := hall ev hev
    rw [hsave] at this
    exact Bool.noConfusion this
  obtain ⟨hiff, hdone⟩ := safe_iff_no_checkpoint_past_buffer rfl hr
  exact ⟨h, st, hr, hiff.mpr hno, hsaved, hdone hno hpc hst⟩

/-- **A filtered item loses a buffered one**: of two items the first is kept and
waits in the buffer, the second is filtered and its position is stored. The run dies
there; the next one resumes after both, completes, and the first item is written by
nobody. -/
theorem filtered_item_loses_buffered_item :
    ∃ h st, Runs (sevens [7, 1]) h st ∧ st.pc = .finished ∧ st.report.status = .completed ∧
      ¬Safe (sevens [7, 1]) st ∧ (sevens [7, 1]).Kept 0 7 ∧ (0, 7) ∉ st.accepted := by
  obtain ⟨h, st, hr, hpc, hst, hsaved, hacc⟩ := exists_run (step (sevens [7, 1]))
    { report := { name := "sevens" } }
    [.answer .ok, .answer .ok, .answer .ok, .answer .ok, .process none, .answer .ok,
      .process none, .answer .ok, .answer .ok, .restart, .answer .ok, .answer .ok, .answer .ok,
      .answer .ok, .answer .ok, .answer .ok, .answer .ok]
    (fun _ st => st.pc = .finished ∧ st.report.status = .completed ∧ st.saved = some 2 ∧
      st.accepted = [])
    (by decide)
  have hkept : (sevens [7, 1]).Kept 0 7 := ⟨7, rfl, by decide⟩
  have hno : (0, 7) ∉ st.accepted := by simp [hacc]
  exact ⟨h, st, hr, hpc, hst, fun hsafe => hno (hsafe 2 hsaved 0 7 (by decide) hkept), hkept, hno⟩

end Bluetape.Batch
