import Bluetape.Library.Run

/-!
# The lifecycle of an elector

The electors of `leader/redis`, `leader/mongo` and `leader/sql` are three copies of one lifecycle. A
`Campaign` writes the elector's token to the server until it succeeds and then starts a renewal
worker; a `Resign` stops the worker and deletes the token. Any number of these calls may be under
way, and they share a few flags under a mutex; the PostgreSQL elector has two more of them,
`resigning` and `resolved`.

What the server answers is part of the label of a step, so all this holds whatever it does. Each
critical section is one step, and so is each server call and each wait:

* a campaign is `attempting` the acquisition, `reconciling` after an unclear reply, has `won`, is
  `marking` the elector as unclean, or is `ending`;
* a resign is `cancelling` the worker, `waiting` for it, `deleting` the token, or `finishing`. Up to
  its delete it is *pending*, and it stays so when its context ends with the delete still on its
  way: the call returns, and the server may execute the delete at any later time (`Fault`);
* a worker is `running`, `losing` the leadership, or has `returned`.

The calls are numbered by the order of their first critical section, which is what
"started before" means throughout.

The flags keep a campaign that is still *seeking* from seeing them change (`Elector.Inv`). They do
not keep a campaign from beginning while a resign is pending; if no campaign does, then resigns and
campaigns do not meet (`Elector.Apart`). For the PostgreSQL elector, the counter `resigning`
guarantees it for the calls under way, so that only a delete on its way can be overtaken
(`Elector.late_of_overtakes`).
-/

namespace Bluetape.Leader

open Lts List

/-! ### Flags -/

/-- The three packages with this lifecycle. -/
inductive Backend where
  /-- `leader/redis`. -/
  | redis
  /-- `leader/mongo`. -/
  | mongo
  /-- `leader/sql`. -/
  | postgres
  deriving DecidableEq, Repr

/-- The sentinel errors of `beginCampaign`. -/
inductive CampaignError where
  /-- `ErrCleanupPending`. -/
  | cleanupPending
  /-- `ErrAlreadyLeader`. -/
  | alreadyLeader
  /-- `ErrCampaignInProgress`. -/
  | campaignInProgress
  deriving DecidableEq, Repr

/-- The fields of an `Elector` that its mutex protects. -/
structure Flags where
  owned : Bool
  campaigning : Bool
  cleanup : Bool
  /-- `resigning`, of the PostgreSQL elector. -/
  resigning : ℕ
  /-- `resolved`, of the PostgreSQL elector. -/
  resolved : Bool
  generation : ℕ
  /-- `cancel` and `done`, which are set and cleared together: the worker they
  belong to. -/
  done : Option ℕ
  deriving DecidableEq, Repr

/-- `beginCampaign`. -/
def Flags.beginCampaign (f : Flags) : Except CampaignError Flags :=
  if f.cleanup then .error .cleanupPending
  else if f.owned then .error .alreadyLeader
  else if f.campaigning then .error .campaignInProgress
  else .ok { f with campaigning := true }

/-- `endCampaign`. -/
def Flags.endCampaign (f : Flags) : Flags := { f with campaigning := false }

/-- The critical section of `startRenewal`. -/
def Flags.startRenewal (f : Flags) (worker : ℕ) : Flags :=
  { f with
    generation := f.generation + 1
    owned := true
    cleanup := false
    done := some worker }

/-- What a campaign whose outcome is unknown does: `markCleanupPending`, and the section
in `Campaign` that stands for it in the other two packages. -/
def Flags.markCleanupPending (b : Backend) (f : Flags) : Flags :=
  match b with
  | .redis | .mongo => { f with cleanup := true }
  | .postgres => { f with owned := false, cleanup := true }

/-- `clearOwnership`, the first section of `Resign`; `none` if there is nothing to
resign. -/
def Flags.clearOwnership (b : Backend) (f : Flags) : Option Flags :=
  if f.owned || f.cleanup then
    match b with
    | .redis | .mongo => some { f with owned := false, cleanup := true }
    | .postgres =>
      some { f with owned := false, cleanup := true, resigning := f.resigning + 1 }
  else none

/-- `finishResign`, the last section of `Resign`. In the Redis and the Mongo elector only a
`Resign` whose delete succeeded gets there. -/
def Flags.finishResign (b : Backend) (f : Flags) (generation : ℕ) (resolved : Bool) : Flags :=
  match b with
  | .redis | .mongo =>
    if resolved && decide (f.generation = generation) then
      { f with cleanup := false, done := none }
    else f
  | .postgres =>
    if f.generation ≠ generation ∨ f.resigning = 0 then f
    else
      let f' := { f with resolved := f.resolved || resolved, resigning := f.resigning - 1 }
      if f'.resigning = 0 && f'.resolved then
        { f' with cleanup := false, resolved := false, done := none }
      else f'

/-- `clearOwnershipAfterLoss`, by which a worker gives the leadership up. -/
def Flags.clearOwnershipAfterLoss (b : Backend) (f : Flags) (generation worker : ℕ)
    (cleanup : Bool) : Flags :=
  if f.generation ≠ generation ∨ f.done ≠ some worker then f
  else
    match b with
    | .redis | .mongo => { f with owned := false, cleanup := cleanup, done := none }
    | .postgres =>
      let f' := { f with owned := false, cleanup := cleanup || decide (0 < f.resigning) }
      if f'.resigning = 0 then { f' with done := none } else f'

/-! ### Calls and workers -/

/-- What can happen to a command or statement that is sent to the server: it is executed and
answered; it is executed, and the answer is lost; it never gets there; or its call returns with
the context and leaves it on its way, to be executed at some later time or never. -/
inductive Fault where
  | none
  | lost
  | dropped
  | late
  deriving DecidableEq, Repr

/-- The statement is executed within its call. -/
def Fault.executed : Fault → Bool
  | .none | .lost => true
  | .dropped | .late => false

/-- What the call leaves, if the statement turns the one into the other. -/
def Fault.effect {α : Type} (fault : Fault) (before after : α) : α :=
  if fault.executed then after else before

/-- What is on its way when the call is over. -/
def Fault.leaves {α : Type} (fault : Fault) (statement : α) (late : List α) : List α :=
  if fault = .late then late ++ [statement] else late

theorem Fault.mem_leaves {α : Type} {fault : Fault} {statement x : α} {late : List α}
    (h : x ∈ fault.leaves statement late) : x ∈ late ∨ x = statement := by
  unfold Fault.leaves at h
  split_ifs at h
  · exact mem_concat h
  · exact .inl h

/-- What a `Campaign` learns from an attempt. -/
inductive AcquireReply where
  | granted
  | denied
  /-- An error, or the context of the attempt is over. `internalTimeout`: the attempt's
  own, not the caller's. -/
  | failed (internalTimeout : Bool)
  deriving DecidableEq, Repr

/-- What a `Campaign` learns from looking the owner up: its own token, or not. -/
inductive ProbeReply where
  | own
  | other
  | failed
  deriving DecidableEq, Repr

/-- What a worker learns from a renewal. -/
inductive RenewReply where
  | renewed
  | notOwner
  | failed
  deriving DecidableEq, Repr

/-- Where a `Campaign` is. -/
inductive CampaignPhase where
  | attempting
  | reconciling (internalTimeout : Bool)
  /-- About to call `startRenewal`. -/
  | won
  | marking
  /-- About to call `endCampaign`. -/
  | ending
  deriving DecidableEq, Repr

/-- The campaign has not got a result yet. -/
def CampaignPhase.seeking : CampaignPhase → Bool
  | .attempting | .reconciling _ | .won | .marking => true
  | .ending => false

/-- What a `Campaign` does with the reply to an attempt. -/
def afterAcquire (b : Backend) : AcquireReply → CampaignPhase
  | .granted => .won
  | .denied => .attempting
  | .failed internalTimeout =>
    match b with
    | .redis => .reconciling false
    | .mongo => .marking
    | .postgres => .reconciling internalTimeout

/-- What a `Campaign` does with the reply to its look-up. -/
def afterProbe (internalTimeout : Bool) : ProbeReply → CampaignPhase
  | .own => .won
  | .other => if internalTimeout then .attempting else .ending
  | .failed => .marking

/-- A `Campaign` that has begun. -/
structure Campaign where
  number : ℕ
  phase : CampaignPhase
  deriving DecidableEq, Repr

/-- Where a `Resign` is. -/
inductive ResignPhase where
  | cancelling
  | waiting
  | deleting
  | finishing (resolved : Bool)
  deriving DecidableEq, Repr

/-- The delete is still to come. -/
def ResignPhase.pending : ResignPhase → Bool
  | .cancelling | .waiting | .deleting => true
  | .finishing _ => false

/-- A `Resign` that found something to resign. -/
structure Resign where
  number : ℕ
  /-- `generation`, as captured. -/
  generation : ℕ
  /-- `cancel` and `done`, as captured. -/
  done : Option ℕ
  phase : ResignPhase
  deriving DecidableEq, Repr

/-- Where a renewal worker is. -/
inductive WorkerPhase where
  | running
  /-- About to call `clearOwnershipAfterLoss`. -/
  | losing (cleanup : Bool)
  /-- Returned; `done` is closed. -/
  | returned
  deriving DecidableEq, Repr

/-- A renewal worker, with its generation and the state of its context. -/
structure Worker where
  generation : ℕ
  cancelled : Bool
  phase : WorkerPhase
  deriving DecidableEq, Repr

/-- **An elector**: its flags, the calls under way and the workers. -/
structure Elector where
  flags : Flags
  campaigns : List Campaign
  resigns : List Resign
  workers : List Worker
  /-- How many calls have started. -/
  starts : ℕ
  /-- The resigns, by number, whose calls have returned with the delete on its way. -/
  late : List ℕ
  deriving DecidableEq, Repr

/-- A new elector. -/
def Elector.new : Elector where
  flags := ⟨false, false, false, 0, false, 0, none⟩
  campaigns := []
  resigns := []
  workers := []
  starts := 0
  late := []

/-- The worker that a `Resign` waits for has returned, if there is one. -/
def Elector.joinable (e : Elector) (done : Option ℕ) : Bool :=
  match done with
  | none => true
  | some w => (e.workers[w]?).all fun k => decide (k.phase = .returned)

/-- `cancel`, if there is a worker. -/
def Elector.cancelWorker (e : Elector) (done : Option ℕ) : List Worker :=
  match done with
  | none => e.workers
  | some w => e.workers.modify w fun k => { k with cancelled := true }

/-! ### Steps -/

/-- A step of the elector. A call is named by its position among those under way, and a
worker by its position among all. -/
inductive Action where
  /-- A `Campaign` begins. -/
  | beginCampaign
  | acquired (n : ℕ) (reply : AcquireReply)
  | probed (n : ℕ) (reply : ProbeReply)
  /-- The context of a campaign ends while it sleeps between two attempts. -/
  | abandon (n : ℕ)
  | startRenewal (n : ℕ)
  | markCleanupPending (n : ℕ)
  | endCampaign (n : ℕ)
  /-- A `Resign` starts. -/
  | clearOwnership
  | cancel (m : ℕ)
  | join (m : ℕ)
  | giveUp (m : ℕ)
  | deleted (m : ℕ) (ok : Bool)
  /-- A `Resign` gives up on its delete, which is on its way. -/
  | outlived (m : ℕ)
  /-- The delete of a `Resign` that gave up on it is executed. -/
  | landed (j : ℕ)
  | finishResign (m : ℕ)
  | renewed (w : ℕ) (reply : RenewReply)
  | lose (w : ℕ)
  | quit (w : ℕ)
  deriving DecidableEq, Repr

/-- A step of the elector that is not a reply of the server. -/
def Action.isLocal : Action → Bool
  | .acquired _ _ | .probed _ _ | .deleted _ _ | .outlived _ | .landed _ | .renewed _ _ => false
  | _ => true

/-- What a `Resign` does with the outcome of its delete. -/
def afterDelete (m : ℕ) : Fault → Action
  | .none => .deleted m true
  | .lost | .dropped => .deleted m false
  | .late => .outlived m

/-- A campaign moves on. -/
def Elector.setCampaign (e : Elector) (n : ℕ) (k : Campaign) (phase : CampaignPhase) : Elector :=
  { e with campaigns := e.campaigns.set n { k with phase := phase } }

/-- A resign moves on. -/
def Elector.setResign (e : Elector) (m : ℕ) (r : Resign) (phase : ResignPhase) : Elector :=
  { e with resigns := e.resigns.set m { r with phase := phase } }

/-- A worker moves on. -/
def Elector.setWorker (e : Elector) (w : ℕ) (k : Worker) (phase : WorkerPhase) : Elector :=
  { e with workers := e.workers.set w { k with phase := phase } }

/-- What a worker does with the reply to a renewal. -/
def afterRenew : RenewReply → WorkerPhase
  | .renewed => .running
  | .notOwner => .losing false
  | .failed => .losing true

/-- **One step of an elector.** -/
def Elector.step (b : Backend) (e : Elector) : Action → Option Elector
  | .beginCampaign =>
    match e.flags.beginCampaign with
    | .error _ => none
    | .ok f => some { e with
        flags := f
        campaigns := e.campaigns ++ [⟨e.starts, .attempting⟩]
        starts := e.starts + 1 }
  | .acquired n reply =>
    match e.campaigns[n]? with
    | some ⟨number, .attempting⟩ =>
      some (e.setCampaign n ⟨number, .attempting⟩ (afterAcquire b reply))
    | _ => none
  | .probed n reply =>
    match e.campaigns[n]? with
    | some ⟨number, .reconciling t⟩ =>
      some (e.setCampaign n ⟨number, .reconciling t⟩ (afterProbe t reply))
    | _ => none
  | .abandon n =>
    match e.campaigns[n]? with
    | some ⟨number, .attempting⟩ => some (e.setCampaign n ⟨number, .attempting⟩ .ending)
    | _ => none
  | .startRenewal n =>
    match e.campaigns[n]? with
    | some ⟨number, .won⟩ => some { e.setCampaign n ⟨number, .won⟩ .ending with
        flags := e.flags.startRenewal e.workers.length
        workers := e.workers ++ [⟨e.flags.generation + 1, false, .running⟩] }
    | _ => none
  | .markCleanupPending n =>
    match e.campaigns[n]? with
    | some ⟨number, .marking⟩ => some { e.setCampaign n ⟨number, .marking⟩ .ending with
        flags := e.flags.markCleanupPending b }
    | _ => none
  | .endCampaign n =>
    match e.campaigns[n]? with
    | some ⟨_, .ending⟩ => some { e with
        flags := e.flags.endCampaign
        campaigns := e.campaigns.eraseIdx n }
    | _ => none
  | .clearOwnership =>
    match e.flags.clearOwnership b with
    | none => none
    | some f => some { e with
        flags := f
        resigns := e.resigns ++ [⟨e.starts, e.flags.generation, e.flags.done, .cancelling⟩]
        starts := e.starts + 1 }
  | .cancel m =>
    match e.resigns[m]? with
    | some ⟨number, g, done, .cancelling⟩ =>
      some { e.setResign m ⟨number, g, done, .cancelling⟩ .waiting with
        workers := e.cancelWorker done }
    | _ => none
  | .join m =>
    match e.resigns[m]? with
    | some ⟨number, g, done, .waiting⟩ =>
      if e.joinable done then some (e.setResign m ⟨number, g, done, .waiting⟩ .deleting) else none
    | _ => none
  | .giveUp m =>
    match e.resigns[m]? with
    | some ⟨number, g, some w, .waiting⟩ =>
      some (e.setResign m ⟨number, g, some w, .waiting⟩ (.finishing false))
    | _ => none
  | .deleted m ok =>
    match e.resigns[m]? with
    | some ⟨number, g, done, .deleting⟩ =>
      some (e.setResign m ⟨number, g, done, .deleting⟩ (.finishing ok))
    | _ => none
  | .outlived m =>
    match e.resigns[m]? with
    | some ⟨number, g, done, .deleting⟩ =>
      some { e.setResign m ⟨number, g, done, .deleting⟩ (.finishing false) with
        late := e.late ++ [number] }
    | _ => none
  | .landed j => if j < e.late.length then some { e with late := e.late.eraseIdx j } else none
  | .finishResign m =>
    match e.resigns[m]? with
    | some ⟨_, g, _, .finishing resolved⟩ => some { e with
        flags := e.flags.finishResign b g resolved
        resigns := e.resigns.eraseIdx m }
    | _ => none
  | .renewed w reply =>
    match e.workers[w]? with
    | some ⟨g, cancelled, .running⟩ =>
      some (e.setWorker w ⟨g, cancelled, .running⟩ (afterRenew reply))
    | _ => none
  | .lose w =>
    match e.workers[w]? with
    | some ⟨g, cancelled, .losing cleanup⟩ =>
      some { e.setWorker w ⟨g, cancelled, .losing cleanup⟩ .returned with
        flags := e.flags.clearOwnershipAfterLoss b g w cleanup }
    | _ => none
  | .quit w =>
    match e.workers[w]? with
    | some ⟨g, true, .running⟩ => some (e.setWorker w ⟨g, true, .running⟩ .returned)
    | _ => none

/-! ### What the sections do -/

namespace Flags

variable {b : Backend} {f f' : Flags}

/-- `beginCampaign` lets a campaign in when no flag is up. -/
theorem beginCampaign_eq_ok (h : f.beginCampaign = .ok f') :
    f.cleanup = false ∧ f.owned = false ∧ f.campaigning = false ∧
      f' = { f with campaigning := true } := by
  unfold beginCampaign at h
  split_ifs at h with hcleanup howned hcampaigning
  exact ⟨Bool.eq_false_iff.mpr hcleanup, Bool.eq_false_iff.mpr howned,
    Bool.eq_false_iff.mpr hcampaigning, (Except.ok.inj h).symm⟩

/-- `clearOwnership` finds something to resign, and marks it. -/
theorem clearOwnership_eq_some (h : f.clearOwnership b = some f') :
    (f.owned = true ∨ f.cleanup = true) ∧ f'.owned = false ∧ f'.cleanup = true ∧
      f'.campaigning = f.campaigning ∧ f'.generation = f.generation ∧
      (b = .postgres → f'.resigning = f.resigning + 1) := by
  unfold clearOwnership at h
  split_ifs at h with hactive
  rw [Bool.or_eq_true] at hactive
  cases b <;> cases h <;> exact ⟨hactive, rfl, rfl, rfl, rfl, by simp⟩

/-- `finishResign` clears `cleanup` and `done` together, or neither. -/
theorem finishResign_spec (b : Backend) (f : Flags) (generation : ℕ) (resolved : Bool) :
    (f.finishResign b generation resolved).owned = f.owned ∧
    (f.finishResign b generation resolved).campaigning = f.campaigning ∧
    (f.finishResign b generation resolved).generation = f.generation ∧
    ((f.finishResign b generation resolved).cleanup = f.cleanup ∧
        (f.finishResign b generation resolved).done = f.done ∨
      (f.finishResign b generation resolved).cleanup = false ∧
        (f.finishResign b generation resolved).done = none) := by
  cases b <;> simp only [finishResign] <;> split_ifs <;> simp

/-- `clearOwnershipAfterLoss` acts only for the current worker. -/
theorem clearOwnershipAfterLoss_spec (b : Backend) (f : Flags) (generation w : ℕ)
    (cleanup : Bool) :
    f.clearOwnershipAfterLoss b generation w cleanup = f ∨
    f.done = some w ∧ (f.clearOwnershipAfterLoss b generation w cleanup).owned = false ∧
    (f.clearOwnershipAfterLoss b generation w cleanup).campaigning = f.campaigning ∧
    ((f.clearOwnershipAfterLoss b generation w cleanup).cleanup = true ∨
      (f.clearOwnershipAfterLoss b generation w cleanup).done = none) := by
  unfold clearOwnershipAfterLoss
  split_ifs with hstale
  · exact .inl rfl
  · have hdone : f.done = some w := by
      by_contra hne
      exact hstale (.inr hne)
    refine .inr ⟨hdone, ?_⟩
    cases b with
    | redis | mongo => exact ⟨rfl, rfl, .inr rfl⟩
    | postgres =>
      by_cases hzero : f.resigning = 0
      · simp [hzero]
      · have hpos : 0 < f.resigning := Nat.pos_of_ne_zero hzero
        simp [hzero, hpos]

/-- `markCleanupPending` leaves the campaign flag alone. -/
theorem markCleanupPending_spec (b : Backend) (f : Flags) :
    (f.markCleanupPending b).cleanup = true ∧
    (f.markCleanupPending b).campaigning = f.campaigning ∧
    (f.owned = false → (f.markCleanupPending b).owned = false) ∧
    (f.markCleanupPending b).generation = f.generation ∧
    (f.markCleanupPending b).resigning = f.resigning := by
  cases b <;> exact ⟨rfl, rfl, fun h => by first | exact h | rfl, rfl, rfl⟩

/-- A resign of the current generation takes itself off the counter, and only the last one
may clear `cleanup`. -/
theorem finishResign_postgres (hpos : 0 < f.resigning) (resolved : Bool) :
    (f.finishResign .postgres f.generation resolved).resigning = f.resigning - 1 ∧
    (f.resigning - 1 ≠ 0 →
      (f.finishResign .postgres f.generation resolved).cleanup = f.cleanup) := by
  have hcurrent : ¬(f.generation ≠ f.generation ∨ f.resigning = 0) := by omega
  simp only [finishResign, if_neg hcurrent]
  split_ifs with hlast
  · rw [Bool.and_eq_true, decide_eq_true_eq] at hlast
    exact ⟨rfl, fun hne => absurd hlast.1 hne⟩
  · exact ⟨rfl, fun _ => rfl⟩

/-- A loss leaves the counter alone, and `cleanup` up while there are resigns. -/
theorem clearOwnershipAfterLoss_postgres (f : Flags) (generation w : ℕ) (cleanup : Bool) :
    (f.clearOwnershipAfterLoss .postgres generation w cleanup).resigning = f.resigning ∧
    (f.clearOwnershipAfterLoss .postgres generation w cleanup).generation = f.generation ∧
    (0 < f.resigning → f.cleanup = true →
      (f.clearOwnershipAfterLoss .postgres generation w cleanup).cleanup = true) := by
  simp only [clearOwnershipAfterLoss]
  split_ifs with hstale hzero
  · exact ⟨rfl, rfl, fun _ h => h⟩
  · exact ⟨rfl, rfl, fun hpos => absurd hzero hpos.ne'⟩
  · exact ⟨rfl, rfl, fun hpos _ => by simp [hpos]⟩

end Flags

theorem afterAcquire_eq_won {b : Backend} {reply : AcquireReply}
    (h : afterAcquire b reply = .won) : reply = .granted := by
  cases reply with
  | granted => rfl
  | denied => exact nomatch h
  | failed t => cases b <;> exact nomatch h

theorem afterProbe_eq_won {t : Bool} {reply : ProbeReply} (h : afterProbe t reply = .won) :
    reply = .own := by
  cases reply with
  | own => rfl
  | other => cases t <;> exact nomatch h
  | failed => exact nomatch h

namespace Elector

variable {b : Backend} {e e' : Elector} {a : Action}

/-- **What a step can do.** The steps of a resign up to its delete, and those of a
worker that leave the flags alone, are each one case. -/
inductive Move (b : Backend) (e : Elector) : Action → Elector → Prop
  | beginCampaign {f : Flags} : e.flags.beginCampaign = .ok f →
      Move b e .beginCampaign { e with
        flags := f
        campaigns := e.campaigns ++ [⟨e.starts, .attempting⟩]
        starts := e.starts + 1 }
  | campaign {a : Action} {n : ℕ} {k : Campaign} {phase : CampaignPhase} :
      e.campaigns[n]? = some k → k.phase.seeking = true →
      (phase = .won → a = .acquired n .granted ∨ a = .probed n .own) →
      Move b e a (e.setCampaign n k phase)
  | startRenewal {n : ℕ} {k : Campaign} : e.campaigns[n]? = some k → k.phase = .won →
      Move b e (.startRenewal n) { e.setCampaign n k .ending with
        flags := e.flags.startRenewal e.workers.length
        workers := e.workers ++ [⟨e.flags.generation + 1, false, .running⟩] }
  | markCleanupPending {n : ℕ} {k : Campaign} : e.campaigns[n]? = some k → k.phase = .marking →
      Move b e (.markCleanupPending n) { e.setCampaign n k .ending with
        flags := e.flags.markCleanupPending b }
  | endCampaign {n : ℕ} {k : Campaign} : e.campaigns[n]? = some k →
      Move b e (.endCampaign n) { e with
        flags := e.flags.endCampaign
        campaigns := e.campaigns.eraseIdx n }
  | clearOwnership {f : Flags} : e.flags.clearOwnership b = some f →
      Move b e .clearOwnership { e with
        flags := f
        resigns := e.resigns ++ [⟨e.starts, e.flags.generation, e.flags.done, .cancelling⟩]
        starts := e.starts + 1 }
  | resign {a : Action} {m : ℕ} {r : Resign} {phase : ResignPhase} {workers : List Worker} :
      e.resigns[m]? = some r → r.phase.pending = true → a ≠ .clearOwnership →
      Move b e a { e.setResign m r phase with workers := workers }
  | outlived {m : ℕ} {r : Resign} : e.resigns[m]? = some r → r.phase = .deleting →
      Move b e (.outlived m) { e.setResign m r (.finishing false) with
        late := e.late ++ [r.number] }
  | landed {j : ℕ} : Move b e (.landed j) { e with late := e.late.eraseIdx j }
  | finishResign {m : ℕ} {r : Resign} {resolved : Bool} : e.resigns[m]? = some r →
      Move b e (.finishResign m) { e with
        flags := e.flags.finishResign b r.generation resolved
        resigns := e.resigns.eraseIdx m }
  | worker {a : Action} {workers : List Worker} : Move b e a { e with workers := workers }
  | lose {w g : ℕ} {cleanup : Bool} {workers : List Worker} :
      Move b e (.lose w) { e with
        flags := e.flags.clearOwnershipAfterLoss b g w cleanup
        workers := workers }

/-- **A step, inverted.** -/
theorem move_of_step (hs : e.step b a = some e') : Move b e a e' := by
  cases a with
  | beginCampaign =>
    simp only [step] at hs
    split at hs <;> cases hs
    next hf => exact .beginCampaign hf
  | acquired =>
    simp only [step] at hs
    split at hs <;> cases hs
    next hk =>
      refine .campaign hk rfl fun hwon => .inl ?_
      rw [afterAcquire_eq_won hwon]
  | probed =>
    simp only [step] at hs
    split at hs <;> cases hs
    next hk =>
      refine .campaign hk rfl fun hwon => .inr ?_
      rw [afterProbe_eq_won hwon]
  | abandon =>
    simp only [step] at hs
    split at hs <;> cases hs
    next hk => exact .campaign hk rfl nofun
  | startRenewal =>
    simp only [step] at hs
    split at hs <;> cases hs
    next hk => exact .startRenewal hk rfl
  | markCleanupPending =>
    simp only [step] at hs
    split at hs <;> cases hs
    next hk => exact .markCleanupPending hk rfl
  | endCampaign =>
    simp only [step] at hs
    split at hs <;> cases hs
    next hk => exact .endCampaign hk
  | clearOwnership =>
    simp only [step] at hs
    split at hs <;> cases hs
    next hf => exact .clearOwnership hf
  | cancel =>
    simp only [step] at hs
    split at hs <;> cases hs
    next hr => exact .resign hr rfl nofun
  | join =>
    simp only [step] at hs
    split at hs
    · next hr =>
      split_ifs at hs
      cases hs
      exact .resign hr rfl nofun
    · cases hs
  | giveUp =>
    simp only [step] at hs
    split at hs <;> cases hs
    next hr => exact .resign hr rfl nofun
  | deleted =>
    simp only [step] at hs
    split at hs <;> cases hs
    next hr => exact .resign hr rfl nofun
  | outlived =>
    simp only [step] at hs
    split at hs <;> cases hs
    next hr => exact .outlived hr rfl
  | landed =>
    simp only [step] at hs
    split_ifs at hs
    cases hs
    exact .landed
  | finishResign =>
    simp only [step] at hs
    split at hs <;> cases hs
    next hr => exact .finishResign hr
  | renewed =>
    simp only [step] at hs
    split at hs <;> cases hs
    exact .worker
  | lose =>
    simp only [step] at hs
    split at hs <;> cases hs
    exact .lose
  | quit =>
    simp only [step] at hs
    split at hs <;> cases hs
    exact .worker

/-! ### The campaign under way -/

/-- **The invariant of an elector.** At most one campaign is under way; while it is
seeking, the elector is neither owned nor unclean, and then it has no worker either. -/
structure Inv (e : Elector) : Prop where
  campaigns_le : e.campaigns.length ≤ 1
  campaigning : e.campaigns ≠ [] → e.flags.campaigning = true
  seeking : ∀ k ∈ e.campaigns, k.phase.seeking = true →
    e.flags.owned = false ∧ e.flags.cleanup = false
  idle : e.flags.owned = false → e.flags.cleanup = false → e.flags.done = none
  clean : e.flags.owned = true → e.flags.cleanup = false
  campaign_lt : ∀ k ∈ e.campaigns, k.number < e.starts

theorem inv_new : Inv new where
  campaigns_le := Nat.zero_le 1
  campaigning h := absurd rfl h
  seeking _ h := nomatch h
  idle _ _ := rfl
  clean h := nomatch h
  campaign_lt _ h := nomatch h

variable {k : Campaign} {n : ℕ}

section

variable (hI : Inv e) (hk : e.campaigns[n]? = some k)
include hI hk

theorem Inv.campaigns_eq : e.campaigns = [k] ∧ n = 0 := by
  have hle := hI.campaigns_le
  rcases hc : e.campaigns with _ | ⟨k', _ | ⟨k'', rest⟩⟩
  · rw [hc] at hk
    exact nomatch hk
  · rw [hc] at hk
    rcases n with _ | n
    · exact ⟨by simpa using hk, rfl⟩
    · exact nomatch hk
  · rw [hc] at hle
    exact nomatch hle

theorem Inv.setCampaign_campaigns (phase : CampaignPhase) :
    (e.setCampaign n k phase).campaigns = [{ k with phase := phase }] := by
  obtain ⟨hc, rfl⟩ := hI.campaigns_eq hk
  rw [setCampaign, hc]
  rfl

theorem Inv.setCampaign_number_lt (phase : CampaignPhase) :
    ∀ k' ∈ (e.setCampaign n k phase).campaigns, k'.number < e.starts := by
  intro k' hk'
  rw [hI.setCampaign_campaigns hk phase, mem_singleton] at hk'
  rw [hk']
  exact hI.campaign_lt k (mem_of_getElem? hk)

/-- **A campaign moves on**, perhaps with the flags: they stay `campaigning`, and what else
they say fits together and fits the campaign. -/
theorem Inv.setCampaign {phase : CampaignPhase} {flags : Flags} {workers : List Worker}
    (hcampaigning : flags.campaigning = e.flags.campaigning)
    (hseek : phase.seeking = true → flags.owned = false ∧ flags.cleanup = false)
    (hidle : flags.owned = false → flags.cleanup = false → flags.done = none)
    (hclean : flags.owned = true → flags.cleanup = false) :
    Inv { e.setCampaign n k phase with flags := flags, workers := workers } := by
  have hset := hI.setCampaign_campaigns hk phase
  refine ⟨?_, fun _ => ?_, fun k' hk' => ?_, hidle, hclean, hI.setCampaign_number_lt hk phase⟩
  · simp [hset]
  · exact hcampaigning.trans (hI.campaigning (ne_nil_of_mem (mem_of_getElem? hk)))
  · rw [hset, mem_singleton] at hk'
    rw [hk']
    exact hseek

end

/-- **The flags change under the campaigns**: what the flags say then fits together and fits a
campaign that is seeking. Resigns and workers do not matter. -/
theorem Inv.setFlags (hI : Inv e) {flags : Flags} {workers : List Worker} {resigns : List Resign}
    {late : List ℕ}
    (hcampaigning : flags.campaigning = e.flags.campaigning)
    (hseek : e.flags.owned = false → e.flags.cleanup = false →
      flags.owned = false ∧ flags.cleanup = false)
    (hidle : flags.owned = false → flags.cleanup = false → flags.done = none)
    (hclean : flags.owned = true → flags.cleanup = false) :
    Inv { e with flags := flags, resigns := resigns, workers := workers, late := late } := by
  refine ⟨hI.campaigns_le, fun h => hcampaigning.trans (hI.campaigning h), fun k hk hk' => ?_,
    hidle, hclean, hI.campaign_lt⟩
  obtain ⟨ho, hc⟩ := hI.seeking k hk hk'
  exact hseek ho hc

/-- **Every step keeps the invariant.** -/
theorem inv_step (hI : Inv e) (hs : e.step b a = some e') : Inv e' := by
  have hm := move_of_step hs
  cases hm with
  | @beginCampaign f hf =>
    obtain ⟨hcleanup, howned, hcampaigning, rfl⟩ := Flags.beginCampaign_eq_ok hf
    have hnone : e.campaigns = [] := by
      by_contra hne
      exact nomatch (hI.campaigning hne).symm.trans hcampaigning
    constructor
    · simp [hnone]
    · exact fun _ => rfl
    · exact fun _ _ _ => ⟨howned, hcleanup⟩
    · exact hI.idle
    · exact hI.clean
    · simp [hnone]
  | campaign hk hseek _ =>
    have hfree := hI.seeking _ (mem_of_getElem? hk) hseek
    exact hI.setCampaign hk rfl (fun _ => hfree) hI.idle hI.clean
  | startRenewal hk hwon =>
    refine hI.setCampaign hk rfl nofun (fun h => ?_) fun _ => rfl
    exact nomatch h
  | @markCleanupPending n k hk hmark =>
    obtain ⟨hcleanup, hcampaigning, howned, -⟩ := e.flags.markCleanupPending_spec b
    have hfree := hI.seeking k (mem_of_getElem? hk) (hmark ▸ rfl)
    refine hI.setCampaign hk hcampaigning nofun (fun _ h => ?_) fun h => ?_
    · exact nomatch hcleanup.symm.trans h
    · exact nomatch (howned hfree.1).symm.trans h
  | @endCampaign n k hk =>
    obtain ⟨hc, rfl⟩ := hI.campaigns_eq hk
    have hnone : e.campaigns.eraseIdx 0 = [] := by rw [hc]; rfl
    refine ⟨?_, ?_, ?_, hI.idle, hI.clean, ?_⟩
    · simp [hnone]
    · exact fun h => absurd hnone h
    · simp [hnone]
    · simp [hnone]
  | @clearOwnership f hf =>
    obtain ⟨hactive, howned, hcleanup, hcampaigning, -, -⟩ := Flags.clearOwnership_eq_some hf
    refine ⟨hI.campaigns_le, ?_, ?_, ?_, ?_, ?_⟩
    · exact fun h => hcampaigning.trans (hI.campaigning h)
    · -- a seeking campaign leaves nothing to resign
      intro k hk hseek
      obtain ⟨ho, hc⟩ := hI.seeking k hk hseek
      rw [ho, hc] at hactive
      exact nomatch hactive
    · exact fun _ h => nomatch hcleanup.symm.trans h
    · exact fun h => nomatch howned.symm.trans h
    · exact fun k hk => Nat.lt_succ_of_lt (hI.campaign_lt k hk)
  | @finishResign m r resolved hr =>
    obtain ⟨howned, hcampaigning, -, hboth⟩ := e.flags.finishResign_spec b r.generation resolved
    refine hI.setFlags hcampaigning (fun ho hc => ⟨howned.trans ho, ?_⟩) (fun ho hc => ?_)
      fun ho => ?_
    · exact hboth.elim (fun h => h.1.trans hc) And.left
    · rcases hboth with ⟨hsame, hdone⟩ | ⟨-, hdone⟩
      · exact hdone.trans (hI.idle (howned.symm.trans ho) (hsame.symm.trans hc))
      · exact hdone
    · exact hboth.elim (fun h => h.1.trans (hI.clean (howned.symm.trans ho))) And.left
  | resign | outlived | landed | worker =>
    exact hI.setFlags rfl (fun ho hc => ⟨ho, hc⟩) hI.idle hI.clean
  | @lose w g cleanup workers =>
    rcases e.flags.clearOwnershipAfterLoss_spec b g w cleanup with hsame |
      ⟨hdone, howned, hcampaigning, hboth⟩
    · rw [hsame]
      exact hI.setFlags rfl (fun ho hc => ⟨ho, hc⟩) hI.idle hI.clean
    · refine hI.setFlags hcampaigning (fun ho hc => ?_) (fun _ hc => ?_) fun h => ?_
      · -- under a seeking campaign there is no worker to act
        rw [hI.idle ho hc] at hdone
        cases hdone
      · rcases hboth with htrue | hnone
        · exact nomatch htrue.symm.trans hc
        · exact hnone
      · exact nomatch howned.symm.trans h

/-! ### Campaigns and resigns apart -/

/-- The resign of the given number is **pending**: its delete is still to come, from a call
that is under way or from one that has returned. -/
def Pending (e : Elector) (number : ℕ) : Prop :=
  (∃ r ∈ e.resigns, r.phase.pending = true ∧ r.number = number) ∨ number ∈ e.late

/-- A campaign **overtakes** a resign: it begins while the resign's delete is still to
come. -/
def Overtakes (e : Elector) (a : Action) : Prop :=
  a = .beginCampaign ∧ ((∃ r ∈ e.resigns, r.phase.pending = true) ∨ e.late ≠ [])
  deriving Decidable

theorem Pending.overtakes {number : ℕ} (h : e.Pending number) : e.Overtakes .beginCampaign := by
  rcases h with ⟨r, hr, hp, -⟩ | hlate
  · exact ⟨rfl, .inl ⟨r, hr, hp⟩⟩
  · exact ⟨rfl, .inr (ne_nil_of_mem hlate)⟩

/-- **A resign becomes pending when it starts**, and at no other time. -/
theorem pending_of_step (hs : e.step b a = some e') {number : ℕ} (h : e'.Pending number) :
    e.Pending number ∨ a = .clearOwnership ∧ number = e.starts := by
  have hm := move_of_step hs
  cases hm with
  | clearOwnership =>
    rcases h with ⟨r, hr, hp, rfl⟩ | hlate
    · rcases mem_concat hr with hold | rfl
      · exact .inl (.inl ⟨r, hold, hp, rfl⟩)
      · exact .inr ⟨rfl, rfl⟩
    · exact .inl (.inr hlate)
  | resign hr hpending =>
    rcases h with ⟨r', hr', hp, rfl⟩ | hlate
    · rcases mem_or_eq_of_mem_set hr' with hold | rfl
      · exact .inl (.inl ⟨r', hold, hp, rfl⟩)
      · exact .inl (.inl ⟨_, mem_of_getElem? hr, hpending, rfl⟩)
    · exact .inl (.inr hlate)
  | outlived hr hdeleting =>
    -- its delete has been pending all along
    have hwas := mem_of_getElem? hr
    rcases h with ⟨r', hr', hp, rfl⟩ | hlate
    · rcases mem_or_eq_of_mem_set hr' with hold | rfl
      · exact .inl (.inl ⟨r', hold, hp, rfl⟩)
      · cases hp
    · rcases mem_concat hlate with hold | rfl
      · exact .inl (.inr hold)
      · exact .inl (.inl ⟨_, hwas, hdeleting ▸ rfl, rfl⟩)
  | finishResign =>
    rcases h with ⟨r, hr, hp, rfl⟩ | hlate
    · exact .inl (.inl ⟨r, mem_of_mem_eraseIdx hr, hp, rfl⟩)
    · exact .inl (.inr hlate)
  | landed => exact .inl (h.imp_right mem_of_mem_eraseIdx)
  | beginCampaign | campaign | startRenewal | markCleanupPending | endCampaign | worker | lose =>
    exact .inl h

/-- **Campaigns and resigns do not meet**: while a resign is pending the elector is not
owned and no campaign is seeking, and every campaign under way started before it. -/
structure Apart (e : Elector) : Prop where
  owned : ∀ r, e.Pending r → e.flags.owned = false
  seeking : ∀ r, e.Pending r → ∀ k ∈ e.campaigns, k.phase.seeking = false ∧ k.number < r

theorem not_pending_new (r : ℕ) : ¬Pending new r := by
  rintro (⟨_, h, -⟩ | h)
  · exact nomatch h
  · exact nomatch h

theorem apart_new : Apart new where
  owned r h := absurd h (not_pending_new r)
  seeking r h := absurd h (not_pending_new r)

theorem Apart.not_pending (hA : Apart e) (hk : k ∈ e.campaigns) (hseek : k.phase.seeking = true) :
    ∀ r, ¬e.Pending r := by
  intro r hpending
  exact nomatch (hA.seeking r hpending k hk).1.symm.trans hseek

/-- **A step that does not overtake keeps campaigns and resigns apart.** -/
theorem apart_step (hI : Inv e) (hA : Apart e) (hs : e.step b a = some e')
    (hover : ¬Overtakes e a) : Apart e' := by
  have hm := move_of_step hs
  have hwas : a ≠ .clearOwnership → ∀ r, e'.Pending r → e.Pending r := fun hne r hp =>
    (pending_of_step hs hp).resolve_right fun hnew => hne hnew.1
  -- a step of a campaign that is seeking, or begins to, finds no resign
  have hnone : (∀ r, ¬e.Pending r) → a ≠ .clearOwnership → Apart e' := fun hno hne =>
    ⟨fun r hp => absurd (hwas hne r hp) (hno r), fun r hp => absurd (hwas hne r hp) (hno r)⟩
  cases hm with
  | beginCampaign => exact hnone (fun r hp => hover hp.overtakes) nofun
  | campaign hk hseek hwon =>
    have hno := hA.not_pending (mem_of_getElem? hk) hseek
    exact ⟨fun r hp => absurd hp (hno r), fun r hp => absurd hp (hno r)⟩
  | startRenewal hk hwon => exact hnone (hA.not_pending (mem_of_getElem? hk) (hwon ▸ rfl)) nofun
  | markCleanupPending hk hmark =>
    exact hnone (hA.not_pending (mem_of_getElem? hk) (hmark ▸ rfl)) nofun
  | endCampaign =>
    exact ⟨hA.owned, fun r hp k hk => hA.seeking r hp k (mem_of_mem_eraseIdx hk)⟩
  | clearOwnership hf =>
    obtain ⟨hactive, howned, -⟩ := Flags.clearOwnership_eq_some hf
    refine ⟨fun _ _ => howned, fun r hp k hk => ?_⟩
    rcases pending_of_step hs hp with hold | ⟨-, rfl⟩
    · exact hA.seeking r hold k hk
    · refine ⟨Bool.eq_false_iff.mpr fun hseek => ?_, hI.campaign_lt k hk⟩
      obtain ⟨ho, hc⟩ := hI.seeking k hk hseek
      rw [ho, hc] at hactive
      exact nomatch hactive
  | resign _ _ hne =>
    exact ⟨fun r hp => hA.owned r (hwas hne r hp), fun r hp => hA.seeking r (hwas hne r hp)⟩
  | outlived | landed =>
    exact ⟨fun r hp => hA.owned r (hwas nofun r hp), fun r hp => hA.seeking r (hwas nofun r hp)⟩
  | finishResign =>
    refine ⟨fun r hp => ?_, fun r hp => hA.seeking r (hwas nofun r hp)⟩
    exact (e.flags.finishResign_spec b _ _).1.trans (hA.owned r (hwas nofun r hp))
  | worker => exact ⟨hA.owned, hA.seeking⟩
  | @lose w g cleanup workers =>
    refine ⟨fun r hp => ?_, hA.seeking⟩
    rcases e.flags.clearOwnershipAfterLoss_spec b g w cleanup with hsame | ⟨-, howned, -⟩
    · rw [hsame]
      exact hA.owned r hp
    · exact howned

/-! ### The counter of the PostgreSQL elector -/

/-- **The counter counts**: `resigning` is the number of resigns under way, all of the
current generation, and `cleanup` is up while there is one. -/
structure Counted (e : Elector) : Prop where
  resigning : e.flags.resigning = e.resigns.length
  generation : ∀ r ∈ e.resigns, r.generation = e.flags.generation
  cleanup : e.resigns ≠ [] → e.flags.cleanup = true

theorem counted_new : Counted new where
  resigning := rfl
  generation _ h := nomatch h
  cleanup h := absurd rfl h

/-- **With the counter, no campaign overtakes a resign that is under way**, but only a delete
that is on its way. -/
theorem late_of_overtakes (hC : Counted e) (hs : e.step b a = some e') (h : Overtakes e a) :
    e.late ≠ [] := by
  rcases h with ⟨rfl, ⟨r, hr, -⟩ | hlate⟩
  case inr => exact hlate
  simp only [step] at hs
  split at hs
  next => cases hs
  next f hf =>
    obtain ⟨hcleanup, -⟩ := Flags.beginCampaign_eq_ok hf
    exact nomatch (hC.cleanup (ne_nil_of_mem hr)).symm.trans hcleanup

/-- **Every step of a PostgreSQL elector keeps the count.** -/
theorem counted_step (hI : Inv e) (hC : Counted e) (hs : e.step .postgres a = some e') :
    Counted e' := by
  have hm := move_of_step hs
  cases hm with
  | beginCampaign hf =>
    obtain ⟨-, -, -, rfl⟩ := Flags.beginCampaign_eq_ok hf
    exact ⟨hC.resigning, hC.generation, hC.cleanup⟩
  | campaign | endCampaign | worker | landed => exact ⟨hC.resigning, hC.generation, hC.cleanup⟩
  | startRenewal hk hwon =>
    -- a seeking campaign has no resign beside it, pending or not
    have hfree := hI.seeking _ (mem_of_getElem? hk) (hwon ▸ rfl)
    have hnone : e.resigns = [] := by
      by_contra hne
      exact nomatch (hC.cleanup hne).symm.trans hfree.2
    exact ⟨hC.resigning, fun r hr => absurd hr (by simp [setCampaign, hnone]),
      fun h => absurd hnone h⟩
  | markCleanupPending =>
    obtain ⟨hcleanup, -, -, hgeneration, hresigning⟩ := e.flags.markCleanupPending_spec .postgres
    exact ⟨hresigning.trans hC.resigning, fun r hr => (hC.generation r hr).trans hgeneration.symm,
      fun _ => hcleanup⟩
  | clearOwnership hf =>
    obtain ⟨-, -, hcleanup, -, hgeneration, hresigning⟩ := Flags.clearOwnership_eq_some hf
    refine ⟨?_, forall_mem_concat (fun r hr => ?_) hgeneration.symm, fun _ => hcleanup⟩
    · rw [length_append, length_singleton, ← hC.resigning]
      exact hresigning rfl
    · exact (hC.generation r hr).trans hgeneration.symm
  | resign hr | outlived hr =>
    have hmem := mem_of_getElem? hr
    have hsame := hC.generation _ hmem
    exact ⟨hC.resigning.trans length_set.symm, forall_mem_set hC.generation hsame,
      fun _ => hC.cleanup (ne_nil_of_mem hmem)⟩
  | @finishResign m r resolved hr =>
    have hlt : m < e.resigns.length := (List.getElem?_eq_some_iff.mp hr).1
    have hpos : 0 < e.flags.resigning := by rw [hC.resigning]; omega
    rw [hC.generation r (mem_of_getElem? hr)]
    obtain ⟨hresigning, hcleanup⟩ := Flags.finishResign_postgres hpos resolved
    have hlen := length_eraseIdx_of_lt hlt
    refine ⟨?_, fun r' hr' => ?_, fun hne => ?_⟩
    · rw [hresigning, hlen, hC.resigning]
    · exact (hC.generation r' (mem_of_mem_eraseIdx hr')).trans
        (e.flags.finishResign_spec .postgres _ _).2.2.1.symm
    · have hrest : e.flags.resigning - 1 ≠ 0 := by
        rw [hC.resigning, ← hlen]
        exact fun h => hne (length_eq_zero_iff.mp h)
      exact (hcleanup hrest).trans (hC.cleanup (ne_nil_of_mem (mem_of_getElem? hr)))
  | @lose w g cleanup workers =>
    obtain ⟨hresigning, hgeneration, hcleanup⟩ :=
      e.flags.clearOwnershipAfterLoss_postgres g w cleanup
    refine ⟨hresigning.trans hC.resigning, fun r hr => ?_, fun hne => hcleanup ?_ (hC.cleanup hne)⟩
    · exact (hC.generation r hr).trans hgeneration.symm
    · rw [hC.resigning]
      exact length_pos_of_ne_nil hne

/-! ### What a step can bring about -/

/-- The elector owns the leadership, or a campaign is about to say so. -/
def Winning (e : Elector) : Prop :=
  e.flags.owned = true ∨ ∃ k ∈ e.campaigns, k.phase = .won

/-- **An elector comes to win by a reply that grants an attempt or finds its token.** -/
theorem winning_of_step (hI : Inv e) (hs : e.step b a = some e') (hwin : Winning e') :
    Winning e ∨ ∃ n, a = .acquired n .granted ∨ a = .probed n .own := by
  have hm := move_of_step hs
  cases hm with
  | beginCampaign hf =>
    obtain ⟨-, -, -, rfl⟩ := Flags.beginCampaign_eq_ok hf
    rcases hwin with howned | ⟨k, hk, hwon⟩
    · exact .inl (.inl howned)
    · rcases mem_concat hk with hold | rfl
      · exact .inl (.inr ⟨k, hold, hwon⟩)
      · cases hwon
  | @campaign _ n k phase hk hseek hwins =>
    rcases hwin with howned | ⟨k', hk', hwon⟩
    · exact .inl (.inl howned)
    · rw [hI.setCampaign_campaigns hk phase, mem_singleton] at hk'
      rw [hk'] at hwon
      exact .inr ⟨n, hwins hwon⟩
  | startRenewal hk hwon => exact .inl (.inr ⟨_, mem_of_getElem? hk, hwon⟩)
  | @markCleanupPending n k hk hmark =>
    have hfree := hI.seeking _ (mem_of_getElem? hk) (hmark ▸ rfl)
    rcases hwin with howned | ⟨k', hk', hwon⟩
    · have hnot := (e.flags.markCleanupPending_spec b).2.2.1 hfree.1
      exact nomatch hnot.symm.trans howned
    · rw [hI.setCampaign_campaigns hk .ending, mem_singleton] at hk'
      rw [hk'] at hwon
      cases hwon
  | endCampaign =>
    refine .inl (hwin.imp_right ?_)
    rintro ⟨k, hk, hwon⟩
    exact ⟨k, mem_of_mem_eraseIdx hk, hwon⟩
  | clearOwnership hf =>
    obtain ⟨-, hnot, -⟩ := Flags.clearOwnership_eq_some hf
    rcases hwin with howned | hwon
    · exact nomatch hnot.symm.trans howned
    · exact .inl (.inr hwon)
  | resign | outlived | landed | worker => exact .inl hwin
  | finishResign =>
    exact .inl (hwin.imp_left (e.flags.finishResign_spec b _ _).1.symm.trans)
  | @lose w g cleanup workers =>
    rcases hwin with howned | hwon
    · rcases e.flags.clearOwnershipAfterLoss_spec b g w cleanup with hsame | ⟨-, hnot, -⟩
      · exact .inl (.inl (hsame ▸ howned))
      · exact nomatch hnot.symm.trans howned
    · exact .inl (.inr hwon)

theorem attempting_of_acquired {reply : AcquireReply} (hs : e.step b (.acquired n reply) = some e')
    (hk : e.campaigns[n]? = some k) : k.phase = .attempting := by
  simp only [step] at hs
  split at hs
  next number hk' =>
    obtain rfl := Option.mem_unique hk hk'
    rfl
  next => cases hs

/-- **A delete that is answered, or given up on, was pending.** -/
theorem pending_of_deleted {m : ℕ} {fault : Fault} (hs : e.step b (afterDelete m fault) = some e') :
    ∃ r, e.resigns[m]? = some r ∧ e.Pending r.number := by
  have hdeleting : ∃ r, e.resigns[m]? = some r ∧ r.phase = .deleting := by
    cases fault <;> simp only [afterDelete, step] at hs <;> split at hs <;> cases hs <;>
      exact ⟨_, ‹_›, rfl⟩
  obtain ⟨r, hr, hphase⟩ := hdeleting
  exact ⟨r, hr, .inl ⟨r, mem_of_getElem? hr, hphase ▸ rfl, rfl⟩⟩

theorem late_of_landed {j : ℕ} (hs : e.step b (.landed j) = some e') :
    ∃ r, e.late[j]? = some r := by
  simp only [step] at hs
  split_ifs at hs with hj
  exact ⟨_, getElem?_eq_getElem hj⟩

theorem Apart.not_winning (hA : Apart e) {r : ℕ} (hp : e.Pending r) : ¬Winning e := by
  rintro (howned | ⟨k, hk, hwon⟩)
  · exact nomatch (hA.owned r hp).symm.trans howned
  · have hseek := (hA.seeking r hp k hk).1
    rw [hwon] at hseek
    exact nomatch hseek

theorem starts_le_of_step (hs : e.step b a = some e') : e.starts ≤ e'.starts := by
  have hm := move_of_step hs
  cases hm <;> first | exact le_refl _ | exact Nat.le_succ _

/-- A call **precedes** the pending resigns: it started before each of them. -/
def Precedes (e : Elector) (number : ℕ) : Prop :=
  number < e.starts ∧ ∀ r, e.Pending r → number < r

/-- **A call that precedes the pending resigns precedes those to come.** -/
theorem precedes_step (hs : e.step b a = some e') {number : ℕ} (h : e.Precedes number) :
    e'.Precedes number := by
  refine ⟨h.1.trans_le (starts_le_of_step hs), fun r hp => ?_⟩
  rcases pending_of_step hs hp with hold | ⟨-, rfl⟩
  · exact h.2 r hold
  · exact h.1

/-- **A campaign that is answered precedes the pending resigns**: it is seeking, so there
are none. -/
theorem precedes_of_acquired (hI : Inv e) (hA : Apart e) {reply : AcquireReply}
    (hs : e.step b (.acquired n reply) = some e') (hk : e.campaigns[n]? = some k) :
    e'.Precedes k.number := by
  have hmem := mem_of_getElem? hk
  have hseek : k.phase.seeking = true := by
    rw [attempting_of_acquired hs hk]
    rfl
  exact precedes_step hs ⟨hI.campaign_lt k hmem,
    fun r hp => absurd hp (hA.not_pending hmem hseek r)⟩

end Elector

end Bluetape.Leader
