import Bluetape.Leader.Lifecycle
import Bluetape.Leader.Options

/-!
# The DynamoDB elector, with time

Any number of electors, with distinct tokens, on one item. The item has an owner and the end of its
lease, in milliseconds. A `Campaign` puts the item if there is none, and otherwise takes it over if
its lease has run out; a worker renews it on a ticker; a `Resign` deletes it. What the elector knows
is under a mutex, and the sections are those of the PostgreSQL elector
(`Bluetape.Leader.Flags`); in addition `markCleanupPending` cancels the worker.

Time is part of the state. It passes (`Sys.pass`) only as long as all that is under way can wait: up
to the deadline of a call, the next tick, the end of a sleep – and not at all while there is
something to do that takes no time. A call to DynamoDB is issued, takes effect at some moment or not
at all, and returns at some moment up to the deadline of its context; its error may be returned
after it has taken effect. Contexts of callers end at any moment.

The end of a lease and the time it is compared with are both computed when a call is issued, not
when it takes effect. For the statements only, the item carries the time at which the call that
wrote it was issued, and a probe the time of the write that it is about.
-/

namespace Bluetape.Leader.Dynamo

open Go

/-! ### Options -/

/-- The checks of `New` on the durations. -/
def newOptions (raw : Options) : Except String Options :=
  match raw.normalize with
  | .error e => .error e
  | .ok o =>
    if o.lease < millisecond ∨ o.renewInterval < millisecond ∨ o.lease ≤ o.renewInterval then
      .error ("dynamodb leader: invalid options: lease and renew interval must be millisecond " ++
        "values with renew interval below lease")
    else .ok o

/-- **An elector's options, as `New` has accepted them.** -/
structure Config where
  options : Options
  accepted : ∃ raw : Options, newOptions raw = .ok options
  /-- `WithRetryDelay`. -/
  retryDelay : ℤ
  retryDelay_pos : 0 < retryDelay

namespace Config

variable (cfg : Config)

/-- The lease. -/
def lease : ℤ := cfg.options.lease

/-- The interval of the ticker. -/
def renewInterval : ℤ := cfg.options.renewInterval

/-- For a call of a campaign, and for a probe. -/
def attemptBudget : ℤ :=
  let budget := cfg.lease / 4
  let budget := if budget ≤ 0 then millisecond else budget
  let budget := if cfg.renewInterval < budget then cfg.renewInterval else budget
  if second < budget then second else budget

/-- For a renewal. -/
def renewalBudget : ℤ :=
  let budget := cfg.lease / 2
  let budget := if budget ≤ 0 then millisecond else budget
  if cfg.renewInterval < budget then cfg.renewInterval else budget

end Config

/-! ### The item -/

/-- `UnixMilli`. -/
def unixMilli (t : ℤ) : ℤ := t / millisecond

/-- In seconds, rounded up. -/
def ttlSeconds (deadline : ℤ) : ℤ :=
  if deadline % second ≠ 0 then deadline / second + 1 else deadline / second

/-- The item. -/
structure Item (ι : Type) where
  owner : ι
  lease : ℤ
  ttl : ℤ
  issued : ℤ
  deriving DecidableEq

/-- A call, with the deadline of its context and, once it has taken effect, its reply. -/
structure Call (α : Type) where
  issued : ℤ
  due : ℤ
  reply : Option α
  deriving DecidableEq

variable {ι : Type}

section Calls

variable (cfg : Config) (i : ι) (issued : ℤ)

/-- What an elector writes with a call: the deadline is computed when it is issued. -/
def leaseItem : Item ι :=
  ⟨i, unixMilli (issued + cfg.lease), ttlSeconds (issued + cfg.lease), issued⟩

/-- `PutItem` with `putInput`, and whether its condition holds. -/
def putItem : Option (Item ι) → Bool × Option (Item ι)
  | none => (true, some (leaseItem cfg i issued))
  | some it => (false, some it)

/-- `UpdateItem` with `takeoverInput`. -/
def takeoverItem : Option (Item ι) → Bool × Option (Item ι)
  | none => (true, some (leaseItem cfg i issued))
  | some it =>
    if it.lease ≤ unixMilli issued then (true, some (leaseItem cfg i issued)) else (false, some it)

variable [DecidableEq ι]

/-- `UpdateItem` with `renewInput`. -/
def renewItem : Option (Item ι) → Bool × Option (Item ι)
  | none => (false, none)
  | some it =>
    if it.owner = i ∧ unixMilli issued < it.lease then (true, some (leaseItem cfg i issued))
    else (false, some it)

/-- `DeleteItem` with `deleteInput`. -/
def deleteItem : Option (Item ι) → Bool × Option (Item ι)
  | none => (false, none)
  | some it => if it.owner = i then (true, none) else (false, some it)

end Calls

/-- How a call returns. -/
structure Return where
  /-- It returns an error, whether it has taken effect or not. -/
  failed : Bool
  expired : Bool
  ended : Bool
  deriving DecidableEq

/-- What a write answers. -/
inductive WriteResult where
  | ok
  /-- `ConditionalCheckFailedException`. -/
  | conditional
  | failed
  deriving DecidableEq

/-- The result of a write; without an error it has taken effect. -/
def writeResult (reply : Option Bool) (failed : Bool) : Option WriteResult :=
  if failed then some .failed
  else reply.map fun ok => if ok then .ok else .conditional

/-- What a probe answers. -/
inductive ProbeResult where
  | confirmed
  | other
  | failed
  deriving DecidableEq

/-- `probeOwnership` and `lookup`: what was read is compared with the time at the return. -/
def probeResult [DecidableEq ι] (i : ι) (now : ℤ) (reply : Option (Option (Item ι)))
    (r : Return) : Option ProbeResult :=
  if r.failed || r.expired || r.ended then some .failed
  else reply.map fun item =>
    match item with
    | none => .other
    | some it =>
      if it.lease ≤ 0 then .failed
      else if unixMilli now < it.lease ∧ it.owner = i then .confirmed
      else .other

/-- The deadline of a context is over at its deadline, not before. -/
def Return.Possible (r : Return) (now due : ℤ) : Prop := r.expired = true → due ≤ now
  deriving Decidable

/-! ### Calls and workers -/

/-- Where a `Campaign` is. -/
inductive CampaignPhase (ι : Type) where
  /-- In `PutItem` of `acquireAttempt`. -/
  | putting (c : Call Bool)
  /-- In `UpdateItem` of `takeover`. -/
  | takingOver (c : Call Bool)
  /-- In `probeOwnership` of `reconcile`, after the write that was issued at `attempt`. -/
  | probing (retryOnNoOwner : Bool) (attempt : ℤ) (c : Call (Option (Item ι)))
  /-- Before `startRenewal`. -/
  | won
  /-- After `startRenewal`, before the look at the context. -/
  | started
  /-- Before `markCleanupPending`. -/
  | marking (started : Bool)
  /-- In `sleepContext`. -/
  | sleeping (wakeup : ℤ)
  /-- Before `endCampaign`. -/
  | ending
  deriving DecidableEq

/-- Where a `Resign` is. -/
inductive ResignPhase (ι : Type) where
  /-- Before `cancel`. -/
  | cancelling
  | waiting
  /-- In `DeleteItem`. -/
  | deleting (reply : Option Bool)
  /-- In `probeOwnership`. -/
  | probing (c : Call (Option (Item ι)))
  /-- Before `markCleanupPending`. -/
  | marking
  /-- Before `finishResign`. -/
  | finishing (resolved : Bool)
  deriving DecidableEq

/-- A `Resign` that found something to resign. -/
structure Resign (ι : Type) where
  generation : ℕ
  /-- `cancel` and `done`, as captured. -/
  done : Option ℕ
  phase : ResignPhase ι
  deriving DecidableEq

/-- Where a worker is. -/
inductive WorkerPhase (ι : Type) where
  /-- In its `select`. -/
  | waiting
  /-- In `renew`. -/
  | renewing (c : Call Bool)
  /-- In `probeOwnership`, after the renewal that was issued at `attempt`. -/
  | probing (attempt : ℤ) (c : Call (Option (Item ι)))
  /-- Before `clearOwnershipAfterLoss`. -/
  | losing (cleanup : Bool)
  /-- `done` is closed. -/
  | returned
  deriving DecidableEq

/-- A renewal worker. -/
structure Worker (ι : Type) where
  generation : ℕ
  cancelled : Bool
  next : ℤ
  buffered : Bool
  phase : WorkerPhase ι
  deriving DecidableEq

/-- An elector. -/
structure Elector (ι : Type) where
  flags : Flags
  campaign : Option (CampaignPhase ι)
  resigns : List (Resign ι)
  workers : List (Worker ι)

/-- Nothing has begun. -/
def Elector.new : Elector ι := ⟨⟨false, false, false, 0, false, 0, none⟩, none, [], []⟩

/-- `IsLeader`. -/
def Elector.isLeader (e : Elector ι) : Bool := e.flags.owned

namespace Elector

/-- Its worker is cancelled. -/
def cancelWorker (e : Elector ι) (done : Option ℕ) : List (Worker ι) :=
  match done with
  | none => e.workers
  | some w => e.workers.modify w fun k => { k with cancelled := true }

/-- `markCleanupPending`. -/
def markCleanupPending (e : Elector ι) : Elector ι :=
  { e with
    flags := e.flags.markCleanupPending .postgres
    workers := e.cancelWorker e.flags.done }

/-- The worker that a `Resign` waits for has returned, if there is one. -/
def joinable (e : Elector ι) (done : Option ℕ) : Bool :=
  match done with
  | none => true
  | some w => (e.workers[w]?).all fun k => match k.phase with
    | .returned => true
    | _ => false

end Elector

/-! ### Steps -/

/-- A step of an elector. A `Resign` is named by its position among those under way, and a worker
by its position among all. -/
inductive Action where
  /-- A `Campaign` begins, and issues its `PutItem`. -/
  | beginCampaign
  | campaignEffect
  | campaignReturn (r : Return)
  | startRenewal
  | checkContext (ended : Bool)
  | campaignMark
  /-- The sleep of the campaign ends, with its timer or its context. -/
  | wake (ended : Bool)
  | endCampaign
  /-- A `Resign` begins. -/
  | clearOwnership
  | cancel (m : ℕ)
  /-- The worker of a resign has returned; it looks at its context and issues its `DeleteItem`. -/
  | join (m : ℕ) (ended : Bool)
  | giveUp (m : ℕ)
  | resignEffect (m : ℕ)
  | resignReturn (m : ℕ) (r : Return)
  | resignMark (m : ℕ)
  | finishResign (m : ℕ)
  | fire (w : ℕ)
  | receive (w : ℕ)
  | quit (w : ℕ)
  | workerEffect (w : ℕ)
  | workerReturn (w : ℕ) (r : Return)
  /-- `clearOwnershipAfterLoss`. -/
  | lose (w : ℕ)
  deriving DecidableEq

section Steps

variable [DecidableEq ι] (cfg : Config) (i : ι) (now : ℤ) (item : Option (Item ι))

/-- A call is issued. -/
def issue {α : Type} (budget : ℤ) : Call α := ⟨now, now + budget, none⟩

/-- What a campaign does after a write that was not clearly successful or refused. -/
def reconcile (retryOnNoOwner : Bool) (attempt : ℤ) : CampaignPhase ι :=
  .probing retryOnNoOwner attempt (issue now cfg.attemptBudget)

/-- What a campaign does when a write returns; `refused` is for a condition that does not hold. -/
def afterWrite (refused : CampaignPhase ι) (c : Call Bool) (r : Return) :
    Option (CampaignPhase ι) :=
  (writeResult c.reply r.failed).map fun result =>
    if r.ended then .marking false
    else if r.expired then reconcile cfg now true c.issued
    else
      match result with
      | .ok => .won
      | .conditional => refused
      | .failed => reconcile cfg now false c.issued

/-- What a campaign does when it sees that another has the lease. -/
def retryLater : CampaignPhase ι := .sleeping (now + cfg.retryDelay)

/-- A call of a campaign returns. -/
def campaignReturn : CampaignPhase ι → Return → Option (CampaignPhase ι)
  | .putting c, r =>
    if r.Possible now c.due then
      afterWrite cfg now (.takingOver (issue now cfg.attemptBudget)) c r
    else none
  | .takingOver c, r =>
    if r.Possible now c.due then afterWrite cfg now (retryLater cfg now) c r else none
  | .probing retryOnNoOwner _ c, r =>
    if r.Possible now c.due then
      (probeResult i now c.reply r).map fun result =>
        match result with
        | .confirmed => .won
        | .other => if retryOnNoOwner then retryLater cfg now else .ending
        | .failed => .marking false
    else none
  | _, _ => none

/-- It takes effect. -/
def campaignEffect : CampaignPhase ι → Option (CampaignPhase ι × Option (Item ι))
  | .putting ⟨issued, due, none⟩ =>
    some (.putting ⟨issued, due, some (putItem cfg i issued item).1⟩, (putItem cfg i issued item).2)
  | .takingOver ⟨issued, due, none⟩ =>
    some (.takingOver ⟨issued, due, some (takeoverItem cfg i issued item).1⟩,
      (takeoverItem cfg i issued item).2)
  | .probing retryOnNoOwner attempt ⟨issued, due, none⟩ =>
    some (.probing retryOnNoOwner attempt ⟨issued, due, some item⟩, item)
  | _ => none

/-- A call of a resign returns. -/
def resignReturn : ResignPhase ι → Return → Option (ResignPhase ι)
  | .deleting reply, r =>
    (writeResult reply r.failed).map fun result =>
      match result with
      | .ok => .finishing true
      | .conditional => .finishing true
      | .failed =>
        if r.ended then .finishing false else .probing (issue now cfg.attemptBudget)
  | .probing c, r =>
    if r.Possible now c.due then
      (probeResult i now c.reply r).map fun result =>
        match result with
        | .other => .finishing true
        | .confirmed => .marking
        | .failed => .marking
    else none
  | _, _ => none

/-- It takes effect. -/
def resignEffect : ResignPhase ι → Option (ResignPhase ι × Option (Item ι))
  | .deleting none => some (.deleting (some (deleteItem i item).1), (deleteItem i item).2)
  | .probing ⟨issued, due, none⟩ => some (.probing ⟨issued, due, some item⟩, item)
  | _ => none

/-- A call of a worker returns. -/
def workerReturn (cancelled : Bool) : WorkerPhase ι → Return → Option (WorkerPhase ι)
  | .renewing c, r =>
    if r.Possible now c.due then
      (writeResult c.reply r.failed).map fun result =>
        if cancelled then .returned
        else
          match result with
          | .ok => if r.expired then .probing c.issued (issue now cfg.attemptBudget) else .waiting
          | .conditional => .losing false
          | .failed => .probing c.issued (issue now cfg.attemptBudget)
    else none
  | .probing _ c, r =>
    if r.Possible now c.due then
      (probeResult i now c.reply r).map fun result =>
        match result with
        | .confirmed => .waiting
        | .other => .losing false
        | .failed => .losing true
    else none
  | _, _ => none

/-- It takes effect. -/
def workerEffect : WorkerPhase ι → Option (WorkerPhase ι × Option (Item ι))
  | .renewing ⟨issued, due, none⟩ =>
    some (.renewing ⟨issued, due, some (renewItem cfg i issued item).1⟩,
      (renewItem cfg i issued item).2)
  | .probing attempt ⟨issued, due, none⟩ => some (.probing attempt ⟨issued, due, some item⟩, item)
  | _ => none

namespace Elector

variable (e : Elector ι)

/-- A resign moves on. -/
def setResign (m : ℕ) (r : Resign ι) (phase : ResignPhase ι) : Elector ι :=
  { e with resigns := e.resigns.set m { r with phase := phase } }

/-- A worker moves on. -/
def setWorker (w : ℕ) (k : Worker ι) : Elector ι := { e with workers := e.workers.set w k }

/-- **One step of an elector**: what it becomes, and the item. -/
def step : Action → Option (Elector ι × Option (Item ι))
  | .beginCampaign =>
    match e.flags.beginCampaign with
    | .error _ => none
    | .ok f => some ({ e with
        flags := f
        campaign := some (.putting (issue now cfg.attemptBudget)) }, item)
  | .campaignEffect =>
    e.campaign.bind fun p => (campaignEffect cfg i item p).map fun x =>
      ({ e with campaign := some x.1 }, x.2)
  | .campaignReturn r =>
    e.campaign.bind fun p => (campaignReturn cfg i now p r).map fun p' =>
      ({ e with campaign := some p' }, item)
  | .startRenewal =>
    match e.campaign with
    | some .won => some ({ e with
        flags := e.flags.startRenewal e.workers.length
        campaign := some .started
        workers := e.workers ++
          [⟨e.flags.generation + 1, false, now + cfg.renewInterval, false, .waiting⟩] }, item)
    | _ => none
  | .checkContext ended =>
    match e.campaign with
    | some .started =>
      some ({ e with campaign := some (if ended then .marking true else .ending) }, item)
    | _ => none
  | .campaignMark =>
    match e.campaign with
    | some (.marking _) => some ({ e.markCleanupPending with campaign := some .ending }, item)
    | _ => none
  | .wake ended =>
    match e.campaign with
    | some (.sleeping wakeup) =>
      if ended then some ({ e with campaign := some .ending }, item)
      else if wakeup ≤ now then
        some ({ e with campaign := some (.putting (issue now cfg.attemptBudget)) }, item)
      else none
    | _ => none
  | .endCampaign =>
    match e.campaign with
    | some .ending => some ({ e with flags := e.flags.endCampaign, campaign := none }, item)
    | _ => none
  | .clearOwnership =>
    (e.flags.clearOwnership .postgres).map fun f =>
      ({ e with
        flags := f
        resigns := e.resigns ++ [⟨e.flags.generation, e.flags.done, .cancelling⟩] }, item)
  | .cancel m =>
    match e.resigns[m]? with
    | some ⟨g, done, .cancelling⟩ =>
      some ({ e.setResign m ⟨g, done, .cancelling⟩ .waiting with
        workers := e.cancelWorker done }, item)
    | _ => none
  | .join m ended =>
    match e.resigns[m]? with
    | some ⟨g, done, .waiting⟩ =>
      if e.joinable done then
        some (e.setResign m ⟨g, done, .waiting⟩
          (if ended then .finishing false else .deleting none), item)
      else none
    | _ => none
  | .giveUp m =>
    match e.resigns[m]? with
    | some ⟨g, some w, .waiting⟩ =>
      some (e.setResign m ⟨g, some w, .waiting⟩ (.finishing false), item)
    | _ => none
  | .resignEffect m =>
    (e.resigns[m]?).bind fun r => (resignEffect i item r.phase).map fun x =>
      (e.setResign m r x.1, x.2)
  | .resignReturn m ret =>
    (e.resigns[m]?).bind fun r => (resignReturn cfg i now r.phase ret).map fun p =>
      (e.setResign m r p, item)
  | .resignMark m =>
    match e.resigns[m]? with
    | some ⟨g, done, .marking⟩ =>
      some ((e.setResign m ⟨g, done, .marking⟩ (.finishing false)).markCleanupPending, item)
    | _ => none
  | .finishResign m =>
    match e.resigns[m]? with
    | some ⟨g, _, .finishing resolved⟩ => some ({ e with
        flags := e.flags.finishResign .postgres g resolved
        resigns := e.resigns.eraseIdx m }, item)
    | _ => none
  | .fire w =>
    (e.workers[w]?).bind fun k =>
      if k.next ≤ now ∧ k.phase ≠ .returned then
        some (e.setWorker w { k with next := k.next + cfg.renewInterval, buffered := true }, item)
      else none
  | .receive w =>
    match e.workers[w]? with
    | some ⟨g, cancelled, next, true, .waiting⟩ =>
      some (e.setWorker w
        ⟨g, cancelled, next, false, .renewing (issue now cfg.renewalBudget)⟩, item)
    | _ => none
  | .quit w =>
    match e.workers[w]? with
    | some ⟨g, true, next, buffered, .waiting⟩ =>
      some (e.setWorker w ⟨g, true, next, buffered, .returned⟩, item)
    | _ => none
  | .workerEffect w =>
    (e.workers[w]?).bind fun k => (workerEffect cfg i item k.phase).map fun x =>
      (e.setWorker w { k with phase := x.1 }, x.2)
  | .workerReturn w ret =>
    (e.workers[w]?).bind fun k => (workerReturn cfg i now k.cancelled k.phase ret).map fun p =>
      (e.setWorker w { k with phase := p }, item)
  | .lose w =>
    match e.workers[w]? with
    | some ⟨g, cancelled, next, buffered, .losing cleanup⟩ => some ({
        e.setWorker w ⟨g, cancelled, next, buffered, .returned⟩ with
        flags := e.flags.clearOwnershipAfterLoss .postgres g w cleanup }, item)
    | _ => none

end Elector

end Steps

/-! ### Time -/

section Time

variable (later : ℤ)

/-- It can wait until then. -/
def CampaignPhase.waits : CampaignPhase ι → Bool
  | .putting c => decide (later ≤ c.due)
  | .takingOver c => decide (later ≤ c.due)
  | .probing _ _ c => decide (later ≤ c.due)
  | .sleeping wakeup => decide (later ≤ wakeup)
  | _ => false

/-- A resign can wait until then; it can if its worker has not returned. -/
def Elector.resignWaits (e : Elector ι) (r : Resign ι) : Bool :=
  match r.phase with
  | .waiting => !e.joinable r.done
  | .deleting _ => true
  | .probing c => decide (later ≤ c.due)
  | _ => false

/-- It can wait until then. -/
def Worker.waits (k : Worker ι) : Bool :=
  match k.phase with
  | .waiting => !k.buffered && !k.cancelled && decide (later ≤ k.next)
  | .renewing c => decide (later ≤ c.due) && decide (later ≤ k.next)
  | .probing _ c => decide (later ≤ c.due) && decide (later ≤ k.next)
  | .losing _ => false
  | .returned => true

/-- Everything under way on an elector can wait until then. -/
def Elector.waits (e : Elector ι) : Bool :=
  e.campaign.all (CampaignPhase.waits later) && e.resigns.all (e.resignWaits later) &&
    e.workers.all (Worker.waits later)

end Time

/-! ### Electors on one item -/

/-- The time, the item and the electors. -/
structure Sys (ι : Type) where
  now : ℤ
  item : Option (Item ι)
  electors : ι → Elector ι
  active : List ι

/-- There is no item. -/
def Sys.new (now : ℤ) : Sys ι := ⟨now, none, fun _ => .new, []⟩

/-- What happens. -/
inductive Label (ι : Type) where
  | act (i : ι) (a : Action)
  | expire
  | pass (d : ℕ)
  deriving DecidableEq

/-- DynamoDB deletes an item some time after its time to live. -/
def Sys.expire (y : Sys ι) : Option (Sys ι) :=
  match y.item with
  | some it => if it.ttl * second ≤ y.now then some { y with item := none } else none
  | none => none

/-- **Time passes**, if everything can wait. -/
def Sys.pass (y : Sys ι) (d : ℕ) : Option (Sys ι) :=
  if y.active.all fun i => (y.electors i).waits (y.now + d) then some { y with now := y.now + d }
  else none

variable [DecidableEq ι]

/-- **One step of electors with given options.** -/
def step (cfg : ι → Config) (y : Sys ι) : Label ι → Option (Sys ι)
  | .act i a =>
    ((y.electors i).step (cfg i) i y.now y.item a).map fun x =>
      { y with
        item := x.2
        electors := Function.update y.electors i x.1
        active := i :: y.active }
  | .expire => y.expire
  | .pass d => y.pass d

/-- A step. -/
abbrev Ev (ι : Type) : Type := Lts.Event (Sys ι) (Label ι)

end Bluetape.Leader.Dynamo
