import Bluetape.Go
import Bluetape.GoString
import Bluetape.Library.Run

/-!
# The etcd elector

A model of `leader/etcd`: one `Elector`, any number of `Campaign` and `Resign` calls on it, and a
monitor for each **generation**. A `Campaign` starts a generation; it gets a lease and a session,
wins the election, starts the monitor, and at last **publishes** the generation: from then on
`IsLeader` is true. The monitor waits for the first thing that ends it – the context, the session, a
watch response that is wrong, a renewal that fails – and then takes the generation back. `Resign`
takes it back too, and cleans up: the lease is revoked, or if that fails the key is read to see that
it is gone.

The elector has a mutex, which each of these holds for a short section; these sections are single
steps here. Between the monitor and the `Campaign` there are two channels, `created` and `terminal`,
each with room for one error, and the context of the generation. What etcd answers is a choice of
each step.

That a generation that was lost stays lost is in `Bluetape.Leader.EtcdGenerations`.
-/

namespace Bluetape.Leader.Etcd

open Go GoString

/-! ### Generations -/

/-- The token of the elector, and the key of the candidate with a lease. -/
structure Config where
  token : Text
  keyFor : ℤ → Text

inductive Monitor where
  | idle
  | running (created : Bool)
  /-- In `fail`, before it sends to `terminal`. -/
  | failing
  /-- Before `loseGeneration`. -/
  | losing
  /-- In `shutdown`. -/
  | stopping
  | waiting
  | done
  deriving DecidableEq, Repr

/-- `generation`, with its monitor and the two channels; `created` holds nothing, or whether the
error in it is nil. -/
structure Gen where
  leaseID : ℤ := 0
  key : Text := []
  createRev : ℤ := 0
  cancelled : Bool := false
  published : Bool := false
  /-- `shutdownDone` is closed. -/
  shut : Bool := false
  /-- `cleanupMu` is held. -/
  cleaning : Bool := false
  monitor : Monitor := .idle
  created : Option Bool := none
  terminal : Bool := false
  deriving DecidableEq, Repr

/-- `electionSnapshot`. -/
structure Snapshot where
  key : Text
  createRev : ℤ
  headerRev : ℤ
  deriving DecidableEq, Repr

/-- `validateElectionSnapshot`. -/
def Snapshot.valid (s : Snapshot) (expectedKey : Text) : Bool :=
  decide (s.key ≠ [] ∧ s.key = expectedKey ∧ 0 < s.createRev ∧ 0 < s.headerRev ∧
    s.createRev ≤ s.headerRev ∧ s.headerRev ≠ maxInt64)

structure KeyValue where
  key : Text
  value : Text
  lease : ℤ
  createRevision : ℤ
  deriving DecidableEq, Repr

/-- A `GetResponse`; it may be nil, and so may its parts. -/
abbrev Response : Type := Option (List (Option KeyValue))

/-- `generationAbsentOrReplaced`. -/
def absentOrReplaced (cfg : Config) (g : Gen) : Response → Bool
  | none => false
  | some [] => true
  | some (none :: _) => true
  | some (some kv :: _) =>
    decide (kv.key ≠ g.key ∨ kv.value ≠ cfg.token ∨ kv.lease ≠ g.leaseID) ||
      decide (0 < g.createRev ∧ kv.createRevision ≠ g.createRev)

/-! ### Cleaning up -/

/-- Where the cleanup of a generation is: `shutdown`, `waitForMonitor` and
`cleanupFailedGeneration`. -/
inductive Clean where
  | shutting
  | joining
  | revoking
  | reading
  | proved
  | unproved
  deriving DecidableEq, Repr

/-- A step of a cleanup, with what etcd answers: is there no error from `Revoke`; what does `Get`
return, if not an error? -/
inductive CleanAct where
  | shutdown
  | join
  | revoke (ok : Bool)
  | read (response : Option Response)
  deriving DecidableEq, Repr

/-- A step of a cleanup: the generation, and where the cleanup is then. -/
def stepClean (cfg : Config) (g : Gen) : Clean → CleanAct → Option (Gen × Clean)
  | .shutting, .shutdown => some ({ g with cancelled := true }, .joining)
  | .joining, .join =>
    if g.shut = true ∧ (g.monitor = .idle ∨ g.monitor = .done) then
      some (g, if g.leaseID = 0 then .proved else .revoking)
    else none
  | .revoking, .revoke ok =>
    some (g, if ok then .proved else if g.key = [] then .unproved else .reading)
  | .reading, .read response =>
    some (g, if response.any (absentOrReplaced cfg g) then .proved else .unproved)
  | _, _ => none

/-! ### Calls -/

/-- Where a `Campaign` is, from `beginCampaign` on. -/
inductive CampaignPhase where
  | begun
  | granting
  | opening
  | electing
  | proclaiming
  | snapshotting
  | watching
  /-- In `waitCreated`. -/
  | waiting
  | publishing
  /-- In `failCampaign`. -/
  | cleaning (c : Clean)
  | ending
  | returned
  deriving DecidableEq, Repr

/-- A `Campaign`; the context of its caller may still cancel the generation. -/
structure Campaign where
  gen : ℕ
  attached : Bool
  phase : CampaignPhase
  deriving DecidableEq, Repr

/-- Where a `Resign` is, from its first section on. -/
inductive ResignPhase where
  | taken
  /-- It holds `cleanupMu`. -/
  | holding
  | cleaning (c : Clean)
  | leaving
  | returned
  deriving DecidableEq, Repr

/-- A `Resign`. -/
structure Resign where
  gen : ℕ
  phase : ResignPhase
  deriving DecidableEq, Repr

structure Sys where
  campaigning : Bool := false
  current : Option ℕ := none
  gens : List Gen := []
  campaigns : List Campaign := []
  resigns : List Resign := []
  deriving DecidableEq, Repr

def Sys.isLeader (y : Sys) : Bool :=
  y.current.any fun n => y.gens[n]?.any fun g => g.published && !g.cancelled

/-! ### Steps -/

/-- Which channel `waitCreated` reads. -/
inductive Wait where
  | created
  | terminal
  | context
  deriving DecidableEq, Repr

/-- A step of a `Campaign`, with what etcd answers. -/
inductive CampaignAct where
  | check
  /-- `Grant`, with the lease if there is one, and then `ttlDuration`. -/
  | grant (lease : Option ℤ) (ttl : Bool)
  | session (ok : Bool)
  | elect (ok : Bool)
  | proclaim (ok : Bool)
  | snapshot (s : Option Snapshot)
  | watch
  | wait (w : Wait)
  /-- The section in which the generation is published; `detached`, if its caller has not given
  up. -/
  | publish (detached : Bool)
  | clean (a : CleanAct)
  | clear
  | finish
  deriving DecidableEq, Repr

/-- A step of a `Resign`. -/
inductive ResignAct where
  | lock
  | check
  | clean (a : CleanAct)
  | clear
  | leave
  deriving DecidableEq, Repr

inductive MonitorAct where
  | created
  | fail
  | terminate
  /-- `loseGeneration`. -/
  | lose
  | shutdown
  | finish
  deriving DecidableEq, Repr

inductive Label where
  /-- `Campaign`, up to the end of `beginCampaign`. -/
  | begin
  | campaign (i : ℕ) (a : CampaignAct)
  | giveUp (i : ℕ)
  /-- `Resign`, up to the end of its first section. -/
  | take
  | resign (j : ℕ) (a : ResignAct)
  | monitor (n : ℕ) (a : MonitorAct)
  /-- The session is done, and so is `shutdown`; the context was cancelled before. -/
  | shut (n : ℕ)
  deriving DecidableEq, Repr

def Sys.setGen (y : Sys) (n : ℕ) (g : Gen) : Sys := { y with gens := y.gens.set n g }

/-- A `Campaign` moves on. -/
def Sys.setCampaign (y : Sys) (i : ℕ) (c : Campaign) : Sys :=
  { y with campaigns := y.campaigns.set i c }

/-- A `Resign` moves on. -/
def Sys.setResign (y : Sys) (j : ℕ) (r : Resign) : Sys := { y with resigns := y.resigns.set j r }

/-- `clearGeneration`. -/
def Sys.clear (y : Sys) (n : ℕ) : Sys :=
  if y.current = some n then { y with current := none } else y

/-- `failCampaign`, or the next phase. -/
def orFail (ok : Bool) (next : CampaignPhase) : CampaignPhase :=
  if ok then next else .cleaning .shutting

/-- **The steps of a `Campaign`.** -/
def stepCampaign (cfg : Config) (y : Sys) (i : ℕ) (c : Campaign) (g : Gen) :
    CampaignAct → Option Sys
  | .check =>
    if c.phase = .begun then
      some (y.setCampaign i (if g.cancelled then ⟨c.gen, false, .cleaning .proved⟩
        else { c with phase := .granting }))
    else none
  | .grant lease ttl =>
    if c.phase = .granting then
      match lease with
      | none => some (y.setCampaign i { c with phase := .cleaning .shutting })
      | some id =>
        if id = 0 then some (y.setCampaign i { c with phase := .cleaning .shutting })
        else
          some ((y.setGen c.gen { g with leaseID := id, key := cfg.keyFor id }).setCampaign i
            { c with phase := orFail ttl .opening })
    else none
  | .session ok =>
    if c.phase = .opening then some (y.setCampaign i { c with phase := orFail ok .electing })
    else none
  | .elect ok =>
    if c.phase = .electing then some (y.setCampaign i { c with phase := orFail ok .proclaiming })
    else none
  | .proclaim ok =>
    if c.phase = .proclaiming then
      some (y.setCampaign i { c with phase := orFail ok .snapshotting })
    else none
  | .snapshot s =>
    if c.phase = .snapshotting then
      match s with
      | none => some (y.setCampaign i { c with phase := .cleaning .shutting })
      | some s =>
        if s.valid g.key then
          some ((y.setGen c.gen { g with key := s.key, createRev := s.createRev }).setCampaign i
            { c with phase := .watching })
        else some (y.setCampaign i { c with phase := .cleaning .shutting })
    else none
  | .watch =>
    if c.phase = .watching then
      some ((y.setGen c.gen { g with monitor := .running false }).setCampaign i
        { c with phase := .waiting })
    else none
  | .wait w =>
    if c.phase = .waiting then
      match w with
      | .created =>
        g.created.map fun ok =>
          (y.setGen c.gen { g with created := none }).setCampaign i
            { c with phase := orFail ok .publishing }
      | .terminal =>
        if g.terminal then
          some ((y.setGen c.gen { g with terminal := false }).setCampaign i
            { c with phase := .cleaning .shutting })
        else none
      | .context =>
        if g.cancelled then some (y.setCampaign i { c with phase := .cleaning .shutting }) else none
    else none
  | .publish detached =>
    if c.phase = .publishing then
      if y.current ≠ some c.gen ∨ g.cancelled = true then
        some (y.setCampaign i { c with phase := .cleaning .shutting })
      else if g.terminal then
        some ((y.setGen c.gen { g with terminal := false }).setCampaign i
          { c with phase := .cleaning .shutting })
      else if detached then
        some ((y.setGen c.gen { g with published := true }).setCampaign i
          ⟨c.gen, false, .ending⟩)
      else
        -- The caller has given up, and its context has cancelled the generation.
        some ((y.setGen c.gen { g with cancelled := true }).setCampaign i
          ⟨c.gen, false, .cleaning .shutting⟩)
    else none
  | .clean a =>
    match c.phase with
    | .cleaning p =>
      (stepClean cfg g p a).map fun r =>
        (y.setGen c.gen r.1).setCampaign i ⟨c.gen, false, .cleaning r.2⟩
    | _ => none
  | .clear =>
    if c.phase = .cleaning .proved then
      some ((y.clear c.gen).setCampaign i { c with phase := .ending })
    else none
  | .finish =>
    if c.phase = .ending ∨ c.phase = .cleaning .unproved then
      some { y.setCampaign i { c with phase := .returned } with campaigning := false }
    else none

/-- **The steps of a `Resign`.** -/
def stepResign (cfg : Config) (y : Sys) (j : ℕ) (r : Resign) (g : Gen) : ResignAct → Option Sys
  | .lock =>
    if r.phase = .taken ∧ g.cleaning = false then
      some ((y.setGen r.gen { g with cleaning := true }).setResign j { r with phase := .holding })
    else none
  | .check =>
    if r.phase = .holding then
      some (y.setResign j { r with
        phase := if y.current = some r.gen then .cleaning .shutting else .leaving })
    else none
  | .clean a =>
    match r.phase with
    | .cleaning p =>
      (stepClean cfg g p a).map fun s =>
        (y.setGen r.gen s.1).setResign j { r with phase := .cleaning s.2 }
    | _ => none
  | .clear =>
    if r.phase = .cleaning .proved then
      some ((y.clear r.gen).setResign j { r with phase := .leaving })
    else none
  | .leave =>
    if r.phase = .leaving ∨ r.phase = .cleaning .unproved then
      some ((y.setGen r.gen { g with cleaning := false }).setResign j { r with phase := .returned })
    else none

/-- **The steps of a monitor.** -/
def stepMonitor (y : Sys) (n : ℕ) (g : Gen) : MonitorAct → Option Sys
  | .created =>
    if g.monitor = .running false then
      some (y.setGen n { g with monitor := .running true, created := some true })
    else none
  | .fail =>
    match g.monitor with
    | .running created =>
      some (y.setGen n { g with
        monitor := .failing, created := if created then g.created else some false })
    | _ => none
  | .terminate =>
    if g.monitor = .failing then some (y.setGen n { g with monitor := .losing, terminal := true })
    else none
  | .lose =>
    if g.monitor = .losing then
      some (y.setGen n { g with
        monitor := .stopping, published := if y.current = some n then false else g.published })
    else none
  | .shutdown =>
    if g.monitor = .stopping then
      some (y.setGen n { g with monitor := .waiting, cancelled := true })
    else none
  | .finish =>
    if g.monitor = .waiting ∧ g.shut = true then some (y.setGen n { g with monitor := .done })
    else none

/-- `beginCampaign`; a call that is refused changes nothing. -/
def begin (y : Sys) : Sys :=
  if y.campaigning = true ∨ y.current ≠ none then y
  else
    { y with
      campaigning := true, current := some y.gens.length, gens := y.gens ++ [{}],
      campaigns := y.campaigns ++ [⟨y.gens.length, true, .begun⟩] }

/-- The generation that the first section of `Resign` takes, if there is one to take. -/
def takes (y : Sys) : Option (ℕ × Gen) :=
  y.current.bind fun n => y.gens[n]?.bind fun g =>
    if y.campaigning = true ∧ g.published = false then none else some (n, g)

/-- The first section of `Resign`. -/
def take (y : Sys) : Sys :=
  match takes y with
  | none => y
  | some (n, g) =>
    { y.setGen n { g with published := false } with resigns := y.resigns ++ [⟨n, .taken⟩] }

/-- **One step.** -/
def step (cfg : Config) (y : Sys) : Label → Option Sys
  | .begin => some (begin y)
  | .campaign i a =>
    y.campaigns[i]?.bind fun c => y.gens[c.gen]?.bind fun g => stepCampaign cfg y i c g a
  | .giveUp i =>
    y.campaigns[i]?.bind fun c => y.gens[c.gen]?.bind fun g =>
      if c.attached then
        some ((y.setGen c.gen { g with cancelled := true }).setCampaign i
          { c with attached := false })
      else none
  | .take => some (take y)
  | .resign j a =>
    y.resigns[j]?.bind fun r => y.gens[r.gen]?.bind fun g => stepResign cfg y j r g a
  | .monitor n a => y.gens[n]?.bind fun g => stepMonitor y n g a
  | .shut n =>
    y.gens[n]?.bind fun g =>
      if g.cancelled then some (y.setGen n { g with shut := true }) else none

abbrev Ev : Type := Lts.Event Sys Label

end Bluetape.Leader.Etcd
