import Bluetape.Go
import Bluetape.Library.Program
import Bluetape.RedisValue.Coordination
import Bluetape.RedisValue.LocalState

/-!
# The tiered cache

A `TieredCache` keeps values in two places: in Redis, which all processes share, and in a local tier
of its own. Its operations are programs (`Conc.Prog`) of the atomic actions `Act`: a critical
section of the local state or of a coordinator, one operation on the local tier, one Redis command,
a look at the context or at the clock. They are written as the methods are, in their order and with
their errors; a loop is a label.

What an action does is `exec`. What the environment decides is in the choice: whether a context has
ended when it is looked at – also one that had not ended at an earlier look, so no assumption is
made about contexts –, whether an operation of the local tier or a command fails, and whether it has
taken effect then, what the clock reads, what a loader returns and what a scan finds. Values may
also vanish from either tier, or be changed in Redis by other processes, between any two actions
(`Env`).

A value that was read from Redis, or that a loader has returned, carries the time of the command, or
of the call of the loader (`Item`). That and three fields of the shared state say what the theorems
are about; the programs do not read them.
-/

namespace Bluetape.RedisValue

open Function Option LocalState

/-! ### Values and errors -/

/-- A value, with the time at which it was fetched: read from Redis, or asked of a loader. A
value that a caller has set has none. -/
structure Item (V : Type) where
  value : V
  fetchedAt : Option ℕ
  deriving DecidableEq, Repr

/-- `Reason`, as far as a `TieredCache` gives it. -/
inductive Reason where
  | localFailure
  | localBlocked
  | partialClear
  deriving DecidableEq, Repr

structure ClearProgress where
  scannedKeys : ℕ
  unlinkedBatches : ℕ
  deriving DecidableEq, Repr

/-- The errors that come back from an operation. A `CacheError` has its operation, its reason,
the key, how far a clear has come, and its causes. -/
inductive Err (K : Type) where
  | context
  /-- `ErrCacheMiss`. -/
  | miss
  /-- `ErrInvalidKey`. -/
  | invalidKey
  /-- `ErrInvalidTTL`. -/
  | invalidTTL
  /-- Of a Redis command, or of encoding or decoding a value. -/
  | remote
  | loader
  | tier
  /-- `CacheError`. -/
  | cache (operation : String) (reason : Reason) (key : Option K)
      (progress : Option ClearProgress) (causes : List (Err K))

variable {K V : Type}

def Err.isBlocked : Err K → Bool
  | .cache _ .localBlocked _ _ _ => true
  | _ => false

/-- `localBlockedError`, of the local state. -/
def localBlockedError : Err K := .cache "local-state" .localBlocked none none []

def localFailureError (operation : String) (k : K) : Err K :=
  .cache operation .localFailure (some k) none [.tier]

def localBlockedCallError (operation : String) (k : Option K) (causes : List (Err K)) : Err K :=
  .cache operation .localBlocked k none causes

def withCallOperation (operation : String) (k : K) (e : Err K) : Err K :=
  if e.isBlocked then localBlockedCallError operation (some k) [e] else e

/-- What an operation returns: an error, or nothing, or a value. -/
abbrev Result (K V : Type) := Except (Err K) (Option (Item V))

def Result.ofErr : Option (Err K) → Result K V
  | none => .ok none
  | some e => .error e

/-! ### Actions and their answers -/

/-- What `acquireHealthy` returns. -/
inductive Acquired where
  | lease (generation : ℕ)
  | blocked
  | ended
  deriving DecidableEq, Repr

inductive Drained where
  | ok
  | lost
  | ended
  deriving DecidableEq, Repr

/-- **An atomic action.** -/
inductive Act (K V : Type) where
  /-- `ctx.Err()`. -/
  | ctxErr
  /-- `now()`. -/
  | now
  | acquireHealthy
  | tryAcquireHealthy
  | acquireMaintenance
  | issueTicket (generation : ℕ)
  | release
  | classify (generation : ℕ)
  | generationValue
  | beginRepair (kind : RepairKind) (expected : Option ℕ)
  | awaitDrained (lease : RepairLease)
  | finishRepair (lease : RepairLease) (failed : Bool)
  | block
  | waitLocalState
  | acquire (k : K)
  /-- `coordinators.release`. -/
  | releaseRef (k : K) (c : ℕ)
  | enlist (c : ℕ)
  | delist (c : ℕ)
  | takeToken (k : K) (c : ℕ)
  | putToken (c : ℕ)
  | joinFlight (c : ℕ)
  | publishFlight (c f : ℕ) (result : Result K V)
  | waitFlight (f : ℕ)
  | tierGet (k : K)
  | tierSet (k : K) (item : Item V) (ttl : ℤ)
  | tierDelete (k : K)
  | tierClear
  | remoteGet (k : K)
  | remoteSet (k : K) (v : V) (ttl : ℤ)
  | remoteDelete (k : K)
  | scan (cursor : ℕ)
  | unlink (keys : List K)
  | loadBegin (k : K)
  | loadEnd (k : K) (since : ℕ)

/-- The answer to an action. Contexts answer whether they have ended; operations of the local
tier whether they have succeeded. -/
@[reducible] def Ans : Act K V → Type
  | .ctxErr => Bool
  | .now => ℤ
  | .acquireHealthy => Acquired
  | .tryAcquireHealthy => TryLease
  | .acquireMaintenance => Bool
  | .issueTicket _ => Bool
  | .release => Unit
  | .classify _ => Disposition
  | .generationValue => ℕ
  | .beginRepair _ _ => Option RepairStart
  | .awaitDrained _ => Drained
  | .finishRepair _ _ => Bool
  | .block => Unit
  | .waitLocalState => Bool
  | .acquire _ => ℕ
  | .releaseRef _ _ => Unit
  | .enlist _ => Unit
  | .delist _ => Unit
  | .takeToken _ _ => Bool
  | .putToken _ => Unit
  | .joinFlight _ => ℕ × Bool
  | .publishFlight _ _ _ => Unit
  | .waitFlight _ => Option (Result K V)
  | .tierGet _ => Except Unit (Option (Item V))
  | .tierSet _ _ _ => Bool
  | .tierDelete _ => Bool
  | .tierClear => Bool
  | .remoteGet _ => Except (Err K) (Item V)
  | .remoteSet _ _ _ => Option (Err K)
  | .remoteDelete _ => Option (Err K)
  | .scan _ => Except (Err K) (List K × ℕ)
  | .unlink _ => Option (Err K)
  | .loadBegin _ => ℕ
  | .loadEnd _ _ => Except (Err K) (Item V)

/-- The loops: where a method goes on with the token of its key in hand. -/
inductive Place (K V : Type) where
  /-- Of `getRemoteCoordinated`. -/
  | get (k : K) (c : ℕ)
  /-- Of `runLoadLeader`. -/
  | load (k : K) (ttl : ℤ) (c f : ℕ)
  /-- Of `Set`. -/
  | set (k : K) (v : V) (ttl : ℤ) (c : ℕ)
  /-- Of `Delete`. -/
  | delete (k : K) (c : ℕ)
  /-- Of the `Clear` of the remote tier. -/
  | scan (generation cursor : ℕ) (progress : ClearProgress)

abbrev Program (K V ρ : Type) := Conc.Prog (Act K V) Ans (Place K V) ρ

abbrev act (a : Act K V) : Program K V (Ans a) := Conc.Prog.call a

/-! ### Tokens -/

def acquireToken (k : K) (c : ℕ) : Program K V Bool := do
  act (.enlist c)
  let taken ← act (.takeToken k c)
  if taken then return true
  else
    act (.delist c)
    return false

def releaseToken (c : ℕ) : Program K V Unit := do
  act (.delist c)
  act (.putToken c)

def finish (k : K) (c : ℕ) (tokenHeld : Bool) (r : Result K V) : Program K V (Result K V) := do
  if tokenHeld then
    releaseToken c
    act (.releaseRef k c)
    return r
  else
    act (.releaseRef k c)
    return r

/-- What `acquireHealthyForLeader` returns. -/
inductive Leader (K : Type) where
  | lease (generation : ℕ)
  | retry
  | failed (e : Err K) (tokenHeld : Bool)

def acquireHealthyForLeader (k : K) (c : ℕ) : Program K V (Leader K) := do
  let lease ← act .tryAcquireHealthy
  match lease with
  | .lease g => return .lease g
  | .blocked => return .failed localBlockedError true
  | .wait =>
    releaseToken c
    let ended ← act .waitLocalState
    if ended then return .failed .context false
    else
      let taken ← acquireToken k c
      if taken then return .retry else return .failed .context false

/-! ### The local tier -/

def invalidateLocalHeld (k : K) : Program K V (Option (Err K)) := do
  let held ← act .acquireMaintenance
  if held then
    let deleted ← act (.tierDelete k)
    act .release
    if deleted then return none
    else
      act .block
      return some (localBlockedCallError "invalidate-local" (some k)
        [localFailureError "delete-local" k])
  else
    act .block
    return some (localBlockedCallError "invalidate-local" (some k) [.context])

/-- `mandatoryInvalidateLocalHeld`, with a context of its own. -/
def mandatoryInvalidateLocalHeld (k : K) : Program K V (Option (Err K)) := invalidateLocalHeld k

/-- What is left of `populateLocalHeld` when storing has failed. -/
def populateFailed (k : K) (disposition : Disposition) : Program K V (Option (Err K)) := do
  let cleanup ← mandatoryInvalidateLocalHeld k
  match cleanup with
  | some e =>
    return some (localBlockedCallError "populate-local" (some k)
      [localFailureError "populate-local" k, e])
  | none =>
    if disposition = .blocked then
      return some (localBlockedCallError "populate-local" (some k)
        [localFailureError "populate-local" k])
    else return some (localFailureError "populate-local" k)

/-- What is left of it when the value has been stored too late. -/
def populateLate (k : K) (disposition : Disposition) : Program K V (Option (Err K)) := do
  let cleanup ← mandatoryInvalidateLocalHeld k
  match cleanup with
  | some e => return some e
  | none =>
    if disposition = .blocked then
      return some (localBlockedCallError "populate-local" (some k) [])
    else return none

def populateLocalHeld (k : K) (item : Item V) (ttl : ℤ) (expectedGeneration : ℕ) :
    Program K V (Option (Err K)) := do
  let lease ← act .tryAcquireHealthy
  match lease with
  | .blocked => return some (withCallOperation "populate-local" k localBlockedError)
  | .wait => return none
  | .lease g =>
    if g ≠ expectedGeneration then
      act .release
      return none
    else
      let ended ← act .ctxErr
      if ended then
        act .release
        return some .context
      else
        let stored ← act (.tierSet k item ttl)
        let disposition ← act (.classify expectedGeneration)
        act .release
        if stored then
          if disposition = .current then return none else populateLate k disposition
        else populateFailed k disposition

/-- `localGet`: the value, if there is one. -/
def localGet (k : K) : Program K V (Result K V) := do
  let lease ← act .acquireHealthy
  match lease with
  | .ended => return .error .context
  | .blocked => return .error (withCallOperation "get" k localBlockedError)
  | .lease g =>
    let value ← act (.tierGet k)
    let disposition ← act (.classify g)
    act .release
    match value with
    | .ok item =>
      if disposition = .blocked then
        return .error (localBlockedCallError "get" (some k) (if item.isSome then [] else [.miss]))
      else return .ok item
    | .error _ =>
      if disposition = .blocked then return .error (localBlockedCallError "get" (some k) [.tier])
      else return .error (localFailureError "get" k)

/-! ### Get -/

def normalizeWireTTL (ttl : ℤ) : ℤ :=
  if ttl = 0 then 0
  else if ttl < Go.millisecond then Go.millisecond
  else if ttl % Go.second = 0 then ttl
  else ttl - ttl % Go.millisecond

/-- `knownWriteLocalTTL`, with the two readings of the clock. -/
def knownWriteLocalTTL (localTTL remoteTTL started now : ℤ) : Option ℤ :=
  if remoteTTL = 0 then some localTTL
  else
    let remaining := Go.wrap64 (normalizeWireTTL remoteTTL - Go.timeSub now started)
    if remaining ≤ 0 then none else if localTTL < remaining then some localTTL else some remaining

/-- What a `TieredCache` is configured with, as far as its methods use it: which keys
`validateLogicalKey` accepts, the `LocalTTL` and the `ClearBatchSize`, which `Validate` has
checked. -/
structure Config (K : Type) where
  validKey : K → Bool
  localTTL : ℤ
  localTTL_pos : 0 < localTTL
  clearBatchSize : ℕ
  clearBatchSize_ok : 1 ≤ clearBatchSize ∧ clearBatchSize ≤ 1000

/-- What `DefaultConfig` gives as `LocalTTL` passes `Validate`. -/
theorem defaultLocalTTL_pos : 0 < 30 * Go.minute := by decide

/-- What it gives as `ClearBatchSize` does. -/
theorem defaultClearBatchSize_ok : 1 ≤ 100 ∧ 100 ≤ 1000 := by decide

/-- `DefaultConfig`, with all keys valid. -/
def defaultConfig : Config K where
  validKey := fun _ => true
  localTTL := 30 * Go.minute
  localTTL_pos := defaultLocalTTL_pos
  clearBatchSize := 100
  clearBatchSize_ok := defaultClearBatchSize_ok

/-- The loop of `getRemoteCoordinated`, from where the value has been fetched. -/
def getFetched (cfg : Config K) (k : K) (c generation : ℕ) (fetched : Except (Err K) (Item V)) :
    Program K V (Result K V) := do
  let disposition ← act (.classify generation)
  if disposition = .blocked then
    finish k c true (.error (localBlockedCallError "get" (some k)
      (match fetched with | .ok _ => [] | .error e => [e])))
  else
    match fetched with
    | .error e => finish k c true (.error e)
    | .ok item =>
      if disposition = .newerGeneration then finish k c true (.ok (some item))
      else
        let err ← populateLocalHeld k item cfg.localTTL generation
        match err with
        | some e => finish k c true (.error e)
        | none => finish k c true (.ok (some item))

/-- The loop of `getRemoteCoordinated`. -/
def getLoop (cfg : Config K) (k : K) (c : ℕ) : Program K V (Result K V) := do
  let leader ← acquireHealthyForLeader k c
  match leader with
  | .failed e tokenHeld => finish k c tokenHeld (.error (withCallOperation "get" k e))
  | .retry => .goto (.get k c)
  | .lease g =>
    let value ← act (.tierGet k)
    let disposition ← act (.classify g)
    match value with
    | .ok (some item) =>
      act .release
      if disposition = .blocked then
        finish k c true (.error (localBlockedCallError "get" (some k) []))
      else finish k c true (.ok (some item))
    | .error _ =>
      act .release
      if disposition = .blocked then
        finish k c true (.error (localBlockedCallError "get" (some k) [.tier]))
      else finish k c true (.error (localFailureError "get" k))
    | .ok none =>
      let admitted ← act (.issueTicket g)
      act .release
      if admitted then
        let ended ← act .ctxErr
        if ended then finish k c true (.error .context)
        else
          let fetched ← act (.remoteGet k)
          getFetched cfg k c g fetched
      else
        let disposition ← act (.classify g)
        if disposition = .blocked then
          finish k c true (.error (localBlockedCallError "get" (some k) []))
        else .goto (.get k c)

/-- `validateCall`, of an initialized cache. -/
def validateCall (cfg : Config K) (k : K) : Program K V (Option (Err K)) := do
  let ended ← act .ctxErr
  if ended then return some .context
  else if cfg.validKey k then return none else return some .invalidKey

def get (cfg : Config K) (k : K) : Program K V (Result K V) := do
  let invalid ← validateCall cfg k
  match invalid with
  | some e => return .error e
  | none =>
    let found ← localGet k
    match found with
    | .error e => return .error e
    | .ok (some item) => return .ok (some item)
    | .ok none =>
      let c ← act (.acquire k)
      let taken ← acquireToken k c
      if taken then .goto (.get k c) else finish k c false (.error .context)

/-! ### GetOrLoad -/

/-- The end of a `GetOrLoad` that leads a flight. -/
def publish (k : K) (c f : ℕ) (tokenHeld : Bool) (r : Result K V) : Program K V (Result K V) := do
  act (.publishFlight c f r)
  finish k c tokenHeld r

/-- `runLoadLeader` from where the loaded value has been written to Redis. -/
def loadWritten (cfg : Config K) (k : K) (ttl : ℤ) (c f generation : ℕ) (item : Item V)
    (started : ℤ) (err : Option (Err K)) : Program K V (Result K V) := do
  let disposition ← act (.classify generation)
  if disposition = .blocked then
    publish k c f true (.error (localBlockedCallError "get-or-load" (some k) err.toList))
  else
    match err with
    | some e => publish k c f true (.error e)
    | none =>
      if disposition = .newerGeneration then publish k c f true (.ok (some item))
      else if ttl = 0 then
        let err ← populateLocalHeld k item cfg.localTTL generation
        match err with
        | some e => publish k c f true (.error e)
        | none => publish k c f true (.ok (some item))
      else
        let now ← act .now
        match knownWriteLocalTTL cfg.localTTL ttl started now with
        | none => publish k c f true (.ok (some item))
        | some localTTL =>
          let err ← populateLocalHeld k item localTTL generation
          match err with
          | some e => publish k c f true (.error e)
          | none => publish k c f true (.ok (some item))

/-- `runLoadLeader` from where the loader has returned a value. -/
def loadLoaded (cfg : Config K) (k : K) (ttl : ℤ) (c f generation : ℕ) (item : Item V) :
    Program K V (Result K V) := do
  let lease ← act .tryAcquireHealthy
  match lease with
  | .blocked => publish k c f true (.error (withCallOperation "get-or-load" k localBlockedError))
  | .wait => publish k c f true (.ok (some item))
  | .lease g =>
    if g ≠ generation then
      act .release
      let disposition ← act (.classify generation)
      if disposition = .blocked then
        publish k c f true (.error (localBlockedCallError "get-or-load" (some k) []))
      else publish k c f true (.ok (some item))
    else
      let admitted ← act (.issueTicket g)
      act .release
      if admitted then
        let ended ← act .ctxErr
        if ended then publish k c f true (.error .context)
        else
          let started ← act .now
          let err ← act (.remoteSet k item.value ttl)
          loadWritten cfg k ttl c f generation item started err
      else
        let disposition ← act (.classify generation)
        if disposition = .blocked then
          publish k c f true (.error (localBlockedCallError "get-or-load" (some k) []))
        else publish k c f true (.ok (some item))

/-- `runLoadLeader` from where the loader is to be called. -/
def loadMissed (cfg : Config K) (k : K) (ttl : ℤ) (c f generation : ℕ) :
    Program K V (Result K V) := do
  let leader ← acquireHealthyForLeader k c
  match leader with
  | .failed e tokenHeld => publish k c f tokenHeld (.error (withCallOperation "get-or-load" k e))
  | .retry => .goto (.load k ttl c f)
  | .lease g =>
    if g ≠ generation then
      act .release
      .goto (.load k ttl c f)
    else
      let admitted ← act (.issueTicket g)
      act .release
      if admitted then
        let ended ← act .ctxErr
        if ended then publish k c f true (.error .context)
        else
          let since ← act (.loadBegin k)
          let loaded ← act (.loadEnd k since)
          let disposition ← act (.classify generation)
          if disposition = .blocked then
            publish k c f true (.error (localBlockedCallError "get-or-load" (some k)
              (match loaded with | .ok _ => [] | .error e => [e])))
          else
            match loaded with
            | .error e => publish k c f true (.error e)
            | .ok item =>
              if disposition = .newerGeneration then publish k c f true (.ok (some item))
              else loadLoaded cfg k ttl c f generation item
      else
        let disposition ← act (.classify generation)
        if disposition = .blocked then
          publish k c f true (.error (localBlockedCallError "get-or-load" (some k) []))
        else .goto (.load k ttl c f)

/-- `runLoadLeader` from where Redis has been asked. -/
def loadFetched (cfg : Config K) (k : K) (ttl : ℤ) (c f generation : ℕ)
    (fetched : Except (Err K) (Item V)) : Program K V (Result K V) := do
  let disposition ← act (.classify generation)
  if disposition = .blocked then
    publish k c f true (.error (localBlockedCallError "get-or-load" (some k)
      (match fetched with | .ok _ => [] | .error e => [e])))
  else
    match fetched with
    | .ok item =>
      if disposition = .newerGeneration then publish k c f true (.ok (some item))
      else
        let err ← populateLocalHeld k item cfg.localTTL generation
        match err with
        | some e => publish k c f true (.error e)
        | none => publish k c f true (.ok (some item))
    | .error .miss =>
      if disposition = .newerGeneration then .goto (.load k ttl c f)
      else loadMissed cfg k ttl c f generation
    | .error e => publish k c f true (.error e)

/-- The loop of `runLoadLeader`. -/
def loadLoop (cfg : Config K) (k : K) (ttl : ℤ) (c f : ℕ) : Program K V (Result K V) := do
  let leader ← acquireHealthyForLeader k c
  match leader with
  | .failed e tokenHeld => publish k c f tokenHeld (.error (withCallOperation "get-or-load" k e))
  | .retry => .goto (.load k ttl c f)
  | .lease g =>
    let value ← act (.tierGet k)
    let disposition ← act (.classify g)
    match value with
    | .ok (some item) =>
      act .release
      if disposition = .blocked then
        publish k c f true (.error (localBlockedCallError "get-or-load" (some k) []))
      else publish k c f true (.ok (some item))
    | .error _ =>
      act .release
      if disposition = .blocked then
        publish k c f true (.error (localBlockedCallError "get-or-load" (some k) [.tier]))
      else publish k c f true (.error (localFailureError "get-or-load" k))
    | .ok none =>
      let admitted ← act (.issueTicket g)
      act .release
      if admitted then
        let ended ← act .ctxErr
        if ended then publish k c f true (.error .context)
        else
          let fetched ← act (.remoteGet k)
          loadFetched cfg k ttl c f g fetched
      else
        let disposition ← act (.classify g)
        if disposition = .blocked then
          publish k c f true (.error (localBlockedCallError "get-or-load" (some k) []))
        else .goto (.load k ttl c f)

/-- `GetOrLoad`, with a loader. -/
def getOrLoad (cfg : Config K) (k : K) (ttl : ℤ) : Program K V (Result K V) := do
  let invalid ← validateCall cfg k
  match invalid with
  | some e => return .error e
  | none =>
    if ttl < 0 then return .error .invalidTTL
    else
      let found ← localGet k
      match found with
      | .error e => return .error e
      | .ok (some item) => return .ok (some item)
      | .ok none =>
        let c ← act (.acquire k)
        let joined ← act (.joinFlight c)
        if joined.2 then
          let taken ← acquireToken k c
          if taken then .goto (.load k ttl c joined.1)
          else publish k c joined.1 false (.error .context)
        else
          let result ← act (.waitFlight joined.1)
          finish k c false (result.getD (.error .context))

/-! ### Set and Delete -/

def mutationResult (operation : String) (k : K) (generation : ℕ)
    (primary cleanup : Option (Err K)) :
    Program K V (Option (Err K)) := do
  match cleanup with
  | some e => return some (localBlockedCallError operation (some k) (primary.toList ++ [e]))
  | none =>
    let disposition ← act (.classify generation)
    if disposition = .blocked then
      return some (localBlockedCallError operation (some k) primary.toList)
    else return primary

def mutationCleanup (operation : String) (k : K) (c generation : ℕ) (primary : Option (Err K)) :
    Program K V (Result K V) := do
  let cleanup ← mandatoryInvalidateLocalHeld k
  let err ← mutationResult operation k generation primary cleanup
  finish k c true (.ofErr err)

/-- `Set` from where the value has been written to Redis. -/
def setWritten (cfg : Config K) (k : K) (v : V) (ttl : ℤ) (c generation : ℕ) (started : ℤ)
    (remoteErr : Option (Err K)) : Program K V (Result K V) := do
  let disposition ← act (.classify generation)
  match remoteErr with
  | some e => mutationCleanup "set" k c generation (some e)
  | none =>
    let ended ← act .ctxErr
    if ended then mutationCleanup "set" k c generation (some .context)
    else if disposition = .blocked then mutationCleanup "set" k c generation none
    else if disposition = .newerGeneration then finish k c true (.ok none)
    else if ttl = 0 then
      let err ← populateLocalHeld k ⟨v, none⟩ cfg.localTTL generation
      finish k c true (.ofErr err)
    else
      let now ← act .now
      match knownWriteLocalTTL cfg.localTTL ttl started now with
      | none => finish k c true (.ok none)
      | some localTTL =>
        let err ← populateLocalHeld k ⟨v, none⟩ localTTL generation
        finish k c true (.ofErr err)

/-- The loop of `Set`, and what comes after it. -/
def setLoop (cfg : Config K) (k : K) (v : V) (ttl : ℤ) (c : ℕ) : Program K V (Result K V) := do
  let leader ← acquireHealthyForLeader k c
  match leader with
  | .failed e tokenHeld => finish k c tokenHeld (.error (withCallOperation "set" k e))
  | .retry => .goto (.set k v ttl c)
  | .lease g =>
    let admitted ← act (.issueTicket g)
    act .release
    if admitted then
      let ended ← act .ctxErr
      if ended then finish k c true (.error .context)
      else
        let started ← act .now
        let remoteErr ← act (.remoteSet k v ttl)
        setWritten cfg k v ttl c g started remoteErr
    else
      let disposition ← act (.classify g)
      if disposition = .blocked then
        finish k c true (.error (localBlockedCallError "set" (some k) []))
      else .goto (.set k v ttl c)

def set (cfg : Config K) (k : K) (v : V) (ttl : ℤ) : Program K V (Result K V) := do
  let invalid ← validateCall cfg k
  match invalid with
  | some e => return .error e
  | none =>
    if ttl < 0 then return .error .invalidTTL
    else
      let c ← act (.acquire k)
      let taken ← acquireToken k c
      if taken then .goto (.set k v ttl c) else finish k c false (.error .context)

/-- `Delete` from where the key has been deleted in Redis. -/
def deleteWritten (k : K) (c generation : ℕ) (remoteErr : Option (Err K)) :
    Program K V (Result K V) := do
  let cleanup ← mandatoryInvalidateLocalHeld k
  match remoteErr with
  | some e =>
    let err ← mutationResult "delete" k generation (some e) cleanup
    finish k c true (.ofErr err)
  | none =>
    let ended ← act .ctxErr
    let err ← mutationResult "delete" k generation (if ended then some .context else none) cleanup
    finish k c true (.ofErr err)

/-- The loop of `Delete`, and what comes after it. -/
def deleteLoop (k : K) (c : ℕ) : Program K V (Result K V) := do
  let leader ← acquireHealthyForLeader k c
  match leader with
  | .failed e tokenHeld => finish k c tokenHeld (.error (withCallOperation "delete" k e))
  | .retry => .goto (.delete k c)
  | .lease g =>
    let admitted ← act (.issueTicket g)
    act .release
    if admitted then
      let ended ← act .ctxErr
      if ended then finish k c true (.error .context)
      else
        let remoteErr ← act (.remoteDelete k)
        deleteWritten k c g remoteErr
    else
      let disposition ← act (.classify g)
      if disposition = .blocked then
        finish k c true (.error (localBlockedCallError "delete" (some k) []))
      else .goto (.delete k c)

def delete (cfg : Config K) (k : K) : Program K V (Result K V) := do
  let invalid ← validateCall cfg k
  match invalid with
  | some e => return .error e
  | none =>
    let c ← act (.acquire k)
    let taken ← acquireToken k c
    if taken then .goto (.delete k c) else finish k c false (.error .context)

/-! ### InvalidateLocal, ClearLocal and Clear -/

def invalidateLocal (cfg : Config K) (k : K) : Program K V (Result K V) := do
  let invalid ← validateCall cfg k
  match invalid with
  | some e => return .error e
  | none =>
    let c ← act (.acquire k)
    let taken ← acquireToken k c
    if taken then
      let err ← invalidateLocalHeld k
      finish k c true (.ofErr err)
    else
      act .block
      finish k c false (.error (localBlockedCallError "invalidate-local" (some k) [.context]))

/-- A repair from where no lease is out: the local tier is cleared. -/
def clearTier (lease : RepairLease) : Program K V (Option (Err K)) := do
  let cleared ← act .tierClear
  if cleared then
    let ended ← act .ctxErr
    let healed ← act (.finishRepair lease ended)
    if healed then return none
    else
      return some (localBlockedCallError "clear-local" none (if ended then [.context] else []))
  else
    let _ ← act (.finishRepair lease true)
    return some (localBlockedCallError "clear-local" none [.tier])

def clearBlocked (e : Err K) : Program K V (Option (Err K)) := do
  act .block
  return some (localBlockedCallError "clear-local" none [e])

/-- `beginRepairAtGeneration`, and the clearing of the local tier: `ClearLocal` and
`mandatoryClearLocal`. -/
def repair (kind : RepairKind) (expected : Option ℕ) : Program K V (Option (Err K)) := do
  let started ← act (.beginRepair kind expected)
  match started with
  | none => clearBlocked .context
  | some (.moved disposition) =>
    if disposition = .newerGeneration then return none
    else return some (localBlockedCallError "clear-local" none [])
  | some (.begun lease true) => clearTier lease
  | some (.begun lease false) =>
    let drained ← act (.awaitDrained lease)
    match drained with
    | .ok => clearTier lease
    | .lost => clearBlocked localBlockedError
    | .ended => clearBlocked .context

def clearLocal : Program K V (Result K V) := do
  let err ← repair .explicit none
  return .ofErr err

/-- `Clear` from where the remote tier has been cleared, or has failed to be. -/
def clearRemoteDone (generation : ℕ) (remoteErr : Option (Err K)) : Program K V (Result K V) := do
  let localErr ← repair .mandatory (some generation)
  match localErr with
  | some e => return .error (localBlockedCallError "clear" none (remoteErr.toList ++ [e]))
  | none => return .ofErr remoteErr

def partialClear (progress : ClearProgress) (e : Err K) : Err K :=
  .cache "clear" .partialClear none (some progress) [e]

/-- The batches of a page of the scan are unlinked, one after the other: the progress, and
the error that has ended it. -/
def unlinkAll (progress : ClearProgress) :
    List (List K) → Program K V (ClearProgress × Option (Err K))
  | [] => return (progress, none)
  | batch :: batches => do
    let ended ← act .ctxErr
    if ended then return (progress, some .context)
    else
      let err ← act (.unlink batch)
      match err with
      | some e => return (progress, some e)
      | none =>
        unlinkAll { progress with unlinkedBatches := progress.unlinkedBatches + 1 } batches

/-- The keys of a page in batches of at most a size; the fuel is the number of keys. -/
def batches (size : ℕ) : ℕ → List K → List (List K)
  | 0, _ => []
  | _ + 1, [] => []
  | n + 1, k :: ks => (k :: ks).take size :: batches size n ((k :: ks).drop size)

/-- The loop of `ValueCache.Clear`, and what comes after it. -/
def scanLoop (cfg : Config K) (generation cursor : ℕ) (progress : ClearProgress) :
    Program K V (Result K V) := do
  let ended ← act .ctxErr
  if ended then clearRemoteDone generation (some (partialClear progress .context))
  else
    let page ← act (.scan cursor)
    match page with
    | .error e => clearRemoteDone generation (some (partialClear progress e))
    | .ok (keys, next) =>
      let done ← unlinkAll { progress with scannedKeys := progress.scannedKeys + keys.length }
        (batches cfg.clearBatchSize keys.length keys)
      match done with
      | (progress, some e) => clearRemoteDone generation (some (partialClear progress e))
      | (progress, none) =>
        if next = 0 then clearRemoteDone generation none
        else .goto (.scan generation next progress)

def clear : Program K V (Result K V) := do
  let ended ← act .ctxErr
  if ended then return .error .context
  else
    let generation ← act .generationValue
    let ended ← act .ctxErr
    if ended then clearRemoteDone generation (some .context)
    else .goto (.scan generation 0 ⟨0, 0⟩)

/-! ### What the actions do -/

structure Shared (K V : Type) where
  state : LocalState
  registry : Registry K (Result K V)
  tier : K → Option (Item V)
  remote : K → Option V
  moved : ℕ
  /-- When it moved to the generation of the last repair that has succeeded. -/
  healed : ℕ
  taken : K → ℕ

def Shared.new (tier : K → Option (Item V)) (remote : K → Option V) : Shared K V :=
  ⟨.new, .new, tier, remote, 0, 0, fun _ => 0⟩

inductive Choice (K V : Type) where
  | ok
  | ended
  | fail (applied : Bool)
  | time (t : ℤ)
  | loaded (v : V)
  | scanned (keys : List K) (next : ℕ)

inductive Env (K V : Type) where
  | expire (k : K)
  /-- A value in Redis expires, or another process writes or deletes it. -/
  | remote (k : K) (v : Option V)

variable [DecidableEq K]

def Shared.setState (s : Shared K V) (now : ℕ) (state : LocalState) : Shared K V :=
  { s with
    state := state
    moved := if state.generation = s.state.generation then s.moved else now }

def Shared.tierOp (s : Shared K V) (tier : K → Option (Item V)) :
    Choice K V → Option (Bool × Shared K V)
  | .ok => some (true, { s with tier := tier })
  | .fail applied => some (false, if applied then { s with tier := tier } else s)
  | _ => none

def Shared.remoteOp (s : Shared K V) (remote : K → Option V) :
    Choice K V → Option (Option (Err K) × Shared K V)
  | .ok => some (none, { s with remote := remote })
  | .fail applied => some (some .remote, if applied then { s with remote := remote } else s)
  | .ended => some (some .context, s)
  | _ => none

def without (remote : K → Option V) (keys : List K) (k : K) : Option V :=
  if k ∈ keys then none else remote k

/-- **What an action does**, at a time and with a choice of the environment. -/
def exec (now : ℕ) (s : Shared K V) : (a : Act K V) → Choice K V → Option (Ans a × Shared K V)
  | .ctxErr, .ok => some (false, s)
  | .ctxErr, .ended => some (true, s)
  | .now, .time t => some (t, s)
  | .acquireHealthy, .ended => some (.ended, s)
  | .acquireHealthy, .ok =>
    match s.state.tryAcquireHealthy with
    | (state, .lease g) => some (.lease g, s.setState now state)
    | (_, .blocked) => some (.blocked, s)
    | (_, .wait) => none
  | .tryAcquireHealthy, .ok =>
    some (s.state.tryAcquireHealthy.2, s.setState now s.state.tryAcquireHealthy.1)
  | .acquireMaintenance, .ended => some (false, s)
  | .acquireMaintenance, .ok =>
    s.state.acquireMaintenance.map fun state => (true, s.setState now state)
  | .issueTicket g, .ok => some (s.state.issueTicket g, s)
  | .release, .ok => s.state.release.map fun state => ((), s.setState now state)
  | .classify g, .ok => some (s.state.classify g, s)
  | .generationValue, .ok => some (s.state.generation, s)
  | .beginRepair _ _, .ended => some (none, s)
  | .beginRepair kind expected, .ok =>
    (s.state.beginRepair kind expected).map fun r => (some r.2, s.setState now r.1)
  | .awaitDrained lease, .ok =>
    (s.state.awaitDrained lease).map fun ok => (if ok then .ok else .lost, s)
  | .awaitDrained lease, .ended => some (.ended, s.setState now (s.state.abandonRepair lease))
  | .finishRepair lease failed, .ok =>
    some ((s.state.finishRepair lease failed).2,
      { s.setState now (s.state.finishRepair lease failed).1 with
        healed := if (s.state.finishRepair lease failed).2 then s.moved else s.healed })
  | .block, .ok => some ((), s.setState now s.state.block)
  | .waitLocalState, .ok => some (false, s)
  | .waitLocalState, .ended => some (true, s)
  | .acquire k, .ok =>
    some ((s.registry.acquire k).2, { s with registry := (s.registry.acquire k).1 })
  | .releaseRef k c, .ok =>
    (s.registry.release k c).map fun registry => ((), { s with registry := registry })
  | .enlist c, .ok =>
    (s.registry.enlist c).map fun registry => ((), { s with registry := registry })
  | .delist c, .ok =>
    (s.registry.delist c).map fun registry => ((), { s with registry := registry })
  | .takeToken _ _, .ended => some (false, s)
  | .takeToken k c, .ok =>
    (s.registry.takeToken c).map fun registry =>
      (true, { s with registry := registry, taken := update s.taken k now })
  | .putToken c, .ok =>
    (s.registry.putToken c).map fun registry => ((), { s with registry := registry })
  | .joinFlight c, .ok =>
    (s.registry.joinFlight c).map fun r => (r.2, { s with registry := r.1 })
  | .publishFlight c f result, .ok =>
    (s.registry.publishFlight c f result).map fun registry => ((), { s with registry := registry })
  | .waitFlight f, .ended => some (s.registry.published f, s)
  | .waitFlight f, .ok => (s.registry.published f).map fun result => (some result, s)
  | .tierGet k, .ok => some (.ok (s.tier k), s)
  | .tierGet _, .fail _ => some (.error (), s)
  | .tierSet k item _, c => s.tierOp (update s.tier k (some item)) c
  | .tierDelete k, c => s.tierOp (update s.tier k none) c
  | .tierClear, c => s.tierOp (fun _ => none) c
  | .remoteGet k, .ok =>
    match s.remote k with
    | some v => some (.ok ⟨v, some now⟩, s)
    | none => some (.error .miss, s)
  | .remoteGet _, .fail _ => some (.error .remote, s)
  | .remoteGet _, .ended => some (.error .context, s)
  | .remoteSet k v _, c => s.remoteOp (update s.remote k (some v)) c
  | .remoteDelete k, c => s.remoteOp (update s.remote k none) c
  | .scan _, .scanned keys next => some (.ok (keys, next), s)
  | .scan _, .fail _ => some (.error .remote, s)
  | .unlink keys, c => s.remoteOp (without s.remote keys) c
  | .loadBegin _, .ok => some (now, s)
  | .loadEnd _ since, .loaded v => some (.ok ⟨v, some since⟩, s)
  | .loadEnd _ _, .fail _ => some (.error .loader, s)
  | .loadEnd _ _, .ended => some (.error .context, s)
  | _, _ => none

def Env.apply (s : Shared K V) : Env K V → Option (Shared K V)
  | .expire k => some { s with tier := update s.tier k none }
  | .remote k v => some { s with remote := update s.remote k v }

/-! ### What an action can do -/

/-- **What an action can do**, with its answer: the same as `Bluetape.RedisValue.exec`, case by
case, without the choices. -/
inductive Did (now : ℕ) (s : Shared K V) : (a : Act K V) → Ans a → Shared K V → Prop
  | ctxErr (ended : Bool) : Did now s .ctxErr ended s
  | now (t : ℤ) : Did now s .now t s
  | acquireEnded : Did now s .acquireHealthy .ended s
  | acquireBlocked : Did now s .acquireHealthy .blocked s
  | acquireHealthy (hphase : s.state.phase = .healthy) :
      Did now s .acquireHealthy (.lease s.state.generation)
        { s with state := { s.state with active := s.state.active + 1 } }
  | tryLease (hphase : s.state.phase = .healthy) :
      Did now s .tryAcquireHealthy (.lease s.state.generation)
        { s with state := { s.state with active := s.state.active + 1 } }
  | tryWait (hphase : s.state.phase = .repairing) : Did now s .tryAcquireHealthy .wait s
  | tryBlocked : Did now s .tryAcquireHealthy .blocked s
  | maintenanceEnded : Did now s .acquireMaintenance false s
  | maintenance (hphase : s.state.phase ≠ .repairing) :
      Did now s .acquireMaintenance true
        { s with state := { s.state with active := s.state.active + 1 } }
  | issueTicket (g : ℕ) : Did now s (.issueTicket g) (s.state.issueTicket g) s
  | release (hactive : 0 < s.state.active) :
      Did now s .release () { s with state := { s.state with active := s.state.active - 1 } }
  | classify (g : ℕ) : Did now s (.classify g) (s.state.classify g) s
  | generationValue : Did now s .generationValue s.state.generation s
  | beginEnded (kind : RepairKind) (expected : Option ℕ) :
      Did now s (.beginRepair kind expected) none s
  | beginMoved (kind : RepairKind) (g : ℕ) (hphase : s.state.phase ≠ .repairing)
      (hne : s.state.generation ≠ g) :
      Did now s (.beginRepair kind (some g)) (some (.moved (s.state.classify g))) s
  | begun (kind : RepairKind) (expected : Option ℕ) (origin : RepairOrigin)
      (hphase : s.state.phase ≠ .repairing) :
      Did now s (.beginRepair kind expected)
        (some (.begun ⟨s.state.epoch + 1, origin, kind⟩ (decide (s.state.active = 0))))
        { s with
          state := ⟨.repairing, origin, s.state.generation + 1, s.state.active, s.state.epoch + 1⟩
          moved := now }
  | drained (lease : RepairLease) (hactive : s.state.active = 0) :
      Did now s (.awaitDrained lease) .ok s
  | drainLost (lease : RepairLease) : Did now s (.awaitDrained lease) .lost s
  | drainEnded (lease : RepairLease) :
      Did now s (.awaitDrained lease) .ended { s with state := s.state.abandonRepair lease }
  | healed (lease : RepairLease) (hcur : s.state.Current lease) :
      Did now s (.finishRepair lease false) true
        { s with
          state := { s.state with phase := .healthy, origin := .fromHealthy }
          healed := s.moved }
  | notHealed (lease : RepairLease) (failed : Bool) :
      Did now s (.finishRepair lease failed) false { s with state := s.state.abandonRepair lease }
  | blocked (hphase : s.state.phase ≠ .blocked) :
      Did now s .block ()
        { s with
          state := ⟨.blocked, .fromBlocked, s.state.generation + 1, s.state.active,
            s.state.epoch + 1⟩
          moved := now }
  | blockedAlready : Did now s .block () s
  | waitLocalState (ended : Bool) : Did now s .waitLocalState ended s
  | acquire (k : K) :
      Did now s (.acquire k) (s.registry.acquire k).2
        { s with registry := (s.registry.acquire k).1 }
  | releaseRef (k : K) (c : ℕ) (r : Registry K (Result K V))
      (hr : s.registry.release k c = some r) :
      Did now s (.releaseRef k c) () { s with registry := r }
  | enlist (c : ℕ) (r : Registry K (Result K V)) (hr : s.registry.enlist c = some r) :
      Did now s (.enlist c) () { s with registry := r }
  | delist (c : ℕ) (r : Registry K (Result K V)) (hr : s.registry.delist c = some r) :
      Did now s (.delist c) () { s with registry := r }
  | takeEnded (k : K) (c : ℕ) : Did now s (.takeToken k c) false s
  | takeToken (k : K) (c : ℕ) (r : Registry K (Result K V)) (hr : s.registry.takeToken c = some r) :
      Did now s (.takeToken k c) true { s with registry := r, taken := update s.taken k now }
  | putToken (c : ℕ) (r : Registry K (Result K V)) (hr : s.registry.putToken c = some r) :
      Did now s (.putToken c) () { s with registry := r }
  | joinFlight (c f : ℕ) (leader : Bool) (r : Registry K (Result K V))
      (hr : s.registry.joinFlight c = some (r, f, leader)) :
      Did now s (.joinFlight c) (f, leader) { s with registry := r }
  | publishFlight (c f : ℕ) (result : Result K V) (r : Registry K (Result K V))
      (hr : s.registry.publishFlight c f result = some r) :
      Did now s (.publishFlight c f result) () { s with registry := r }
  | waitFlight (f : ℕ) (result : Option (Result K V)) : Did now s (.waitFlight f) result s
  | tierGet (k : K) (found : Except Unit (Option (Item V))) : Did now s (.tierGet k) found s
  | tierSet (k : K) (item : Item V) (ttl : ℤ) :
      Did now s (.tierSet k item ttl) true { s with tier := update s.tier k (some item) }
  | tierSetFailed (k : K) (item : Item V) (ttl : ℤ) (applied : Bool) :
      Did now s (.tierSet k item ttl) false
        { s with tier := if applied then update s.tier k (some item) else s.tier }
  | tierDelete (k : K) :
      Did now s (.tierDelete k) true { s with tier := update s.tier k none }
  | tierDeleteFailed (k : K) (applied : Bool) :
      Did now s (.tierDelete k) false
        { s with tier := if applied then update s.tier k none else s.tier }
  | tierClear : Did now s .tierClear true { s with tier := fun _ => none }
  | tierClearFailed (applied : Bool) :
      Did now s .tierClear false { s with tier := if applied then fun _ => none else s.tier }
  | fetched (k : K) (v : V) (hv : s.remote k = some v) :
      Did now s (.remoteGet k) (.ok ⟨v, some now⟩) s
  | notFetched (k : K) (e : Err K) : Did now s (.remoteGet k) (.error e) s
  | remoteSet (k : K) (v : V) (ttl : ℤ) (e : Option (Err K)) (remote : K → Option V) :
      Did now s (.remoteSet k v ttl) e { s with remote := remote }
  | remoteDelete (k : K) (e : Option (Err K)) (remote : K → Option V) :
      Did now s (.remoteDelete k) e { s with remote := remote }
  | scan (cursor : ℕ) (page : Except (Err K) (List K × ℕ)) : Did now s (.scan cursor) page s
  | unlink (keys : List K) (e : Option (Err K)) (remote : K → Option V) :
      Did now s (.unlink keys) e { s with remote := remote }
  | loadBegin (k : K) : Did now s (.loadBegin k) now s
  | loaded (k : K) (since : ℕ) (v : V) : Did now s (.loadEnd k since) (.ok ⟨v, some since⟩) s
  | notLoaded (k : K) (since : ℕ) (e : Err K) : Did now s (.loadEnd k since) (.error e) s

section

variable {now : ℕ} {s s' : Shared K V}

omit [DecidableEq K] in
theorem setState_of_generation_eq {state : LocalState}
    (h : state.generation = s.state.generation) :
    s.setState now state = { s with state := state } := by
  simp [Shared.setState, h]

omit [DecidableEq K] in
theorem setState_of_generation_ne {state : LocalState}
    (h : state.generation ≠ s.state.generation) :
    s.setState now state = { s with state := state, moved := now } := by
  simp [Shared.setState, h]

variable {c : Choice K V}

omit [DecidableEq K] in
theorem tierOp_eq_some {tier : K → Option (Item V)} {ok : Bool}
    (h : s.tierOp tier c = some (ok, s')) :
    (ok = true ∧ s' = { s with tier := tier }) ∨
      ∃ applied : Bool, ok = false ∧ s' = { s with tier := if applied then tier else s.tier } := by
  cases c with
  | ok =>
    cases h
    exact .inl ⟨rfl, rfl⟩
  | fail applied =>
    cases h
    cases applied
    · exact .inr ⟨false, rfl, rfl⟩
    · exact .inr ⟨true, rfl, rfl⟩
  | _ => exact nomatch h

omit [DecidableEq K] in
theorem remoteOp_eq_some {remote : K → Option V} {e : Option (Err K)}
    (h : s.remoteOp remote c = some (e, s')) : ∃ remote', s' = { s with remote := remote' } := by
  cases c with
  | ok =>
    cases h
    exact ⟨remote, rfl⟩
  | fail applied =>
    cases h
    cases applied
    · exact ⟨s.remote, rfl⟩
    · exact ⟨remote, rfl⟩
  | ended =>
    cases h
    exact ⟨s.remote, rfl⟩
  | _ => exact nomatch h

/-- **An action does one of these things.** -/
theorem did_of_exec {a : Act K V} {x : Ans a} (h : exec now s a c = some (x, s')) :
    Did now s a x s' := by
  cases a with
  | acquireHealthy =>
    cases c with
    | ok =>
      rcases s.state.tryAcquireHealthy_cases with ⟨hphase, heq⟩ | ⟨-, heq⟩ | heq <;>
        simp only [exec, heq] at h <;> cases h
      · rw [setState_of_generation_eq (by rfl)]
        exact .acquireHealthy hphase
      · exact .acquireBlocked
    | ended =>
      cases h
      exact .acquireEnded
    | _ => cases h
  | tryAcquireHealthy =>
    cases c with
    | ok =>
      cases h
      rcases s.state.tryAcquireHealthy_cases with ⟨hphase, heq⟩ | ⟨hphase, heq⟩ | heq
      · rw [heq, setState_of_generation_eq (by rfl)]
        exact .tryLease hphase
      · rw [heq, setState_of_generation_eq rfl]
        exact .tryWait hphase
      · rw [heq, setState_of_generation_eq rfl]
        exact .tryBlocked
    | _ => cases h
  | acquireMaintenance =>
    cases c with
    | ok =>
      obtain ⟨state, hstate, ⟨⟩⟩ := map_eq_some_iff.mp h
      obtain ⟨hphase, rfl⟩ := acquireMaintenance_eq_some hstate
      rw [setState_of_generation_eq (by rfl)]
      exact .maintenance hphase
    | ended =>
      cases h
      exact .maintenanceEnded
    | _ => cases h
  | release =>
    cases c with
    | ok =>
      obtain ⟨state, hstate, ⟨⟩⟩ := map_eq_some_iff.mp h
      obtain ⟨hactive, rfl⟩ := release_eq_some hstate
      rw [setState_of_generation_eq (by rfl)]
      exact .release hactive
    | _ => cases h
  | beginRepair kind expected =>
    cases c with
    | ok =>
      obtain ⟨r, hr, ⟨⟩⟩ := map_eq_some_iff.mp h
      obtain ⟨hphase, ⟨g, rfl, hne, rfl⟩ | ⟨origin, rfl⟩⟩ := beginRepair_eq_some hr
      · rw [setState_of_generation_eq rfl]
        exact .beginMoved _ g hphase hne
      · rw [setState_of_generation_ne (Nat.succ_ne_self _)]
        exact .begun _ _ origin hphase
    | ended =>
      cases h
      exact .beginEnded _ _
    | _ => cases h
  | awaitDrained lease =>
    cases c with
    | ok =>
      obtain ⟨ok, hok, ⟨⟩⟩ := map_eq_some_iff.mp h
      cases ok with
      | true => exact .drained lease (awaitDrained_eq_some hok rfl)
      | false => exact .drainLost lease
    | ended =>
      cases h
      rw [setState_of_generation_eq (abandonRepair_generation _ _)]
      exact .drainEnded _
    | _ => cases h
  | finishRepair lease failed =>
    cases c with
    | ok =>
      rcases s.state.finishRepair_cases lease failed with ⟨hcur, rfl, heq⟩ | heq <;>
        simp only [exec, heq] at h <;> cases h
      · rw [setState_of_generation_eq (by rfl)]
        exact .healed lease hcur
      · rw [setState_of_generation_eq (abandonRepair_generation _ _)]
        exact .notHealed lease failed
    | _ => cases h
  | block =>
    cases c with
    | ok =>
      cases h
      rcases s.state.block_cases with heq | ⟨hphase, heq⟩
      · rw [heq, setState_of_generation_eq rfl]
        exact .blockedAlready
      · rw [heq, setState_of_generation_ne (Nat.succ_ne_self _)]
        exact .blocked hphase
    | _ => cases h
  | joinFlight =>
    cases c with
    | ok =>
      obtain ⟨⟨r, f, leader⟩, hr, ⟨⟩⟩ := map_eq_some_iff.mp h
      exact .joinFlight _ f leader r hr
    | _ => cases h
  | waitFlight =>
    cases c with
    | ok =>
      obtain ⟨r, hr, ⟨⟩⟩ := map_eq_some_iff.mp h
      exact .waitFlight _ _
    | ended =>
      cases h
      exact .waitFlight _ _
    | _ => cases h
  | takeToken k n =>
    cases c with
    | ok =>
      obtain ⟨r, hr, ⟨⟩⟩ := map_eq_some_iff.mp h
      constructor
      exact hr
    | ended =>
      cases h
      constructor
    | _ => cases h
  | releaseRef | enlist | delist | putToken | publishFlight =>
    cases c with
    | ok =>
      obtain ⟨r, hr, ⟨⟩⟩ := map_eq_some_iff.mp h
      constructor
      exact hr
    | _ => cases h
  | tierSet | tierDelete | tierClear =>
    rcases tierOp_eq_some h with ⟨rfl, rfl⟩ | ⟨applied, rfl, rfl⟩
    · constructor
    · constructor
  | remoteGet k =>
    cases c with
    | ok =>
      simp only [exec] at h
      split at h <;> cases h
      next v hv => exact .fetched k v hv
      · exact .notFetched k _
    | fail | ended =>
      cases h
      exact .notFetched k _
    | _ => cases h
  | remoteSet | remoteDelete | unlink =>
    obtain ⟨remote, rfl⟩ := remoteOp_eq_some h
    constructor
  | _ => cases c <;> cases h <;> constructor

end

/-! ### The cache -/

inductive Op (K V : Type) where
  | get (k : K)
  | getOrLoad (k : K) (ttl : ℤ)
  | set (k : K) (v : V) (ttl : ℤ)
  | delete (k : K)
  | invalidateLocal (k : K)
  | clearLocal
  | clear
  deriving DecidableEq, Repr

def Op.program (cfg : Config K) : Op K V → Program K V (Result K V)
  | .get k => RedisValue.get cfg k
  | .getOrLoad k ttl => RedisValue.getOrLoad cfg k ttl
  | .set k v ttl => RedisValue.set cfg k v ttl
  | .delete k => RedisValue.delete cfg k
  | .invalidateLocal k => RedisValue.invalidateLocal cfg k
  | .clearLocal => RedisValue.clearLocal
  | .clear => RedisValue.clear

def Place.program (cfg : Config K) : Place K V → Program K V (Result K V)
  | .get k c => getLoop cfg k c
  | .load k ttl c f => loadLoop cfg k ttl c f
  | .set k v ttl c => setLoop cfg k v ttl c
  | .delete k c => deleteLoop k c
  | .scan generation cursor progress => scanLoop cfg generation cursor progress

/-- **The cache.** -/
def machine (cfg : Config K) :
    Conc.Machine (Act K V) Ans (Place K V) (Result K V) (Shared K V) (Env K V) (Op K V)
      (Choice K V) where
  exec := exec
  env := Env.apply
  start := Op.program cfg
  body := Place.program cfg

end Bluetape.RedisValue
