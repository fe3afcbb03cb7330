import Bluetape.Go
import Bluetape.Lock.RedisMutex

/-!
# The stampede cache

A model of `cache/rediscoord`. Processes that miss a key in their own caches agree through Redis on
one of them, the **owner**, which runs its loader: it takes the lock on the key, publishes what it
has loaded in a second key, the **result**, under the token of its lock, and releases the lock. The
others wait. A waiter reads the token in the lock, and takes a result only if it bears that token.

The lock is the mutex of `Bluetape.Lock.RedisMutex`, as it stands there: a process that calls
`TryLock` starts a call of it (`tryAcquire`), and the steps of that call are steps of the whole
(`Label.redis`). The owner's `SET` of the result is a command of its own, which may be executed long
after it was sent, when the lock has expired and somebody else owns it.

A process makes one call at a time. Its own cache answers with what it has, and that may change at
any time (`Act.cache`): an entry expires, or somebody stores one.

What the waiters get is in `Bluetape.Cache.StampedeWaiters`.
-/

namespace Bluetape.Stampede

open Go GoString

variable {V : Type}

/-! ### Options -/

/-- `Options`, without the client, the cache and the codec; durations in nanoseconds. -/
structure Options where
  namespace_ : Text
  lockTTL : ℤ
  resultTTL : ℤ
  pollInterval : ℤ
  maxResultBytes : ℤ
  deriving DecidableEq, Repr

structure Config where
  namespace_ : Text
  lockTTL : ℤ
  resultTTL : ℤ
  pollInterval : ℤ
  maxResultBytes : ℤ
  keyPrefix : Text
  deriving DecidableEq, Repr

def normalizeDuration (value fallback : ℤ) (name : String) : Except String ℤ :=
  if value < 0 then .error (name ++ " must not be negative")
  else if value = 0 then .ok fallback
  else .ok value

def normalizeOptions (o : Options) : Except String Config := do
  if o.maxResultBytes < 0 then throw "max result bytes must not be negative"
  if o.namespace_ ≠ [] ∧ trimSpace o.namespace_ = [] then throw "namespace must not be blank"
  let ns := if o.namespace_ = [] then ascii "default" else o.namespace_
  let lockTTL ← normalizeDuration o.lockTTL 5000000000 "lock ttl"
  let resultTTL ← normalizeDuration o.resultTTL 1000000000 "result ttl"
  let pollInterval ← normalizeDuration o.pollInterval 10000000 "poll interval"
  return ⟨ns, lockTTL, resultTTL, pollInterval, o.maxResultBytes,
    ascii "bluetape:cache:coord" ++ ascii ":" ++ ns⟩

def Config.lockKey (c : Config) (key : Text) : Text := c.keyPrefix ++ ascii ":lock:" ++ key

/-- The options of the mutex that `tryAcquire` makes: it draws a token for each call. -/
def Config.mutex (c : Config) (key : Text) : RedisLock.Options := ⟨c.lockKey key, c.lockTTL, []⟩

def mutexes (cfgs : List Config) (key : Text) : List RedisLock.Options :=
  cfgs.map fun c => c.mutex key

/-! ### Results -/

/-- Why `GetOrLoad` fails. -/
inductive Failure where
  | cancelled
  | loader
  | marshal (text : String)
  | unmarshal (text : String)
  /-- A Redis command, or `TryLock`, has failed. -/
  | command
  /-- `redislock.New` does not accept the options. -/
  | lock (text : String)
  | expired
  | notReleased
  /-- `ErrResultTooLarge`. -/
  | tooLarge
  | emptyToken
  | nilPayload
  deriving DecidableEq, Repr

/-- `Codec`; a payload may be nil. -/
structure Codec (V : Type) where
  marshal : V → Except String (Option Text)
  unmarshal : Text → Except String V

/-- What the codec makes of a value, on the way through the result key. -/
def Codec.Carries (codec : Codec V) (v w : V) : Prop :=
  ∃ payload, codec.marshal v = .ok (some payload) ∧ codec.unmarshal payload = .ok w

/-- `resultEnvelope`. Its JSON text is decoded to the envelope that it was made from. -/
structure Envelope where
  version : ℤ
  token : Text
  payload : Option Text
  deriving DecidableEq, Repr

/-- The length of the JSON text: the token is in quotes and needs no escapes, the payload is in
base 64. -/
def textSize (token payload : Text) : ℕ :=
  21 + (token.length + 2) + 12 + (payload.length + 2) / 3 * 4 + 2

def Envelope.size (env : Envelope) : ℕ := textSize env.token (env.payload.getD [])

def encodeResult (token : Text) : Option Text → Except Failure Envelope
  | none => if token = [] then .error .emptyToken else .error .nilPayload
  | some payload => if token = [] then .error .emptyToken else .ok ⟨1, token, some payload⟩

def encodedResultSize (token : Text) : Option Text → Except Failure ℕ
  | none => if token = [] then .error .emptyToken else .error .nilPayload
  | some payload =>
    if token = [] then .error .emptyToken
    else if maxInt64 < textSize token payload then .error .tooLarge
    else .ok (textSize token payload)

/-- `storeResult`, up to the `SET`. -/
def storeResult (c : Config) (token : Text) (payload : Option Text) : Except Failure Envelope :=
  if 0 < c.maxResultBytes then
    match encodedResultSize token payload with
    | .error f => .error f
    | .ok size =>
      if c.maxResultBytes < size then .error .tooLarge
      else
        match encodeResult token payload with
        | .error f => .error f
        | .ok env => if c.maxResultBytes < env.size then .error .tooLarge else .ok env
  else encodeResult token payload

def decodeResult (env : Envelope) (expectedToken : Text) : Option Text :=
  if expectedToken = [] then none
  else if env.version ≠ 1 ∨ env.token ≠ expectedToken then none
  else env.payload

/-- `readOwnerResult`, up to the local cache: a value, nothing, or an error. -/
def readOwnerResult (c : Config) (codec : Codec V) (result : Option Envelope) (ownerToken : Text) :
    Except Failure (Option V) :=
  match result with
  | none => .ok none
  | some env =>
    if 0 < c.maxResultBytes ∧ c.maxResultBytes < env.size then .error .tooLarge
    else
      match decodeResult env ownerToken with
      | none => .ok none
      | some payload =>
        match codec.unmarshal payload with
        | .error text => .error (.unmarshal text)
        | .ok v => .ok (some v)

/-! ### Processes -/

inductive Origin where
  | cached
  | loaded
  | waited
  deriving DecidableEq, Repr

/-- What `GetOrLoad` returns. -/
inductive Outcome (V : Type) where
  | value (v : V) (origin : Origin)
  | failure (f : Failure)
  deriving DecidableEq, Repr

/-- Where a call of `GetOrLoad` is. A call of the lock or of its release is named by its index. -/
inductive Phase (V : Type) where
  | idle
  | called
  | missed
  /-- In `tryAcquire`. -/
  | locking (i : ℕ)
  /-- In `reconcileUnlock`, with the release that is under way, for the first time or again. -/
  | reconciling (i : ℕ) (release : Option ℕ) (again : Bool)
  /-- An owner, in `GetOrLoad` of its own cache. -/
  | loading (i : ℕ)
  | running (i : ℕ)
  /-- Before `ensureOwner`. -/
  | obtained (i : ℕ) (v : V) (origin : Origin) (payload : Option Text)
  /-- Before `storeResult`. -/
  | storing (i : ℕ) (v : V) (origin : Origin) (payload : Option Text)
  /-- In the `SET` of the result, with the last attempt. -/
  | sent (i : ℕ) (v : V) (origin : Origin) (n : ℕ)
  /-- In `unlock`, and what is returned then. -/
  | unlocking (i : ℕ) (release : Option ℕ) (outcome : Outcome V)
  /-- In `waitForOwnerResult`, before the `GET` of the owner; the empty token is that of nobody. -/
  | asking (token : Text)
  | resting (token : Text)
  /-- Before `readOwnerResult`. -/
  | polling (token : Text)
  /-- The lock is free: before the last `readOwnerResult`. -/
  | again (token : Text)
  /-- In `readOwnerResult`, before `GetOrLoad` of its own cache. -/
  | filling (token : Text) (v : V)
  | returned (outcome : Outcome V)
  deriving DecidableEq, Repr

structure Proc (V : Type) where
  cached : Option V
  phase : Phase V
  deriving DecidableEq, Repr

/-- A `SET` of the result, and whether it was executed. -/
structure Write where
  envelope : Envelope
  done : Bool
  deriving DecidableEq, Repr

/-- The lock, the result key, the commands for it, and the processes. -/
structure Sys (V : Type) where
  lock : RedisLock.Sys
  result : Option Envelope
  writes : List Write
  procs : List (Proc V)
  deriving DecidableEq, Repr

def Sys.new (n : ℕ) : Sys V := ⟨.new, none, [], List.replicate n ⟨none, .idle⟩⟩

/-! ### Steps -/

inductive Act (V : Type) where
  | call
  /-- `Get` of its own cache. -/
  | look
  | cache (v : Option V)
  | giveUp
  | tryAcquire (data : Text)
  | locked
  | reconcile
  | reconciled
  | load
  | loaded (result : Option V)
  | ensure (arrived : Bool)
  | store
  | resend
  | stored (arrived : Bool)
  | unlock
  | unlocked
  | ask (arrived : Bool)
  | tick (ended : Bool)
  | read (arrived : Bool)
  | fill
  deriving DecidableEq, Repr

inductive Label (V : Type) where
  | proc (p : ℕ) (act : Act V)
  | redis (l : RedisLock.Label)
  /-- A `SET` of the result is executed. -/
  | write (n : ℕ)
  | expireResult
  deriving DecidableEq, Repr

def Sys.setProc (y : Sys V) (p : ℕ) (pr : Proc V) : Sys V := { y with procs := y.procs.set p pr }

def Sys.setPhase (y : Sys V) (p : ℕ) (pr : Proc V) (phase : Phase V) : Sys V :=
  y.setProc p { pr with phase }

/-- What `TryLock` has returned, if it has. -/
def Sys.locked (y : Sys V) (i : ℕ) : Option RedisLock.Outcome :=
  y.lock.calls[i]?.bind fun c =>
    match c.phase with
    | .returned o => some o
    | _ => none

/-- What `Unlock` has returned, if it has. -/
def Sys.released (y : Sys V) (u : ℕ) : Option RedisLock.Released :=
  y.lock.releases[u]?.bind fun r =>
    match r.phase with
    | .returned o => some o
    | _ => none

def Sys.token (y : Sys V) (i : ℕ) : Text := (y.lock.calls[i]?.map fun c => c.lease.token).getD []

/-- What `TryLock` leads to. -/
def afterLock (i : ℕ) : RedisLock.Outcome → Phase V
  | .acquired => .loading i
  | .unknown => .reconciling i none false
  | .notAcquired => .asking []
  | .ended => .returned (.failure .cancelled)
  | .failed => .returned (.failure .command)

/-- What a value leads to that an owner has, once it is encoded. -/
def afterLoad (codec : Codec V) (i : ℕ) (v : V) (origin : Origin) : Phase V :=
  match codec.marshal v with
  | .error text => .unlocking i none (.failure (.marshal text))
  | .ok payload => .obtained i v origin payload

/-- What is returned after `unlock`. -/
def afterUnlock (outcome : Outcome V) : RedisLock.Released → Outcome V
  | .deleted true => outcome
  | .deleted false =>
    match outcome with
    | .value _ _ => .failure .notReleased
    | .failure f => .failure f
  | _ =>
    match outcome with
    | .value _ _ => .failure .command
    | .failure f => .failure f

/-- What `readOwnerResult` leads to, with what comes next if there is no result. -/
def afterRead (token : Text) (next : Phase V) : Except Failure (Option V) → Phase V
  | .error f => .returned (.failure f)
  | .ok none => next
  | .ok (some v) => .filling token v

section Step

variable (cfgs : List Config) (key : Text) (codec : Codec V)

/-- `Unlock` is called for a lease: the lock, and the index of the release. -/
def startUnlock (y : Sys V) (i : ℕ) : Option (RedisLock.Sys × ℕ) :=
  (RedisLock.step (mutexes cfgs key) y.lock (.call i .unlock)).map fun lock =>
    (lock, y.lock.releases.length)

/-- A call of the lock, or of a release, is begun by a process. -/
def begins : RedisLock.Label → Bool
  | .tryLock _ _ => true
  | .call _ .unlock => true
  | _ => false

/-- **The steps of a process.** -/
def stepProc (c : Config) (y : Sys V) (p : ℕ) (pr : Proc V) : Act V → Option (Sys V)
  | .call =>
    match pr.phase with
    | .idle => some (y.setPhase p pr .called)
    | .returned _ => some (y.setPhase p pr .called)
    | _ => none
  | .look =>
    match pr.phase, pr.cached with
    | .called, some v => some (y.setPhase p pr (.returned (.value v .cached)))
    | .called, none => some (y.setPhase p pr .missed)
    | _, _ => none
  | .cache v => some (y.setProc p { pr with cached := v })
  | .giveUp =>
    match pr.phase with
    | .called => some (y.setPhase p pr (.returned (.failure .cancelled)))
    | .missed => some (y.setPhase p pr (.returned (.failure .cancelled)))
    | .filling _ _ => some (y.setPhase p pr (.returned (.failure .cancelled)))
    | _ => none
  | .tryAcquire data =>
    match pr.phase with
    | .missed =>
      match (c.mutex key).normalize with
      | .error text => some (y.setPhase p pr (.returned (.failure (.lock text))))
      | .ok _ =>
        (RedisLock.step (mutexes cfgs key) y.lock (.tryLock p data)).map fun lock =>
          { y.setPhase p pr (.locking y.lock.calls.length) with lock }
    | _ => none
  | .locked =>
    match pr.phase with
    | .locking i => (y.locked i).map fun o => y.setPhase p pr (afterLock i o)
    | _ => none
  | .reconcile =>
    match pr.phase with
    | .reconciling i none again =>
      (startUnlock cfgs key y i).map fun s =>
        { y.setPhase p pr (.reconciling i (some s.2) again) with lock := s.1 }
    | _ => none
  | .reconciled =>
    match pr.phase with
    | .reconciling i (some u) again =>
      (y.released u).map fun o =>
        y.setPhase p pr (if o = .unknown ∧ again = false then .reconciling i none true
          else .returned (.failure .command))
    | _ => none
  | .load =>
    match pr.phase, pr.cached with
    | .loading i, some v => some (y.setPhase p pr (afterLoad codec i v .cached))
    | .loading i, none => some (y.setPhase p pr (.running i))
    | _, _ => none
  | .loaded result =>
    match pr.phase, result with
    | .running i, some v => some (y.setProc p ⟨some v, afterLoad codec i v .loaded⟩)
    | .running i, none => some (y.setPhase p pr (.unlocking i none (.failure .loader)))
    | _, _ => none
  | .ensure arrived =>
    match pr.phase with
    | .obtained i v origin payload =>
      some (y.setPhase p pr
        (if arrived = false then .unlocking i none (.failure .command)
        else if RedisLock.reconcileOwner (y.token i) y.lock.entry then .storing i v origin payload
        else .unlocking i none (.failure .expired)))
    | _ => none
  | .store =>
    match pr.phase with
    | .storing i v origin payload =>
      match storeResult c (y.token i) payload with
      | .error f => some (y.setPhase p pr (.unlocking i none (.failure f)))
      | .ok env =>
        some { y.setPhase p pr (.sent i v origin y.writes.length) with
          writes := y.writes ++ [⟨env, false⟩] }
    | _ => none
  | .resend =>
    match pr.phase with
    | .sent i v origin n =>
      y.writes[n]?.map fun w =>
        { y.setPhase p pr (.sent i v origin y.writes.length) with
          writes := y.writes ++ [⟨w.envelope, false⟩] }
    | _ => none
  | .stored arrived =>
    match pr.phase with
    | .sent i v origin n =>
      if arrived = false then some (y.setPhase p pr (.unlocking i none (.failure .command)))
      else if y.writes[n]?.any Write.done then
        some (y.setPhase p pr (.unlocking i none (.value v origin)))
      else none
    | _ => none
  | .unlock =>
    match pr.phase with
    | .unlocking i none outcome =>
      (startUnlock cfgs key y i).map fun s =>
        { y.setPhase p pr (.unlocking i (some s.2) outcome) with lock := s.1 }
    | _ => none
  | .unlocked =>
    match pr.phase with
    | .unlocking _ (some u) outcome =>
      (y.released u).map fun o => y.setPhase p pr (.returned (afterUnlock outcome o))
    | _ => none
  | .ask arrived =>
    match pr.phase with
    | .asking token =>
      if arrived = false then some (y.setPhase p pr (.returned (.failure .command)))
      else
        match y.lock.entry with
        | some e => some (y.setPhase p pr (.resting e.token))
        | none => some (y.setPhase p pr (if token ≠ [] then .again token else .missed))
    | _ => none
  | .tick ended =>
    match pr.phase with
    | .resting token =>
      some (y.setPhase p pr
        (if ended then .returned (.failure .cancelled)
        else if token ≠ [] then .polling token
        else .asking token))
    | _ => none
  | .read arrived =>
    match pr.phase with
    | .polling token =>
      some (y.setPhase p pr
        (if arrived = false then .returned (.failure .command)
        else afterRead token (.asking token) (readOwnerResult c codec y.result token)))
    | .again token =>
      some (y.setPhase p pr
        (if arrived = false then .returned (.failure .command)
        else afterRead token .missed (readOwnerResult c codec y.result token)))
    | _ => none
  | .fill =>
    match pr.phase, pr.cached with
    | .filling _ _, some v => some (y.setPhase p pr (.returned (.value v .cached)))
    | .filling _ v, none => some (y.setProc p ⟨some v, .returned (.value v .waited)⟩)
    | _, _ => none

/-- **One step.** -/
def step (y : Sys V) : Label V → Option (Sys V)
  | .proc p act =>
    cfgs[p]?.bind fun c => y.procs[p]?.bind fun pr => stepProc cfgs key codec c y p pr act
  | .redis l =>
    if begins l then none
    else (RedisLock.step (mutexes cfgs key) y.lock l).map fun lock => { y with lock }
  | .write n =>
    match y.writes[n]? with
    | some ⟨env, false⟩ =>
      some { y with result := some env, writes := y.writes.set n ⟨env, true⟩ }
    | _ => none
  | .expireResult => some { y with result := none }

end Step

abbrev Ev (V : Type) : Type := Lts.Event (Sys V) (Label V)

end Bluetape.Stampede
