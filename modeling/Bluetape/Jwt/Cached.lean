import Bluetape.Jwt.Provider
import Bluetape.Library.Program

/-!
# The cached providers

`CachedProvider` and `CachedDistributedProvider` keep the `Reader` of a token that was accepted. A
parse that finds one asks only whether it has expired and whether its key is still there
(`revalidate`); otherwise the token is parsed in a flight that all who ask for the same key share
(`flight`), and what it returns is kept – unless the cache was cleared meanwhile, which a counter
tells. Deleting the keys and a forced rotation clear the cache, but they do not end the flights: who
comes later may still join one (`parseLoop`).

Both are the same programs over a repository whose calls are atomic and may fail; the repository of
a process is one that never fails. Every call to the cache, the repository, the clock and the
`singleflight` group is an action of its own, and so is a look at the context.

For the statements only, a reading of the clock also says when it took place, and the state keeps
what was there then (`World.seen`), all keys that were ever stored and the deletions.
-/

namespace Bluetape.Jwt

open GoString Conc

/-! ### The state -/

/-- Is the error one of the context? -/
inductive Failure where
  | context
  | other
  deriving DecidableEq

/-- A reader, and when the clock was read that it was checked against. -/
structure Checked where
  reader : Reader
  time : ℕ
  deriving DecidableEq

/-- What a flight is started with. -/
structure Launch where
  key : Text
  token : Text
  cfg : ParseConfig
  /-- `loadEpoch`. -/
  epoch : ℕ
  deriving DecidableEq

/-- What a check depends on. -/
structure Snapshot where
  keys : List KeyChain
  now : ℤ
  deriving DecidableEq

/-- **What the parse depends on**, and what is kept for the statements. -/
structure World where
  keys : List KeyChain
  now : ℤ
  used : List KeyChain
  seen : List (ℕ × Snapshot)
  /-- When all keys were deleted, and which had been stored before. -/
  wiped : List (ℕ × List KeyChain)
  started : List Launch

/-- The keys and the time, now. -/
def World.snapshot (w : World) : Snapshot := ⟨w.keys, w.now⟩

/-- What the calls share. -/
structure Shared where
  world : World
  cache : Text → Option Reader
  epoch : ℕ
  /-- `flights`: the flight that runs for each key. -/
  group : Text → Option ℕ
  taken : ℕ → Bool
  result : ℕ → Option (Except Failure Checked)

/-- Nothing is cached. -/
def Shared.new (now : ℤ) : Shared :=
  ⟨⟨[], now, [], [], [], []⟩, fun _ => none, 0, fun _ => none, fun _ => false, fun _ => none⟩

/-! ### Actions -/

/-- What a call does in one step. -/
inductive Action where
  /-- `ctx.Err`. -/
  | ctxErr
  | now
  | customNow
  /-- `Find` of the repository. -/
  | find (kid : Text) (now : ℤ)
  /-- `DeleteAll` of the repository. -/
  | deleteAll
  /-- `ForcedRotate` of the repository. -/
  | forcedRotate
  /-- `Get` of the cache. -/
  | get (key : Text)
  /-- `Delete` of the cache. -/
  | delete (key : Text)
  /-- `Set` of the cache under the mutex, if the epoch is the same. -/
  | setIfEpoch (key : Text) (r : Reader) (epoch : ℕ)
  /-- The next epoch and `Clear` of the cache, under the mutex. -/
  | clear
  /-- `epoch.Load`. -/
  | loadEpoch
  | doChan (l : Launch)
  | wait (id : ℕ)
  | forget (key : Text)
  | take (id : ℕ)
  | finish (id : ℕ) (result : Except Failure Checked)

/-- What `Get` returns. -/
inductive Lookup where
  | hit (r : Reader)
  | miss
  | failed
  deriving DecidableEq

/-- What is answered. -/
@[reducible] def Action.Answer : Action → Type
  | .ctxErr => Bool
  | .now => ℤ × ℕ
  | .customNow => ℤ
  | .find .. => Except Failure KeyChain
  | .deleteAll => Except Failure Unit
  | .forcedRotate => Except Failure Unit
  | .get _ => Lookup
  | .delete _ => Bool
  | .setIfEpoch .. => Bool
  | .clear => Bool
  | .loadEpoch => ℕ
  | .doChan _ => ℕ
  | .wait _ => Option (Except Failure Checked)
  | .forget _ => Unit
  | .take _ => Launch
  | .finish .. => Unit

/-- What the outside decides. -/
inductive Choice where
  | ok
  | fail (f : Failure) (effect : Bool)
  | time (now : ℤ)
  | store (key : KeyChain) (keys : List KeyChain)
  deriving DecidableEq

/-- What happens between the steps. -/
inductive Env where
  | tick (d : ℕ)
  | evict (key : Text)
  /-- A key is stored by someone else, or by a rotation that is not forced. -/
  | rotate (key : KeyChain) (keys : List KeyChain)
  | deleteAll
  deriving DecidableEq

namespace World

/-- A new key is stored, and others may be dropped. Its kid is new. -/
def rotate (w : World) (key : KeyChain) (keys : List KeyChain) : Option World :=
  if (∀ k ∈ w.used, k.kid ≠ key.kid) ∧ Rotates key w.keys keys then
    some { w with keys := keys, used := key :: w.used }
  else none

/-- The keys are deleted. -/
def wipe (w : World) (t : ℕ) : World :=
  { w with keys := [], wiped := (t, w.used) :: w.wiped }

/-- The state is noted. -/
def look (w : World) (t : ℕ) : World := { w with seen := (t, w.snapshot) :: w.seen }

/-- A flight is started. -/
def launch (w : World) (l : Launch) : World := { w with started := w.started ++ [l] }

end World

namespace Shared

/-- `delete` of the cache. -/
def deleteCached (s : Shared) (key : Text) : Shared :=
  { s with cache := fun k => if k = key then none else s.cache k }

/-- `set` of the cache. -/
def setCached (s : Shared) (key : Text) (r : Reader) : Shared :=
  { s with cache := fun k => if k = key then some r else s.cache k }

/-- `Forget` of the group. -/
def forget (s : Shared) (key : Text) : Shared :=
  { s with group := fun k => if k = key then none else s.group k }

/-- `DoChan`: the flight that runs for the key, or a new one. -/
def doChan (s : Shared) (l : Launch) : ℕ × Shared :=
  match s.group l.key with
  | some id => (id, s)
  | none =>
    let id := s.world.started.length
    (id, { s with
      world := s.world.launch l
      group := fun k => if k = l.key then some id else s.group k })

/-- A flight has returned: who waits gets the result, who comes later starts another. -/
def finish (s : Shared) (id : ℕ) (result : Except Failure Checked) : Shared :=
  { s with
    result := fun i => if i = id then some result else s.result i
    group := fun k => if s.group k = some id then none else s.group k }

end Shared

/-- The failure of a call, if the environment has chosen one. -/
def Choice.failure : Choice → Option Failure
  | .fail f _ => some f
  | _ => none

/-- Does a failed call take effect? -/
def Choice.effect : Choice → Bool
  | .fail _ effect => effect
  | _ => true

/-- **One action.** -/
def exec (t : ℕ) (s : Shared) (a : Action) (c : Choice) : Option (a.Answer × Shared) :=
  match a with
  | .ctxErr => some (c.failure.isSome, s)
  | .now => some ((s.world.now, t), { s with world := s.world.look t })
  | .customNow =>
    match c with
    | .time now => some (now, s)
    | _ => none
  | .find kid now =>
    match c.failure with
    | some f => some (.error f, s)
    | none =>
      match repoFind s.world.keys kid now with
      | some key => some (.ok key, s)
      | none => some (.error .other, s)
  | .deleteAll =>
    let s' := if c.effect then { s with world := s.world.wipe t } else s
    match c.failure with
    | some f => some (.error f, s')
    | none => some (.ok (), s')
  | .forcedRotate =>
    match c with
    | .store key keys => (s.world.rotate key keys).map fun w => (.ok (), { s with world := w })
    | .fail f _ => some (.error f, s)
    | _ => none
  | .get key =>
    match c.failure with
    | some _ => some (.failed, s)
    | none =>
      match s.cache key with
      | some r => some (.hit r, s)
      | none => some (.miss, s)
  | .delete key => some (c.failure.isNone, if c.effect then s.deleteCached key else s)
  | .setIfEpoch key r epoch =>
    if s.epoch = epoch then some (c.failure.isNone, if c.effect then s.setCached key r else s)
    else some (true, s)
  | .clear =>
    let s := { s with epoch := s.epoch + 1 }
    some (c.failure.isNone, if c.effect then { s with cache := fun _ => none } else s)
  | .loadEpoch => some (s.epoch, s)
  | .doChan l => some (s.doChan l)
  | .wait id =>
    match c.failure with
    | some _ => some (none, s)
    | none => (s.result id).map fun r => (some r, s)
  | .forget key => some ((), s.forget key)
  | .take id =>
    if s.taken id then none
    else (s.world.started[id]?).map fun l =>
      (l, { s with taken := fun i => decide (i = id) || s.taken i })
  | .finish id result => some ((), s.finish id result)

/-- What others do. -/
def env (s : Shared) : Env → Option Shared
  | .tick d => some { s with world := { s.world with now := s.world.now + d } }
  | .evict key => some (s.deleteCached key)
  | .rotate key keys => (s.world.rotate key keys).map fun w => { s with world := w }
  | .deleteAll => some { s with world := { s.world with keys := [] } }

/-! ### Programs -/

/-- The library, the provider and the options of the cache. -/
structure Setup where
  jws : Jws
  provider : Provider
  sha256 : Text → Text
  scope : CacheScope
  maxTTL : ℤ

/-- Where a token is cached. -/
def Setup.key (E : Setup) (cfg : ParseConfig) (token : Text) : Text :=
  cacheKey E.sha256 E.scope cfg token

/-- The loop of `parseWithCache`. -/
structure Loop where
  cfg : ParseConfig
  token : Text

/-- What is called. `fly` is the goroutine of a flight. -/
inductive Op where
  | parse (token : Text) (options : List (Option ParseOption))
  | forcedRotate
  | deleteKeyChains
  | clearCache
  | fly (id : ℕ)
  deriving DecidableEq

/-- What a call returns. -/
inductive Outcome where
  | parsed (result : Except Failure Checked)
  | ended (result : Except Failure Unit)
  deriving DecidableEq

/-- The calls. -/
abbrev Program := Prog Action Action.Answer Loop

/-- One action, as a program. -/
abbrev act (a : Action) : Program a.Answer := Prog.call a

section Programs

variable (E : Setup)

/-- The clock of a configuration. -/
def clock (cfg : ParseConfig) : Program (ℤ × ℕ) :=
  if cfg.customClock then do
    let now ← act .customNow
    return (now, 0)
  else act .now

/-- The fixed key, or the one that is found. -/
def keyOf (cfg : ParseConfig) (kid : Text) : Program (Except Failure KeyChain) :=
  match E.provider.fixedKey with
  | some key => if kid = [] ∨ kid = key.kid then return .ok key else return .error .other
  | none => do
    let reading ← clock cfg
    act (.find kid reading.1)

/-- `findKeyChain`. -/
def findKeyChain (kid : Text) : Program (Except Failure KeyChain) := keyOf E .default kid

/-- The claims of a token whose signature is right are checked. -/
def checkClaims (cfg : ParseConfig) (r : Reader) : Program (Except Failure Checked) := do
  let reading ← clock cfg
  if E.jws.validClaims cfg reading.1 r.claims then return .ok ⟨r, reading.2⟩
  else return .error .other

/-- `Parse` of the provider. -/
def parseToken (cfg : ParseConfig) (token : Text) : Program (Except Failure Checked) :=
  if token = [] then return .error .other
  else
    match (E.jws.decode token).filter (E.provider.accepts E.jws) with
    | none => return .error .other
    | some r => do
      let key ← keyOf E cfg r.kid
      match key with
      | .error f => return .error f
      | .ok k =>
        if E.provider.signedBy E.jws token k then checkClaims E cfg r else return .error .other

/-- A reader that is not valid any more is dropped from the cache. -/
def dropStale (key : Text) : Program (Except Failure (Option ℕ)) := do
  let deleted ← act (.delete key)
  if deleted then return .ok none else return .error .other

/-- `revalidateCachedReader`: when the reader was found to be valid, or that it is not. -/
def revalidate (key : Text) (r : Reader) : Program (Except Failure (Option ℕ)) := do
  let ended ← act .ctxErr
  if ended then return .error .context
  else
    let reading ← act .now
    if r.algorithm ≠ E.provider.algorithm ∨ r.isExpired reading.1 = true then dropStale key
    else
      let found ← findKeyChain E r.kid
      match found with
      | .error _ => dropStale key
      | .ok k =>
        if k.algorithm ≠ E.provider.algorithm ∨ k.algorithm ≠ r.algorithm ∨
            k.expired reading.1 = true then
          dropStale key
        else return .ok (some reading.2)

/-- `minPositiveDuration` of two. -/
def minPositiveDuration (first candidate : ℤ) : ℤ :=
  if candidate ≤ 0 then 0 else if candidate < first then candidate else first

/-- At most `maxTTL`, and not past the token or the key. -/
def cacheTTL (maxTTL now : ℤ) (r : Reader) (k : KeyChain) : ℤ :=
  let ttl := maxTTL
  let ttl := match r.claims.expiresAt with
    | some t => minPositiveDuration ttl (t - now)
    | none => ttl
  match k.expiresAt with
  | some t => minPositiveDuration ttl (t - now)
  | none => ttl

/-- How long a reader may be cached. -/
def readerTTL (r : Reader) : Program (Except Failure ℤ) := do
  let reading ← act .now
  let found ← findKeyChain E r.kid
  match found with
  | .error f => return .error f
  | .ok k =>
    if k.algorithm = E.provider.algorithm then return .ok (cacheTTL E.maxTTL reading.1 r k)
    else return .error .other

/-- What has been parsed is kept, unless there is no time left or the cache was cleared. -/
def keep (l : Launch) (c : Checked) : Program (Except Failure Checked) := do
  let ttl ← readerTTL E c.reader
  match ttl with
  | .error f => return .error f
  | .ok ttl =>
    if 0 < ttl then do
      let stored ← act (.setIfEpoch l.key c.reader l.epoch)
      if stored then return .ok c else return .error .other
    else return .ok c

/-- The part of a flight in which the token is parsed and kept. -/
def load (l : Launch) : Program (Except Failure Checked) := do
  let parsed ← parseToken E l.cfg l.token
  match parsed with
  | .error f => return .error f
  | .ok c => keep E l c

/-- What a flight does. -/
def flight (l : Launch) : Program (Except Failure Checked) := do
  let ended ← act .ctxErr
  if ended then return .error .context
  else
    let cached ← act (.get l.key)
    match cached with
    | .failed => return .error .other
    | .miss => load E l
    | .hit r =>
      let valid ← revalidate E l.key r
      match valid with
      | .error f => return .error f
      | .ok (some time) => return .ok ⟨r, time⟩
      | .ok none => load E l

/-- The loop of `parseWithCache`. -/
def parseLoop (l : Loop) : Program Outcome := do
  let epoch ← act .loadEpoch
  let id ← act (.doChan ⟨E.key l.cfg l.token, l.token, l.cfg, epoch⟩)
  let result ← act (.wait id)
  match result with
  | none => return .parsed (.error .context)
  | some (.ok c) => return .parsed (.ok c)
  | some (.error .other) => return .parsed (.error .other)
  | some (.error .context) => do
    -- The context of who started the flight has ended; who is left tries again.
    let ended ← act .ctxErr
    if ended then return .parsed (.error .context)
    else
      act (.forget (E.key l.cfg l.token))
      .goto l

/-- **`parseWithCache`.** -/
def parseWithCache (cfg : ParseConfig) (token : Text) : Program Outcome := do
  let cached ← act (.get (E.key cfg token))
  match cached with
  | .failed => return .parsed (.error .other)
  | .miss => .goto ⟨cfg, token⟩
  | .hit r =>
    let valid ← revalidate E (E.key cfg token) r
    match valid with
    | .error f => return .parsed (.error f)
    | .ok (some time) => return .parsed (.ok ⟨r, time⟩)
    | .ok none => .goto ⟨cfg, token⟩

/-- `ParseContext`. -/
def parseContext (token : Text) (options : List (Option ParseOption)) : Program Outcome := do
  let ended ← act .ctxErr
  if ended then return .parsed (.error .context)
  else
    if token = [] then return .parsed (.error .other)
    else
      match normalizeParseConfig options with
      | .error _ => return .parsed (.error .other)
      | .ok cfg =>
        if cfg.customClock then do
          let result ← parseToken E cfg token
          return .parsed result
        else parseWithCache E cfg token

/-- `ClearCache`. -/
def clearCache : Program Outcome := do
  let ended ← act .ctxErr
  if ended then return .ended (.error .context)
  else
    let cleared ← act .clear
    if cleared then return .ended (.ok ()) else return .ended (.error .other)

/-- `DeleteKeyChainsContext`. -/
def deleteKeyChains : Program Outcome := do
  let ended ← act .ctxErr
  if ended then return .ended (.error .context)
  else
    let deleted ← act .deleteAll
    match deleted with
    | .error f => return .ended (.error f)
    | .ok _ => clearCache

/-- `ForcedRotateContext`. -/
def forcedRotate : Program Outcome := do
  let ended ← act .ctxErr
  if ended then return .ended (.error .context)
  else
    if E.provider.fixedKey.isSome then return .ended (.error .other)
    else
      let rotated ← act .forcedRotate
      match rotated with
      | .error f => return .ended (.error f)
      | .ok _ => clearCache

/-- A flight on its own. -/
def fly (id : ℕ) : Program Outcome := do
  let l ← act (.take id)
  let result ← flight E l
  act (.finish id result)
  return .ended (.ok ())

/-- **The cached provider.** -/
def machine : Machine Action Action.Answer Loop Outcome Shared Env Op Choice where
  exec := exec
  env := env
  start
    | .parse token options => parseContext E token options
    | .forcedRotate => forcedRotate E
    | .deleteKeyChains => deleteKeyChains
    | .clearCache => clearCache
    | .fly id => fly E id
  body := parseLoop E

end Programs

end Bluetape.Jwt
