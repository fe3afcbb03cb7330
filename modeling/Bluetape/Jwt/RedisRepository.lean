import Bluetape.Go
import Bluetape.Jwt.Provider
import Bluetape.Library.Run
import Bluetape.Library.SortedSet
import Mathlib.Algebra.Order.Ring.Int

/-!
# The Redis repository

The keys of a namespace are in four Redis keys: the kid of the current one, a hash of payloads, a
sorted set of the kids by their times of creation, and a hash that nothing reads. Storing a key is
one script (`Store.put`): it writes the payload, its score and the pointer, and evicts all but the
newest ones. `Rotate` looks at the current key with another script, creates a key if that one is
missing or cannot be used, and stores it if the pointer is still where it was (`rotateCAS`);
`ForcedRotate` stores its key always.

Scripts and commands are steps, and any number of calls run at once; a command may fail, and the
answer to one may be lost. The four Redis keys expire together, at any time. A key that is created
has a kid of its own. Decoding the payload of a key gives the key back, unless the payload is longer
than `maxKeyBytes`; how long it is, and whether there is one, are parameters.
-/

namespace Bluetape.Jwt.Redis

open GoString Go

/-! ### Options and errors -/

inductive Failure where
  /-- The error of the context, of `create` or of a command. -/
  | ended
  /-- `OptionError`. -/
  | option
  /-- `ErrKeyNotFound`. -/
  | keyNotFound
  /-- `ErrInvalidKey`. -/
  | invalidKey
  deriving DecidableEq, Repr

/-- The options that matter, as `normalize` leaves them, with what is known of payloads. -/
structure Config where
  capacity : ℕ
  keyTTL : ℤ
  retentionLeeway : ℤ
  maxKeyBytes : ℕ
  /-- The error of `encodeRedisKeyChain`. -/
  encodeError : KeyChain → Option Failure
  payloadLength : KeyChain → ℕ
  /-- `minRepositorySize`. -/
  two_le_capacity : 2 ≤ capacity

/-- `tonumber` of the decimal text of an integer: the float that is nearest, which is an integer. -/
def tonumber (n : ℤ) : ℤ :=
  let unit := 2 ^ (n.natAbs.log2 + 1 - 53)
  let q := n.natAbs / unit
  let r := n.natAbs % unit
  let q' := if unit < 2 * r ∨ (2 * r = unit ∧ q % 2 = 1) then q + 1 else q
  n.sign * (q' * unit : ℕ)

/-- The score of a key: `CreatedAt().UnixNano()`, as the script reads it. -/
def score (key : KeyChain) : ℤ := tonumber (wrap64 key.createdAt)

/-! ### What is in Redis -/

/-- The keys of Redis that are read: the current kid, the key chains, and their kids in the order
of creation. -/
structure Store where
  current : Option Text
  keys : Keyed.Table KeyChain.kid
  order : SortedSet Text

/-- Nothing has been stored, or everything was deleted. -/
def Store.empty : Store := ⟨none, .empty _, .empty⟩

/-- The loop over `newest`: the kids to keep. -/
def keepNewest (candidate : Text) (limit : ℕ) : List Text → ℕ → List Text → List Text
  | [], _, keep => keep
  | kid :: newest, retained, keep =>
    if kid ≠ candidate ∧ retained < limit then
      keepNewest candidate limit newest (retained + 1) (kid :: keep)
    else keepNewest candidate limit newest retained keep

/-- `HDEL` and `ZREM`. -/
def Store.drop (s : Store) (kid : Text) : Store :=
  { s with keys := s.keys.delete fun k => decide (k.kid = kid), order := s.order.remove kid }

/-- The loop over `stale`. -/
def evict (keep : List Text) : List Text → Store → Store
  | [], s => s
  | kid :: stale, s => evict keep stale (if kid ∈ keep then s else s.drop kid)

/-- The scripts from `ZCARD` on. -/
def Store.trim (cfg : Config) (s : Store) (candidate : Text) : Store :=
  if cfg.capacity < s.order.card then
    evict (keepNewest candidate (cfg.capacity - 1) s.order.revRange 0 [candidate]) s.order.range s
  else s

/-- **The key is stored**, and is the current one. -/
def Store.put (cfg : Config) (s : Store) (key : KeyChain) : Store :=
  ({ current := some key.kid, keys := s.keys.put key
     order := s.order.add (score key) key.kid } : Store).trim cfg key.kid

/-- `redisCurrentScript`: the payload, and the kid. -/
def currentScript (s : Store) : Option KeyChain × Text :=
  match s.current with
  | none => (none, [])
  | some kid => if kid = [] then (none, []) else (s.keys.get kid, kid)

/-- **`redisRotateCASScript`**: the payload that is returned, and what is stored then. -/
def rotateCAS (cfg : Config) (s : Store) (observed : Text) (key : KeyChain) : KeyChain × Store :=
  match s.current with
  | none => (key, s.put cfg key)
  | some kid =>
    if kid ≠ [] ∧ kid ≠ observed then
      match s.keys.get kid with
      | some cur => (cur, s)
      | none => (key, s.put cfg key)
    else (key, s.put cfg key)

/-! ### What Go does with it -/

/-- `decodeRedisKeyChain`, and the test of the time after it. -/
def decode (cfg : Config) (key : KeyChain) (now : ℤ) : Except Failure KeyChain :=
  if cfg.maxKeyBytes < cfg.payloadLength key then .error .invalidKey
  else if key.expired now then .error .invalidKey
  else .ok key

def findPayload (cfg : Config) (s : Store) (kid : Text) (now : ℤ) : Except Failure KeyChain :=
  match s.keys.get kid with
  | none => .error .keyNotFound
  | some key => decode cfg key now

def zeroTime : ℤ := -62135596800000000000

def validateKeyTTL (cfg : Config) (key : KeyChain) : Option Failure :=
  if cfg.keyTTL ≤ 0 then none
  else
    let required :=
      wrap64 (timeSub (key.expiresAt.getD zeroTime) key.createdAt + cfg.retentionLeeway)
    if required ≤ 0 then some .invalidKey
    else if cfg.keyTTL < required then some .option
    else none

/-- `prepareStorePayload`; `create` may have returned nil. -/
def prepareStorePayload (cfg : Config) (key : Option KeyChain) (now : ℤ) :
    Except Failure KeyChain :=
  match key with
  | none => .error .invalidKey
  | some key =>
    if key.expired now then .error .invalidKey
    else
      match validateKeyTTL cfg key with
      | some f => .error f
      | none =>
        match cfg.encodeError key with
        | some f => .error f
        | none => .ok key

/-! ### Calls -/

inductive Kind where
  | current
  | find (kid : Text)
  | rotate
  | forcedRotate
  | deleteAll
  deriving DecidableEq, Repr

inductive Phase where
  | begun
  /-- `Current` has the pointer. -/
  | named (kid : Text)
  /-- `Rotate` has found no key that can be used; `ForcedRotate` has not looked. -/
  | creating (observed : Text)
  | storing (observed : Text) (key : KeyChain)
  | returned (r : Except Failure (Option KeyChain))
  deriving DecidableEq

structure Call where
  kind : Kind
  now : ℤ
  phase : Phase

structure Sys where
  store : Store
  calls : List Call
  created : List KeyChain

def Sys.new : Sys := ⟨.empty, [], []⟩

inductive Act where
  /-- `GET` of `Current`. -/
  | get
  | hget
  /-- `redisCurrentScript`. -/
  | observe
  /-- `create`, up to the script. -/
  | create (key : Option KeyChain)
  /-- `redisRotateCASScript` or `redisStoreScript`; is the answer lost? -/
  | store (lost : Bool)
  /-- `DEL`. -/
  | delete (lost : Bool)
  | fail
  deriving DecidableEq

inductive Label where
  | call (kind : Kind) (now : ℤ)
  | act (i : ℕ) (a : Act)
  | expire
  deriving DecidableEq

def Sys.setPhase (y : Sys) (i : ℕ) (c : Call) (phase : Phase) : Sys :=
  { y with calls := y.calls.set i { c with phase := phase } }

def returns : Except Failure KeyChain → Phase
  | .error f => .returned (.error f)
  | .ok key => .returned (.ok (some key))

/-- What `Rotate` makes of the current key. -/
def observe (cfg : Config) (s : Store) (now : ℤ) : Phase :=
  match currentScript s with
  | (none, kid) => .creating kid
  | (some key, kid) =>
    match decode cfg key now with
    | .error _ => .creating kid
    | .ok key => .returned (.ok (some key))

/-- The script that stores, the answer to it, and Redis afterwards. -/
def store (cfg : Config) (s : Store) (kind : Kind) (observed : Text) (key : KeyChain) :
    KeyChain × Store :=
  match kind with
  | .rotate => rotateCAS cfg s observed key
  | _ => (key, s.put cfg key)

/-- **The steps of a call.** -/
def stepCall (cfg : Config) (y : Sys) (i : ℕ) (c : Call) : Act → Option Sys
  | .get =>
    match c.kind, c.phase with
    | .current, .begun =>
      match y.store.current with
      | none => some (y.setPhase i c (.returned (.error .keyNotFound)))
      | some kid => some (y.setPhase i c (.named kid))
    | _, _ => none
  | .hget =>
    match c.kind, c.phase with
    | .current, .named kid => some (y.setPhase i c (returns (findPayload cfg y.store kid c.now)))
    | .find kid, .begun =>
      some (y.setPhase i c (returns (if validKID kid then findPayload cfg y.store kid c.now
        else .error .keyNotFound)))
    | _, _ => none
  | .observe =>
    match c.kind, c.phase with
    | .rotate, .begun => some (y.setPhase i c (observe cfg y.store c.now))
    | _, _ => none
  | .create key =>
    match c.phase with
    | .creating observed =>
      if ∀ k ∈ key, validKID k.kid = true ∧ k.kid ∉ y.created.map KeyChain.kid then
        match prepareStorePayload cfg key c.now with
        | .error f =>
          some { y.setPhase i c (.returned (.error f)) with created := key.toList ++ y.created }
        | .ok k =>
          some { y.setPhase i c (.storing observed k) with created := key.toList ++ y.created }
      else none
    | _ => none
  | .store lost =>
    match c.phase with
    | .storing observed key =>
      some { y.setPhase i c (if lost then .returned (.error .ended)
          else returns (decode cfg (store cfg y.store c.kind observed key).1 c.now)) with
        store := (store cfg y.store c.kind observed key).2 }
    | _ => none
  | .delete lost =>
    match c.kind, c.phase with
    | .deleteAll, .begun =>
      some { y.setPhase i c (if lost then .returned (.error .ended) else .returned (.ok none)) with
        store := .empty }
    | _, _ => none
  | .fail =>
    match c.phase with
    | .returned _ => none
    | _ => some (y.setPhase i c (.returned (.error .ended)))

def Kind.begins : Kind → Phase
  | .forcedRotate => .creating []
  | _ => .begun

/-- **One step.** -/
def step (cfg : Config) (y : Sys) : Label → Option Sys
  | .call kind now => some { y with calls := y.calls ++ [⟨kind, now, kind.begins⟩] }
  | .act i a => y.calls[i]?.bind fun c => stepCall cfg y i c a
  | .expire => if 0 < cfg.keyTTL then some { y with store := .empty } else none

abbrev Ev : Type := Lts.Event Sys Label

end Bluetape.Jwt.Redis
