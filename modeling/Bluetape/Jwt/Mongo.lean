import Mathlib.Data.List.Sort
import Bluetape.Jwt.Provider
import Bluetape.Library.Program

/-!
# The Mongo repository

The keys of a namespace are documents of their own, and one more document names the current key.
Storing a key takes several commands: the key is written, the current document is moved to it –
always (`store`), or if it still names what was seen before (`storeCAS`) –, then the keys are listed
and all but the newest are deleted (`trim`). A call that has not moved the current document deletes
its key again.

Every command is an action of its own, and so is a look at the context. Any number of processes
run these programs at once. Decoding the payload of a key gives the key back, and whether a key can
be encoded is a parameter.
-/

namespace Bluetape.Jwt.Mongo

open GoString Conc

/-! ### The collection -/

/-- The collection. -/
structure Collection where
  /-- The documents of the kind `key`, with what their payloads are decoded to. -/
  keys : List KeyChain
  /-- The kid in the document of the kind `current`. -/
  current : Option Text
  used : List Text

/-- Without documents. -/
def Collection.new : Collection := ⟨[], none, []⟩

/-- Times are stored in milliseconds. -/
def bsonTime (t : ℤ) : ℤ := t / 1000000

/-- The order in which `trim` lists the keys: `created_at` down, then `kid` up. -/
def Listed (k k' : KeyChain) : Prop :=
  bsonTime k'.createdAt < bsonTime k.createdAt ∨
    (bsonTime k.createdAt = bsonTime k'.createdAt ∧ k.kid ≤ k'.kid)

instance instDecidableRelListed : DecidableRel Listed := fun k k' =>
  inferInstanceAs (Decidable (bsonTime k'.createdAt < bsonTime k.createdAt ∨
    (bsonTime k.createdAt = bsonTime k'.createdAt ∧ k.kid ≤ k'.kid)))

namespace Collection

/-- `FindOne` with `keyFilter`. -/
def findKey (s : Collection) (kid : Text) : Option KeyChain :=
  s.keys.find? fun k => decide (k.kid = kid)

/-- `UpdateOne` of `upsertKey`. -/
def upsertKey (s : Collection) (key : KeyChain) : Collection :=
  { s with keys := key :: s.keys.filter fun k => decide (k.kid ≠ key.kid) }

/-- `DeleteMany` with some kids, or `DeleteOne` with one. -/
def deleteKeys (s : Collection) (kids : List Text) : Collection :=
  { s with keys := s.keys.filter fun k => decide (k.kid ∉ kids) }

/-- The cursor of `trim`. -/
def listKeys (s : Collection) : List KeyChain := s.keys.insertionSort Listed

end Collection

/-! ### Actions -/

/-- The errors of the repository. -/
inductive Failure where
  /-- With the error of the context, or of `create`. -/
  | ended
  /-- `OptionError`. -/
  | option
  /-- `ErrKeyNotFound`. -/
  | keyNotFound
  /-- `ErrInvalidKey`. -/
  | invalidKey
  deriving DecidableEq

/-- What a call does in one step. -/
inductive Action where
  | requireContext
  /-- `FindOne` with `currentFilter`. -/
  | findCurrent
  /-- `FindOne` with `keyFilter`. -/
  | findKey (kid : Text)
  | create
  /-- `UpdateOne` of `upsertKey`. -/
  | upsertKey (key : KeyChain)
  /-- `UpdateOne` of `compareAndSetCurrent` if no current key was seen. -/
  | insertCurrent (kid : Text)
  /-- `UpdateOne` of `compareAndSetCurrent` if one was. -/
  | swapCurrent (observed kid : Text)
  /-- `UpdateOne` of `setCurrent`. -/
  | setCurrent (kid : Text)
  /-- `DeleteOne` of `deleteKey`. -/
  | deleteKey (kid : Text)
  /-- `Find` of `trim`. -/
  | listKeys
  /-- `DeleteMany` of `trim`. -/
  | deleteMany (kids : List Text)
  | sleep
  deriving DecidableEq

/-- What is answered. -/
@[reducible] def Action.Answer : Action → Type
  | .requireContext => Bool
  | .findCurrent => Option Text
  | .findKey _ => Option KeyChain
  | .create => Except Failure (Option KeyChain)
  | .insertCurrent _ => Bool
  | .swapCurrent .. => Bool
  | .listKeys => List KeyChain
  | .sleep => Bool
  | _ => Unit

/-- What the outside decides. -/
inductive Choice where
  | ok
  /-- The context has ended, or `create` has failed. -/
  | fail
  /-- What `create` returns. -/
  | created (key : Option KeyChain)
  deriving DecidableEq

/-- The context has not ended. -/
def Choice.isOk : Choice → Bool
  | .fail => false
  | _ => true

/-- What an action does. A key that is created has a kid that is valid and new. -/
def exec (s : Collection) (a : Action) (c : Choice) : Option (a.Answer × Collection) :=
  match a with
  | .requireContext => some (c.isOk, s)
  | .findCurrent => some (s.current, s)
  | .findKey kid => some (s.findKey kid, s)
  | .create =>
    match c with
    | .created (some key) =>
      if validKID key.kid = true ∧ key.kid ∉ s.used then
        some (.ok (some key), { s with used := key.kid :: s.used })
      else none
    | .created none => some (.ok none, s)
    | .fail => some (.error .ended, s)
    | .ok => none
  | .upsertKey key => some ((), s.upsertKey key)
  | .insertCurrent kid =>
    match s.current with
    | none => some (true, { s with current := some kid })
    | some _ => some (false, s)
  | .swapCurrent observed kid =>
    if s.current = some observed then some (true, { s with current := some kid })
    else some (false, s)
  | .setCurrent kid => some ((), { s with current := some kid })
  | .deleteKey kid => some ((), s.deleteKeys [kid])
  | .listKeys => some (s.listKeys, s)
  | .deleteMany kids => some ((), s.deleteKeys kids)
  | .sleep => some (c.isOk, s)

/-! ### Programs -/

/-- The options that are read. -/
structure Config where
  capacity : ℕ
  /-- The key can be encoded, and its payload is not longer than `maxKeyBytes`. -/
  storable : KeyChain → Bool

/-- The calls. -/
abbrev Program := Prog Action Action.Answer Empty

/-- One action, as a program. -/
abbrev act (a : Action) : Program a.Answer := Prog.call a

/-- The key, unless it has expired. -/
def findPayload (kid : Text) (now : ℤ) : Program (Except Failure KeyChain) := do
  let doc ← act (.findKey kid)
  match doc with
  | none => return .error .keyNotFound
  | some key => if key.expired now then return .error .invalidKey else return .ok key

/-- The kid of the current document. -/
def currentKID : Program (Except Failure Text) := do
  let doc ← act .findCurrent
  match doc with
  | none => return .error .keyNotFound
  | some kid => if kid = [] then return .error .keyNotFound else return .ok kid

/-- `currentPayload`: the key, and the kid that was seen. -/
def currentPayload (now : ℤ) : Program (Except Failure KeyChain × Text) := do
  let kid ← currentKID
  match kid with
  | .error f => return (.error f, [])
  | .ok kid => do
    let key ← findPayload kid now
    return (key, kid)

/-- `Current`. -/
def current (now : ℤ) : Program (Except Failure KeyChain) := do
  let ready ← act .requireContext
  if !ready then return .error .ended
  else
    let kid ← currentKID
    match kid with
    | .error f => return .error f
    | .ok kid => findPayload kid now

/-- `Find`. -/
def find (kid : Text) (now : ℤ) : Program (Except Failure KeyChain) := do
  let ready ← act .requireContext
  if !ready then return .error .ended
  else if validKID kid then findPayload kid now
  else return .error .keyNotFound

/-- `create`, between two looks at the context. -/
def createWithContext : Program (Except Failure (Option KeyChain)) := do
  let ready ← act .requireContext
  if !ready then return .error .ended
  else
    let key ← act .create
    match key with
    | .error f => return .error f
    | .ok key => do
      let ready ← act .requireContext
      if !ready then return .error .ended else return .ok key

/-- The loop of `trim` over the keys: the kids of those that are removed. -/
def removeIDs (keepKID : Text) (otherCapacity : ℕ) : ℕ → List KeyChain → List Text
  | _, [] => []
  | retainedOthers, doc :: docs =>
    if doc.kid = keepKID then removeIDs keepKID otherCapacity retainedOthers docs
    else if retainedOthers < otherCapacity then
      removeIDs keepKID otherCapacity (retainedOthers + 1) docs
    else doc.kid :: removeIDs keepKID otherCapacity retainedOthers docs

section Programs

variable (cfg : Config)

/-- `prepareStoreDocument`: the key that is to be stored. -/
def prepareStoreDocument (key : Option KeyChain) (now : ℤ) :
    Program (Except Failure KeyChain) := do
  let ready ← act .requireContext
  if !ready then return .error .ended
  else
    match key with
    | none => return .error .invalidKey
    | some key =>
      if key.expired now then return .error .invalidKey
      else if !cfg.storable key then return .error .invalidKey
      else
        let ready ← act .requireContext
        if !ready then return .error .ended else return .ok key

/-- The current document is moved, if nobody else has moved it. -/
def compareAndSetCurrent (observedKID kid : Text) : Program Bool :=
  if observedKID = [] then act (.insertCurrent kid) else act (.swapCurrent observedKID kid)

/-- The keys to delete. -/
def removals (keepKID : Text) (docs : List KeyChain) : List Text :=
  removeIDs keepKID (if keepKID = [] then cfg.capacity else cfg.capacity - 1) 0 docs

/-- Older keys are deleted. -/
def trim (keepKID : Text) : Program Unit := do
  let docs ← act .listKeys
  if removals cfg keepKID docs = [] then return ()
  else act (.deleteMany (removals cfg keepKID docs))

/-- The attempts that `currentAfterCAS` has left. -/
def currentAfterCAS (now : ℤ) : ℕ → Program (Except Failure KeyChain)
  | 0 => return .error .keyNotFound
  | n + 1 => do
    let key ← current now
    match key with
    | .ok key => return .ok key
    | .error .keyNotFound => do
      let slept ← act .sleep
      if slept then currentAfterCAS now n else return .error .ended
    | .error f => return .error f

/-- The end of `Rotate`. -/
def storeCAS (observedKID : Text) (key : Option KeyChain) (now : ℤ) :
    Program (Except Failure KeyChain) := do
  let doc ← prepareStoreDocument cfg key now
  match doc with
  | .error f => return .error f
  | .ok key => do
    act (.upsertKey key)
    let won ← compareAndSetCurrent observedKID key.kid
    if !won then
      act (.deleteKey key.kid)
      currentAfterCAS now 10
    else
      trim cfg key.kid
      findPayload key.kid now

/-- The end of `ForcedRotate`. -/
def store (key : Option KeyChain) (now : ℤ) : Program (Except Failure KeyChain) := do
  let doc ← prepareStoreDocument cfg key now
  match doc with
  | .error f => return .error f
  | .ok key => do
    act (.upsertKey key)
    if !validKID key.kid then return .error .keyNotFound
    else
      act (.setCurrent key.kid)
      trim cfg key.kid
      findPayload key.kid now

/-- **`Rotate`.** -/
def rotate (hasCreate : Bool) (now : ℤ) : Program (Except Failure KeyChain) := do
  let ready ← act .requireContext
  if !ready then return .error .ended
  else if !hasCreate then return .error .option
  else
    let seen ← currentPayload now
    match seen with
    | (.ok key, _) => return .ok key
    | (.error f, observedKID) =>
      if f ≠ .keyNotFound ∧ f ≠ .invalidKey then return .error f
      else
        let key ← createWithContext
        match key with
        | .error f => return .error f
        | .ok key => storeCAS cfg observedKID key now

/-- **`ForcedRotate`.** -/
def forcedRotate (hasCreate : Bool) (now : ℤ) : Program (Except Failure KeyChain) := do
  let ready ← act .requireContext
  if !ready then return .error .ended
  else if !hasCreate then return .error .option
  else
    let key ← createWithContext
    match key with
    | .error f => return .error f
    | .ok key => store cfg key now

/-- The calls there are. -/
inductive Op where
  | current (now : ℤ)
  | find (kid : Text) (now : ℤ)
  | rotate (hasCreate : Bool) (now : ℤ)
  | forcedRotate (hasCreate : Bool) (now : ℤ)
  deriving DecidableEq

/-- **The repository**, called by any number of processes. Nothing happens apart from the calls. -/
def machine :
    Machine Action Action.Answer Empty (Except Failure KeyChain) Collection Empty Op Choice where
  exec _ := exec
  env _ e := nomatch e
  start
    | .current now => current now
    | .find kid now => find kid now
    | .rotate hasCreate now => rotate cfg hasCreate now
    | .forcedRotate hasCreate now => forcedRotate cfg hasCreate now
  body l := nomatch l

end Programs

end Bluetape.Jwt.Mongo
