import Bluetape.GoString
import Bluetape.Library.Run

/-!
# The JWKS provider

A `Provider` keeps the keys of a remote key set, as a snapshot with the time of its fetch. A
`Lookup` that finds the snapshot missing or expired refreshes it; one that finds no key of its `kid`
in a snapshot that is still valid **forces** a refresh, once. Fetches are shared: a call that finds
a fetch under way waits for it (`flight`), and a cooldown keeps failed and forced fetches apart.

The mutex is taken for four sections, and each is one step: the check of the snapshot (`check`), the
decision to fetch or to wait (`join`, `decide`), the publication (`stamp`, `finish`), and the second
look (`reread`). The publication alone reads the clock twice, so that it has two steps, and nobody
else is in a section between them (`Sys.held`). The clock reading of a `Lookup` comes before its
section (`read`). The fetch runs in a goroutine of its own, whose result stays in a channel
(`Flight.results`), and the context of any call may end.

A time is a number of nanoseconds from the zero time of Go, which is `0`.
-/

namespace Bluetape.Jwks

open GoString

/-! ### Keys -/

/-- `Algorithm`; all names that are not supported are one. -/
inductive Algorithm where
  | rs256
  | rs384
  | rs512
  | ps256
  | ps384
  | ps512
  | es256
  | es384
  | es512
  | edDSA
  | unsupported
  deriving DecidableEq, Repr

inductive Curve where
  | p256
  | p384
  | p521
  | other
  deriving DecidableEq, Repr

inductive Key (κ : Type) where
  | rsa (k : κ)
  | ecdsa (curve : Curve) (k : κ)
  | ed25519 (k : κ)
  | other
  deriving DecidableEq, Repr

/-- `keyRecord`; the algorithm may be missing. -/
structure Record (κ : Type) where
  key : Key κ
  algorithm : Option Algorithm
  deriving DecidableEq, Repr

def isSupportedAlgorithm (a : Algorithm) : Bool := decide (a ≠ .unsupported)

def isRSAAlgorithm : Algorithm → Bool
  | .rs256 | .rs384 | .rs512 | .ps256 | .ps384 | .ps512 => true
  | _ => false

def curveAlgorithm : Curve → Option Algorithm
  | .p256 => some .es256
  | .p384 => some .es384
  | .p521 => some .es512
  | .other => none

def recordMatchesAlgorithm {κ : Type} (r : Record κ) (a : Algorithm) : Bool :=
  if r.algorithm.any fun b => decide (b ≠ a) then false
  else
    match r.key with
    | .rsa _ => isRSAAlgorithm a
    | .ecdsa curve _ => decide (curveAlgorithm curve = some a)
    | .ed25519 _ => decide (a = .edDSA)
    | .other => false

/-- `validateKID`. -/
def validKID (kid : Text) : Bool :=
  decide (kid ≠ [] ∧ kid.length ≤ 128) && kid.all fun b => decide (0x21 ≤ b ∧ b ≤ 0x7e)

/-! ### The provider -/

/-- The options of a provider; `New` refuses durations that are not positive. -/
structure Config where
  cacheTTL : ℤ
  refreshCooldown : ℤ
  allowedAlgorithms : List Algorithm
  cacheTTL_pos : 0 < cacheTTL
  refreshCooldown_pos : 0 < refreshCooldown

/-- `defaultCacheTTL`, five minutes. -/
def defaultCacheTTL : ℤ := 300000000000

/-- `defaultRefreshCooldown`, one second. -/
def defaultRefreshCooldown : ℤ := 1000000000

theorem defaultCacheTTL_pos : 0 < defaultCacheTTL := by decide

theorem defaultRefreshCooldown_pos : 0 < defaultRefreshCooldown := by decide

/-- `defaultConfig`, with `defaultAlgorithmSet`. -/
def defaultConfig : Config where
  cacheTTL := defaultCacheTTL
  refreshCooldown := defaultRefreshCooldown
  allowedAlgorithms :=
    [.rs256, .rs384, .rs512, .ps256, .ps384, .ps512, .es256, .es384, .es512, .edDSA]
  cacheTTL_pos := defaultCacheTTL_pos
  refreshCooldown_pos := defaultRefreshCooldown_pos

inductive Err (ε : Type) where
  | unsupportedAlgorithm
  | keyNotFound
  | context
  | refresh (e : ε)
  deriving DecidableEq, Repr

/-- What a call returns; a `Refresh` may return no error. -/
inductive Result (κ ε : Type) where
  | key (k : Key κ)
  | error (e : Err ε)
  | refreshed
  | panic
  deriving DecidableEq, Repr

abbrev Keys (κ : Type) : Type := List (Text × Record κ)

structure Publication (κ : Type) where
  keys : Keys κ
  fetchedAt : ℤ
  deriving DecidableEq, Repr

/-- What `parseKeySet` or an error makes of a fetch. -/
inductive Fetched (κ ε : Type) where
  | keys (keys : Keys κ)
  | error (e : ε)
  deriving DecidableEq, Repr

/-- How a refresh ends: with the fetch, or with the context of its caller. -/
inductive Outcome (κ ε : Type) where
  | fetched (r : Fetched κ ε)
  | canceled
  deriving DecidableEq, Repr

def Outcome.err {κ ε : Type} : Outcome κ ε → Option (Err ε)
  | .fetched (.keys _) => none
  | .fetched (.error e) => some (.refresh e)
  | .canceled => some .context

def Outcome.callerCanceled {κ ε : Type} : Outcome κ ε → Bool
  | .fetched _ => false
  | .canceled => true

/-- `refreshFlight`, with what its fetch has sent; nothing as long as it is under way. -/
structure Flight (κ ε : Type) where
  results : Option (Fetched κ ε) := none
  done : Bool := false
  err : Option (Err ε) := none
  callerCanceled : Bool := false
  deriving DecidableEq, Repr

inductive Phase (κ ε : Type) where
  | reading
  | checking (now : ℤ)
  | deciding
  | waiting (f : ℕ)
  | fetching (f : ℕ)
  | finishing (f : ℕ) (o : Outcome κ ε)
  | stamped (f : ℕ) (o : Outcome κ ε)
  | rereading
  | returned (r : Result κ ε)
  deriving DecidableEq, Repr

/-- A `Lookup`, or a `Refresh` if it is explicit. -/
structure Call (κ ε : Type) where
  explicit : Bool
  kid : Text
  algorithm : Algorithm
  phase : Phase κ ε
  attempt : ℕ := 0
  forced : Bool := false
  ended : Bool := false
  deriving DecidableEq, Repr

structure Sys (κ ε : Type) where
  clock : ℤ
  publication : Option (Publication κ) := none
  flight : Option ℕ := none
  flights : List (Flight κ ε) := []
  forcedAt : ℤ := 0
  refreshError : Option (Err ε) := none
  refreshErrorAt : ℤ := 0
  /-- A call is in `finishRefresh`, between its two readings of the clock; the first one. -/
  held : Option ℤ := none
  calls : List (Call κ ε) := []
  deriving DecidableEq, Repr

/-! ### Steps -/

inductive Act where
  | read (now : ℤ)
  | check
  | join
  | decide (now : ℤ)
  | wake
  | giveUp
  | complete
  | abandon
  | stamp (now : ℤ)
  | finish (now : ℤ)
  | reread
  deriving DecidableEq, Repr

inductive Label (κ ε : Type) where
  | lookup (kid : Text) (algorithm : Algorithm)
  | refresh
  | cancel (i : ℕ)
  | call (i : ℕ) (a : Act)
  | fetched (f : ℕ) (r : Fetched κ ε)
  deriving DecidableEq, Repr

variable {κ ε : Type}

def Sys.setCall (y : Sys κ ε) (i : ℕ) (c : Call κ ε) : Sys κ ε :=
  { y with calls := y.calls.set i c }

/-- What a `Lookup` makes of the record that it has found. -/
def found (r : Record κ) (a : Algorithm) : Result κ ε :=
  if recordMatchesAlgorithm r a then .key r.key else .error .unsupportedAlgorithm

def lookup (cfg : Config) (kid : Text) (a : Algorithm) : Call κ ε :=
  { explicit := false, kid := kid, algorithm := a
    phase :=
      if isSupportedAlgorithm a = false ∨ a ∉ cfg.allowedAlgorithms then
        .returned (.error .unsupportedAlgorithm)
      else if validKID kid = false then .returned (.error .keyNotFound)
      else .reading }

/-- What `refresh` has returned, and how its caller goes on. -/
def resume (c : Call κ ε) (err : Option (Err ε)) : Call κ ε :=
  match err with
  | some e => { c with phase := .returned (.error e) }
  | none =>
    if c.explicit then { c with phase := .returned .refreshed }
    else if c.forced then
      if c.attempt + 1 < 2 then { c with attempt := c.attempt + 1, phase := .reading }
      else { c with phase := .returned (.error .keyNotFound) }
    else { c with phase := .rereading }

/-- The section of a `Lookup` in which it looks at the snapshot. -/
def check (cfg : Config) (publication : Option (Publication κ)) (now : ℤ) (c : Call κ ε) :
    Call κ ε :=
  match publication with
  | none => { c with forced := false, phase := .deciding }
  | some p =>
    if now < p.fetchedAt + cfg.cacheTTL then
      match p.keys.lookup c.kid with
      | some r => { c with phase := .returned (found r c.algorithm) }
      | none => { c with forced := true, phase := .deciding }
    else { c with forced := false, phase := .deciding }

def reread (publication : Option (Publication κ)) (c : Call κ ε) : Result κ ε :=
  match publication with
  | none => .panic
  | some p =>
    match p.keys.lookup c.kid with
    | some r => found r c.algorithm
    | none => .error .keyNotFound

/-- **The cooldown**: what `refresh` returns, if it does not fetch. -/
def cooling (cfg : Config) (y : Sys κ ε) (c : Call κ ε) (now : ℤ) : Option (Option (Err ε)) :=
  if c.forced = true ∧ c.explicit = false ∧ y.forcedAt ≠ 0 ∧
      now - y.forcedAt < cfg.refreshCooldown then some y.refreshError
  else if c.forced = false ∧ y.refreshError.isSome ∧
      now - y.refreshErrorAt < cfg.refreshCooldown then some y.refreshError
  else none

/-- **`finishRefresh`**, of a flight that is the current one: `t` and `now` are the two readings. -/
def finishRefresh (y : Sys κ ε) (f : ℕ) (fl : Flight κ ε) (forced : Bool) (t now : ℤ)
    (o : Outcome κ ε) : Sys κ ε :=
  let y' : Sys κ ε := { y with
    clock := now, flight := none, held := none
    flights := y.flights.set f
      { fl with done := true, err := o.err, callerCanceled := o.callerCanceled } }
  match o with
  | .fetched (.keys keys) =>
    { y' with
      publication := some ⟨keys, t⟩, refreshError := none, refreshErrorAt := 0, forcedAt := now }
  | .fetched (.error e) =>
    { y' with
      refreshError := some (.refresh e), refreshErrorAt := t
      forcedAt := if forced then now else y.forcedAt }
  | .canceled => y'

/-- **The steps of a call.** -/
def stepCall (cfg : Config) (y : Sys κ ε) (i : ℕ) (c : Call κ ε) : Act → Option (Sys κ ε)
  | .read now =>
    match c.phase with
    | .reading =>
      if y.clock ≤ now then
        some { y.setCall i { c with phase := .checking now } with clock := now }
      else none
    | _ => none
  | .check =>
    match c.phase with
    | .checking now =>
      if y.held = none then some (y.setCall i (check cfg y.publication now c)) else none
    | _ => none
  | .join =>
    match c.phase with
    | .deciding =>
      if y.held = none then
        y.flight.map fun f => y.setCall i { c with phase := .waiting f }
      else none
    | _ => none
  | .decide now =>
    match c.phase with
    | .deciding =>
      if y.held = none ∧ y.flight = none ∧ y.clock ≤ now then
        match cooling cfg y c now with
        | some err => some { y.setCall i (resume c err) with clock := now }
        | none =>
          some { y.setCall i { c with phase := .fetching y.flights.length } with
            clock := now, flight := some y.flights.length, flights := y.flights ++ [{}] }
      else none
    | _ => none
  | .wake =>
    match c.phase with
    | .waiting f =>
      y.flights[f]?.bind fun fl =>
        if fl.done then
          some (y.setCall i
            (if c.ended then resume c (some .context)
              else if fl.callerCanceled then { c with phase := .deciding }
              else resume c fl.err))
        else none
    | _ => none
  | .giveUp =>
    match c.phase with
    | .waiting _ => if c.ended then some (y.setCall i (resume c (some .context))) else none
    | _ => none
  | .complete =>
    match c.phase with
    | .fetching f =>
      (y.flights[f]?.bind Flight.results).map fun r =>
        y.setCall i
          { c with phase := .finishing f (if c.ended then .canceled else .fetched r) }
    | _ => none
  | .abandon =>
    match c.phase with
    | .fetching f =>
      if c.ended then some (y.setCall i { c with phase := .finishing f .canceled }) else none
    | _ => none
  | .stamp now =>
    match c.phase with
    | .finishing f o =>
      if y.held = none then
        if y.flight ≠ some f then some (y.setCall i (resume c o.err))
        else if y.clock ≤ now then
          some { y.setCall i { c with phase := .stamped f o } with clock := now, held := some now }
        else none
      else none
    | _ => none
  | .finish now =>
    match c.phase with
    | .stamped f o =>
      y.held.bind fun t => y.flights[f]?.bind fun fl =>
        if y.clock ≤ now then
          some ((finishRefresh y f fl c.forced t now o).setCall i (resume c o.err))
        else none
    | _ => none
  | .reread =>
    match c.phase with
    | .rereading =>
      if y.held = none then
        some (y.setCall i { c with phase := .returned (reread y.publication c) })
      else none
    | _ => none

/-- **One step.** -/
def step (cfg : Config) (y : Sys κ ε) : Label κ ε → Option (Sys κ ε)
  | .lookup kid a => some { y with calls := y.calls ++ [lookup cfg kid a] }
  | .refresh =>
    some { y with
      calls := y.calls ++
        [{ explicit := true, kid := [], algorithm := .unsupported, forced := true
           phase := .deciding }] }
  | .cancel i => y.calls[i]?.map fun c => y.setCall i { c with ended := true }
  | .call i a => y.calls[i]?.bind fun c => stepCall cfg y i c a
  | .fetched f r =>
    y.flights[f]?.bind fun fl =>
      if fl.results.isNone then
        some { y with flights := y.flights.set f { fl with results := some r } }
      else none

abbrev Ev (κ ε : Type) : Type := Lts.Event (Sys κ ε) (Label κ ε)

end Bluetape.Jwks
