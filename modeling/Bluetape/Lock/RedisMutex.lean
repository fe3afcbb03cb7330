import Bluetape.GoString
import Bluetape.Library.Run

/-!
# The mutex on a Redis key

A model of `lock/redis`: one key, any number of `Mutex` values on it, and any number of `TryLock`
and `Unlock` calls. `TryLock` sends `SET NX` with a token. If it gets no reply it cannot know
whether the key was written, and asks with a `GET` whether the token is there. `Unlock` deletes the
key if its token is there. Both go by the token alone.

Each command is one step of the server (`execute`, `executeUnlock`), which comes at some time after
the client has sent it; the client may send a command again and may give up at any time, and a
command that it no longer waits for may still be executed. The key may expire at any time. A state
remembers, for the entry in the key, the call that wrote it.

A `Mutex` either has a token for all of its calls, or draws one for each of them (`NewOwnerToken`,
256 random bits): a token that is drawn is one that nobody has used.

* **A call that does not share its token holds the lock alone** (`lease_exclusive`). This is so for
  all calls of a `Mutex` that draws tokens, and for the call of a `Mutex` that has one call only.
* **Leases of different `Mutex` values exclude each other** (`mutexes_exclude`), whatever their
  tokens are.
* **A `Mutex` with a token does not exclude itself** (`token_shared`): of two calls one has written
  the key, and the other one, whose command was never executed, finds the token there.
-/

namespace Bluetape.RedisLock

open GoString Lts Option List

/-! ### Options and tokens -/

/-- `Options`; `ttl` in nanoseconds. -/
structure Options where
  key : Text
  ttl : ℤ
  token : Text
  deriving DecidableEq, Repr

def Options.normalize (o : Options) : Except String Options :=
  if trimSpace o.key = [] then .error "redis lock key must not be empty"
  else if o.ttl ≤ 0 then .error "redis lock ttl must be positive"
  else if o.token ≠ [] ∧ trimSpace o.token = [] then .error "redis lock token must not be blank"
  else .ok o

/-- `NewOwnerToken` for the random bytes. -/
def newOwnerToken (data : Text) : Text := hexEncode data

def Unshared (ms : List Options) : Prop := ms.Pairwise fun o o' => o.token ≠ [] → o.token ≠ o'.token
  deriving Decidable

/-- **Mutexes on one key**, by their options: each was accepted, and no token is given to two. -/
structure Shared (key : Text) (ms : List Options) : Prop where
  accepted : ∀ o ∈ ms, o.normalize = .ok o
  key_eq : ∀ o ∈ ms, o.key = key
  tokens : Unshared ms

variable {ms : List Options}

theorem Unshared.token_inj (hms : Unshared ms) {i j : ℕ} {o o' : Options} (hi : ms[i]? = some o)
    (hj : ms[j]? = some o') (hne : o.token ≠ []) (heq : o.token = o'.token) : i = j := by
  obtain ⟨hlti, rfl⟩ := List.getElem?_eq_some_iff.mp hi
  obtain ⟨hltj, rfl⟩ := List.getElem?_eq_some_iff.mp hj
  have hpair := pairwise_iff_getElem.mp hms
  rcases Nat.lt_trichotomy i j with hlt | rfl | hlt
  · exact absurd heq (hpair i j hlti hltj hlt hne)
  · rfl
  · exact absurd heq.symm (hpair j i hltj hlti hlt (heq ▸ hne))

/-! ### The key and the calls -/

structure Entry where
  token : Text
  writer : ℕ
  deriving DecidableEq, Repr

/-- `SET NX`, for a call. -/
def setNX (token : Text) (call : ℕ) : Option Entry → Option Entry × Bool
  | none => (some ⟨token, call⟩, true)
  | some e => (some e, false)

/-- `unlockScript`, and `CompareAndDelete`. -/
def compareDelete (token : Text) (entry : Option Entry) : Option Entry × Bool :=
  if entry.map Entry.token = some token then (none, true) else (entry, false)

/-- The `GET` of `reconcileOwner`. -/
def reconcileOwner (token : Text) (entry : Option Entry) : Bool :=
  decide (entry.map Entry.token = some token)

/-- A `Lease`: the `Mutex` and the token. -/
structure Lease where
  mutex : ℕ
  token : Text
  deriving DecidableEq, Repr

/-- What `TryLock` returns. -/
inductive Outcome where
  | acquired
  /-- The lease, with `ErrCommitUnknown`. -/
  | unknown
  | notAcquired
  | ended
  | failed
  deriving DecidableEq, Repr

/-- Where a `TryLock` is. -/
inductive Phase where
  /-- It waits for the reply to `SET NX`. -/
  | setting
  /-- It has an error instead, that of the context or not, and asks who the owner is. -/
  | probing (ended : Bool)
  | returned (outcome : Outcome)
  deriving DecidableEq, Repr

/-- A `TryLock`. Of each attempt to send the command it is known whether it was executed, and with
which reply. -/
structure Call where
  lease : Lease
  attempts : List (Option Bool)
  phase : Phase
  deriving DecidableEq, Repr

/-- What `Unlock` returns. -/
inductive Released where
  | deleted (result : Bool)
  | ended
  /-- An error, with `ErrCommitUnknown`. -/
  | unknown
  deriving DecidableEq, Repr

/-- Where an `Unlock` is. -/
inductive UnlockPhase where
  | deleting
  /-- In `preDispatchCancellation`. -/
  | probing
  | returned (outcome : Released)
  deriving DecidableEq, Repr

/-- An `Unlock` of the lease of a `TryLock`. -/
structure Release where
  call : ℕ
  attempts : List (Option Bool)
  phase : UnlockPhase
  deriving DecidableEq, Repr

structure Sys where
  entry : Option Entry
  calls : List Call
  releases : List Release
  deriving DecidableEq, Repr

def Sys.new : Sys := ⟨none, [], []⟩

def Fresh (ms : List Options) (y : Sys) (token : Text) : Prop :=
  (∀ o ∈ ms, o.token ≠ token) ∧ ∀ c ∈ y.calls, c.lease.token ≠ token
  deriving Decidable

/-! ### Steps -/

/-- A step of a `TryLock`: the client sends the command, the server executes an attempt, the client
gets the reply to its last attempt or gives up, it asks who the owner is, or someone calls `Unlock`
for the lease. -/
inductive Act where
  | send
  | execute (k : ℕ)
  | receive
  | fail (ended : Bool)
  | probe (arrived : Bool)
  | unlock
  deriving DecidableEq, Repr

/-- A step of an `Unlock`. -/
inductive UnlockAct where
  | send
  | execute (k : ℕ)
  | receive
  | fail (ended : Bool)
  | probe (arrived : Bool)
  deriving DecidableEq, Repr

inductive Label where
  /-- `TryLock` of a `Mutex`, with the bytes for a token. -/
  | tryLock (m : ℕ) (data : Text)
  | call (i : ℕ) (act : Act)
  | release (u : ℕ) (act : UnlockAct)
  | expire
  deriving DecidableEq, Repr

def Sys.addCall (y : Sys) (a : Lease) : Sys := { y with calls := y.calls ++ [⟨a, [], .setting⟩] }

def Sys.setCall (y : Sys) (i : ℕ) (c : Call) : Sys := { y with calls := y.calls.set i c }

def Sys.setRelease (y : Sys) (u : ℕ) (r : Release) : Sys :=
  { y with releases := y.releases.set u r }

/-- What `TryLock` returns for the reply to `SET NX`. -/
def replied (ok : Bool) : Outcome := if ok then .acquired else .notAcquired

/-- What `TryLock` returns after `reconcileOwner`. -/
def probed (ended arrived owner : Bool) : Outcome :=
  if arrived && owner then .acquired
  else if !arrived then .unknown
  else if ended then .ended
  else .failed

/-- What `Unlock` returns after `preDispatchCancellation`. -/
def unlockProbed (arrived owner : Bool) : Released :=
  if arrived && owner then .ended else .unknown

/-- The steps of a `TryLock`. -/
def stepCall (y : Sys) (i : ℕ) (c : Call) : Act → Option Sys
  | .send =>
    if c.phase = .setting then some (y.setCall i { c with attempts := c.attempts ++ [none] })
    else none
  | .execute k =>
    if c.attempts[k]? = some none then
      let result := setNX c.lease.token i y.entry
      some { y.setCall i { c with attempts := c.attempts.set k (some result.2) } with
        entry := result.1 }
    else none
  | .receive =>
    match c.phase, c.attempts.getLast? with
    | .setting, some (some ok) => some (y.setCall i { c with phase := .returned (replied ok) })
    | _, _ => none
  | .fail ended =>
    if c.phase = .setting then some (y.setCall i { c with phase := .probing ended }) else none
  | .probe arrived =>
    match c.phase with
    | .probing ended =>
      let owner := reconcileOwner c.lease.token y.entry
      some (y.setCall i { c with phase := .returned (probed ended arrived owner) })
    | _ => none
  | .unlock =>
    if c.phase = .returned .acquired ∨ c.phase = .returned .unknown then
      some { y with releases := y.releases ++ [⟨i, [], .deleting⟩] }
    else none

/-- The steps of an `Unlock`, for the token of its lease. -/
def stepRelease (y : Sys) (u : ℕ) (r : Release) (token : Text) : UnlockAct → Option Sys
  | .send =>
    if r.phase = .deleting then some (y.setRelease u { r with attempts := r.attempts ++ [none] })
    else none
  | .execute k =>
    if r.attempts[k]? = some none then
      let result := compareDelete token y.entry
      some { y.setRelease u { r with attempts := r.attempts.set k (some result.2) } with
        entry := result.1 }
    else none
  | .receive =>
    match r.phase, r.attempts.getLast? with
    | .deleting, some (some deleted) =>
      some (y.setRelease u { r with phase := .returned (.deleted deleted) })
    | _, _ => none
  | .fail ended =>
    if r.phase = .deleting then
      some (y.setRelease u { r with phase := if ended then .probing else .returned .unknown })
    else none
  | .probe arrived =>
    if r.phase = .probing then
      let owner := reconcileOwner token y.entry
      some (y.setRelease u { r with phase := .returned (unlockProbed arrived owner) })
    else none

/-- The token of a `TryLock`: that of the `Mutex`, or one that is drawn. -/
def tokenFor (ms : List Options) (y : Sys) (o : Options) (data : Text) : Option Text :=
  if o.token ≠ [] then some o.token
  else if data.length = 32 ∧ Fresh ms y (newOwnerToken data) then some (newOwnerToken data)
  else none

/-- **One step.** -/
def step (ms : List Options) (y : Sys) : Label → Option Sys
  | .tryLock m data =>
    ms[m]?.bind fun o => (tokenFor ms y o data).map fun token => y.addCall ⟨m, token⟩
  | .call i act => y.calls[i]?.bind fun c => stepCall y i c act
  | .release u act =>
    y.releases[u]?.bind fun r => y.calls[r.call]?.bind fun c =>
      stepRelease y u r c.lease.token act
  | .expire => some { y with entry := none }

abbrev Ev : Type := Event Sys Label

/-! ### What a step does -/

/-- What a step does to the key and to the `TryLock` calls. -/
inductive Move (ms : List Options) (y : Sys) : Label → Sys → Prop
  | tryLock {m : ℕ} {data token : Text} {o : Options} (ho : ms[m]? = some o)
      (htoken : tokenFor ms y o data = some token) :
      Move ms y (.tryLock m data) (y.addCall ⟨m, token⟩)
  | call {i : ℕ} {act : Act} {c c' : Call} {y' : Sys} (hi : y.calls[i]? = some c)
      (hcalls : y'.calls = y.calls.set i c') (hentry : y'.entry = y.entry)
      (hlease : c'.lease = c.lease)
      (hattempts : some true ∈ c'.attempts → some true ∈ c.attempts)
      (hstays : ∀ o, c.phase = .returned o → c'.phase = .returned o)
      (hphase : c'.phase = .returned .acquired →
        c.phase = .returned .acquired ∨ some true ∈ c.attempts ∨
          reconcileOwner c.lease.token y.entry = true) :
      Move ms y (.call i act) y'
  /-- `SET NX` finds no key. -/
  | write {i k : ℕ} {c : Call} (hi : y.calls[i]? = some c) (hentry : y.entry = none) :
      Move ms y (.call i (.execute k))
        { y.setCall i { c with attempts := c.attempts.set k (some true) } with
          entry := some ⟨c.lease.token, i⟩ }
  /-- An `Unlock` moves on, and nothing is deleted. -/
  | keep {l : Label} {y' : Sys} (hcalls : y'.calls = y.calls) (hentry : y'.entry = y.entry) :
      Move ms y l y'
  | delete {u k : ℕ} {r : Release} {c : Call} {e : Entry} {y' : Sys}
      (hu : y.releases[u]? = some r) (hi : y.calls[r.call]? = some c) (he : y.entry = some e)
      (htoken : e.token = c.lease.token) (hcalls : y'.calls = y.calls) (hentry : y'.entry = none) :
      Move ms y (.release u (.execute k)) y'
  | expire : Move ms y .expire { y with entry := none }

theorem owner_of_probed :
    ∀ ended arrived owner : Bool, probed ended arrived owner = .acquired → owner = true := by
  decide

section Steps

variable {ms : List Options} {y y' : Sys}

theorem move_of_stepCall {i : ℕ} {c : Call} {act : Act} (hi : y.calls[i]? = some c)
    (hs : stepCall y i c act = some y') : Move ms y (.call i act) y' := by
  cases act with
  | send =>
    obtain ⟨-, ⟨⟩⟩ := ite_none_right_eq_some.mp hs
    refine .call hi rfl rfl rfl (fun hmem => ?_) (fun _ ho => ho) .inl
    exact (mem_append.mp hmem).resolve_right fun h => nomatch mem_singleton.mp h
  | execute k =>
    obtain ⟨-, ⟨⟩⟩ := ite_none_right_eq_some.mp hs
    cases hentry : y.entry with
    | none => exact .write hi hentry
    | some e =>
      refine .call hi rfl hentry.symm rfl (fun hmem => ?_) (fun _ ho => ho) .inl
      exact (mem_or_eq_of_mem_set hmem).resolve_right nofun
  | receive =>
    simp only [stepCall] at hs
    split at hs <;> cases hs
    next ok hphase hlast =>
      refine .call hi rfl rfl rfl id (fun _ ho => nomatch hphase.symm.trans ho) fun hret => ?_
      cases ok with
      | true => exact .inr (.inl (mem_of_getLast? hlast))
      | false => exact nomatch hret
  | fail ended =>
    obtain ⟨hphase, ⟨⟩⟩ := ite_none_right_eq_some.mp hs
    refine .call hi rfl rfl rfl id (fun _ ho => nomatch hphase.symm.trans ho) fun hret => ?_
    exact nomatch hret
  | probe arrived =>
    simp only [stepCall] at hs
    split at hs <;> cases hs
    next ended hphase =>
      refine .call hi rfl rfl rfl id (fun _ ho => nomatch hphase.symm.trans ho) fun hret =>
        .inr (.inr ?_)
      exact owner_of_probed ended arrived _ (Phase.returned.inj hret)
  | unlock =>
    obtain ⟨-, ⟨⟩⟩ := ite_none_right_eq_some.mp hs
    exact .keep rfl rfl

theorem move_of_stepRelease {u : ℕ} {r : Release} {c : Call} {act : UnlockAct}
    (hu : y.releases[u]? = some r) (hi : y.calls[r.call]? = some c)
    (hs : stepRelease y u r c.lease.token act = some y') : Move ms y (.release u act) y' := by
  cases act with
  | execute k =>
    obtain ⟨-, ⟨⟩⟩ := ite_none_right_eq_some.mp hs
    by_cases htoken : y.entry.map Entry.token = some c.lease.token
    · obtain ⟨e, he, htoken'⟩ := map_eq_some_iff.mp htoken
      refine .delete hu hi he htoken' rfl ?_
      exact congrArg Prod.fst (if_pos htoken)
    · refine .keep rfl ?_
      exact congrArg Prod.fst (if_neg htoken)
  | receive =>
    simp only [stepRelease] at hs
    split at hs <;> cases hs
    exact .keep rfl rfl
  | _ =>
    obtain ⟨-, ⟨⟩⟩ := ite_none_right_eq_some.mp hs
    exact .keep rfl rfl

theorem move_of_step {l : Label} (hs : step ms y l = some y') : Move ms y l y' := by
  cases l with
  | tryLock m data =>
    obtain ⟨o, ho, hs⟩ := bind_eq_some_iff.mp hs
    obtain ⟨token, htoken, rfl⟩ := map_eq_some_iff.mp hs
    exact .tryLock ho htoken
  | call i act =>
    obtain ⟨c, hi, hs⟩ := bind_eq_some_iff.mp hs
    exact move_of_stepCall hi hs
  | release u act =>
    obtain ⟨r, hu, hs⟩ := bind_eq_some_iff.mp hs
    obtain ⟨c, hi, hs⟩ := bind_eq_some_iff.mp hs
    exact move_of_stepRelease hu hi hs
  | expire =>
    cases hs
    exact .expire

theorem call_of_move {l : Label} (hm : Move ms y l y') {i : ℕ} {c : Call}
    (hi : y.calls[i]? = some c) : ∃ c', y'.calls[i]? = some c' ∧ c'.lease = c.lease ∧
      ∀ o, c.phase = .returned o → c'.phase = .returned o := by
  -- The call that moves on is the only one that is changed.
  have hset : ∀ {j : ℕ} {d d' : Call}, y'.calls = y.calls.set j d' → y.calls[j]? = some d →
      d'.lease = d.lease → (∀ o, d.phase = .returned o → d'.phase = .returned o) →
      ∃ c', y'.calls[i]? = some c' ∧ c'.lease = c.lease ∧
        ∀ o, c.phase = .returned o → c'.phase = .returned o := by
    intro j d d' hcalls hj hlease hstays
    rw [hcalls]
    refine exists_getElem?_set hj ⟨c, hi, rfl, fun _ ho => ho⟩ ?_
    rintro rfl -
    obtain rfl := mem_unique hi hj
    exact ⟨hlease, hstays⟩
  cases hm with
  | tryLock ho htoken =>
    exact ⟨c, getElem?_concat_of_some hi, rfl, fun _ ho => ho⟩
  | call hj hcalls hentry hlease hattempts hstays hphase => exact hset hcalls hj hlease hstays
  | write hj hentry => exact hset rfl hj rfl fun _ ho => ho
  | keep hcalls hentry => exact ⟨c, hcalls ▸ hi, rfl, fun _ ho => ho⟩
  | delete hu hj he htoken hcalls hentry => exact ⟨c, hcalls ▸ hi, rfl, fun _ ho => ho⟩
  | expire => exact ⟨c, hi, rfl, fun _ ho => ho⟩

end Steps

/-! ### Tokens -/

/-- The leases of the calls, whether they hold them or not. -/
def Sys.leases (y : Sys) : List Lease := y.calls.map Call.lease

/-- A `Mutex` that draws a token for each call. -/
def Draws (ms : List Options) (m : ℕ) : Prop := ∃ o, ms[m]? = some o ∧ o.token = []

/-- The token of a lease is that of its `Mutex`, or one that no `Mutex` has. -/
def Issued (ms : List Options) (a : Lease) : Prop :=
  ∃ o, ms[a.mutex]? = some o ∧
    ((o.token ≠ [] ∧ a.token = o.token) ∨ (o.token = [] ∧ ∀ o' ∈ ms, o'.token ≠ a.token))

/-- **Who shares a token**: two calls of one `Mutex`, and the same call if tokens are drawn. -/
def Apart (ms : List Options) (leases : List Lease) : Prop :=
  ∀ (i j : ℕ) (a b : Lease), leases[i]? = some a → leases[j]? = some b → a.token = b.token →
    a.mutex = b.mutex ∧ (Draws ms a.mutex → i = j)

theorem issued_of_tokenFor {y : Sys} {m : ℕ} {o : Options} {data token : Text}
    (ho : ms[m]? = some o) (h : tokenFor ms y o data = some token) :
    Issued ms ⟨m, token⟩ ∧ (o.token = [] → ∀ c ∈ y.calls, c.lease.token ≠ token) := by
  unfold tokenFor at h
  split_ifs at h with hne hfresh
  · cases h
    exact ⟨⟨o, ho, .inl ⟨hne, rfl⟩⟩, fun hnil => absurd hnil hne⟩
  · cases h
    exact ⟨⟨o, ho, .inr ⟨not_not.mp hne, hfresh.2.1⟩⟩, fun _ => hfresh.2.2⟩

/-- A token that a `Mutex` has is shared with no lease of another one. -/
theorem mutex_eq_of_token_eq (hms : Unshared ms) {a : Lease} (ha : Issued ms a) {m : ℕ}
    {o : Options} (ho : ms[m]? = some o) (htoken : a.token = o.token) :
    a.mutex = m ∧ ¬Draws ms a.mutex := by
  obtain ⟨o', ho', hcase⟩ := ha
  rcases hcase with ⟨hne', heq⟩ | ⟨-, hnone⟩
  · refine ⟨hms.token_inj ho' ho hne' (heq.symm.trans htoken), ?_⟩
    rintro ⟨o'', ho'', hnil⟩
    obtain rfl := mem_unique ho' ho''
    exact hne' hnil
  · exact absurd htoken.symm (hnone o (mem_of_getElem? ho))

theorem Apart.tryLock {y : Sys} {m : ℕ} {o : Options} {data token : Text} (h : Apart ms y.leases)
    (hms : Unshared ms) (hissued : ∀ a ∈ y.leases, Issued ms a) (ho : ms[m]? = some o)
    (htoken : tokenFor ms y o data = some token) : Apart ms (y.leases ++ [⟨m, token⟩]) := by
  -- An older lease with the same token is of this `Mutex`, which has a token.
  have hold : ∀ a ∈ y.leases, a.token = token → a.mutex = m ∧ ¬Draws ms m := by
    intro a ha haeq
    by_cases hnil : o.token = []
    · obtain ⟨c, hc, rfl⟩ := mem_map.mp ha
      exact absurd haeq ((issued_of_tokenFor ho htoken).2 hnil c hc)
    · rw [tokenFor, if_pos hnil] at htoken
      obtain ⟨hm, hfixed⟩ := mutex_eq_of_token_eq hms (hissued a ha) ho
        (haeq.trans (Option.some.inj htoken).symm)
      exact ⟨hm, hm ▸ hfixed⟩
  intro i j a b hi hj hab
  rcases getElem?_concat hi with hi | ⟨rfl, rfl⟩
  · rcases getElem?_concat hj with hj | ⟨rfl, rfl⟩
    · exact h i j a b hi hj hab
    · obtain ⟨hm, hfixed⟩ := hold a (mem_of_getElem? hi) hab
      exact ⟨hm, fun hdraws => absurd (hm ▸ hdraws) hfixed⟩
  · rcases getElem?_concat hj with hj | ⟨rfl, rfl⟩
    · obtain ⟨hm, hfixed⟩ := hold b (mem_of_getElem? hj) hab.symm
      exact ⟨hm.symm, fun hdraws => absurd hdraws hfixed⟩
    · exact ⟨rfl, fun _ => rfl⟩

/-! ### Runs -/

def Wrote (h : List Ev) (i : ℕ) : Prop :=
  ∃ ev ∈ h, ev.before.entry = none ∧ ev.after.entry.map Entry.writer = some i
  deriving Decidable

theorem Wrote.cons {h : List Ev} {i : ℕ} (hw : Wrote h i) (ev : Ev) : Wrote (ev :: h) i :=
  exists_mem_cons_of_exists hw

def WroteToken (h : List Ev) (leases : List Lease) (token : Text) : Prop :=
  ∃ w a, leases[w]? = some a ∧ a.token = token ∧ Wrote h w

/-- **The invariant.** -/
structure Inv (ms : List Options) (h : List Ev) (y : Sys) : Prop where
  issued : ∀ a ∈ y.leases, Issued ms a
  apart : Apart ms y.leases
  /-- What is in the key was written by a call with that token. -/
  entry : ∀ e, y.entry = some e →
    (∃ a, y.leases[e.writer]? = some a ∧ a.token = e.token) ∧ Wrote h e.writer
  attempts : ∀ (i : ℕ) (c : Call), y.calls[i]? = some c → some true ∈ c.attempts → Wrote h i
  /-- Whoever has a lease has a token with which the key was written. -/
  acquired : ∀ (i : ℕ) (c : Call), y.calls[i]? = some c → c.phase = .returned .acquired →
    WroteToken h y.leases c.lease.token

section Runs

variable {ms : List Options} {h : List Ev} {y y' : Sys} {l : Label} {i : ℕ}

theorem leases_set {c c' : Call} (hi : y.calls[i]? = some c) (hlease : c'.lease = c.lease) :
    (y.calls.set i c').map Call.lease = y.leases := by
  obtain ⟨hlt, hget⟩ := List.getElem?_eq_some_iff.mp hi
  have hlt' : i < y.leases.length := by
    rw [Sys.leases, length_map]
    exact hlt
  have hget' : y.leases[i] = c'.lease := by
    rw [hlease, ← hget]
    exact getElem_map _
  rw [map_set, ← hget']
  exact set_getElem_self hlt'

theorem leases_getElem? {c : Call} (hi : y.calls[i]? = some c) : y.leases[i]? = some c.lease := by
  rw [Sys.leases, getElem?_map, hi]
  rfl

section

variable (hinv : Inv ms h y)
include hinv

theorem Inv.past (ev : Ev) : Inv ms (ev :: h) y := by
  refine ⟨hinv.issued, hinv.apart, fun e he => ?_, fun i c hi hmem => ?_, fun i c hi hphase => ?_⟩
  · exact ⟨(hinv.entry e he).1, (hinv.entry e he).2.cons ev⟩
  · exact (hinv.attempts i c hi hmem).cons ev
  · obtain ⟨w, a, ha, htoken, hw⟩ := hinv.acquired i c hi hphase
    exact ⟨w, a, ha, htoken, hw.cons ev⟩

theorem Inv.of_calls_eq (hcalls : y'.calls = y.calls)
    (hentry : ∀ e, y'.entry = some e → y.entry = some e) : Inv ms h y' := by
  have hleases : y'.leases = y.leases := congrArg (List.map Call.lease) hcalls
  refine ⟨hleases ▸ hinv.issued, hleases ▸ hinv.apart, fun e he => ?_, hcalls ▸ hinv.attempts, ?_⟩
  · exact hleases ▸ hinv.entry e (hentry e he)
  · rw [hcalls, hleases]
    exact hinv.acquired

theorem Inv.write {c : Call} (hi : y.calls[i]? = some c) (hw : Wrote h i) :
    Inv ms h { y with entry := some ⟨c.lease.token, i⟩ } := by
  refine ⟨hinv.issued, hinv.apart, fun e he => ?_, hinv.attempts, hinv.acquired⟩
  cases he
  exact ⟨⟨c.lease, leases_getElem? hi, rfl⟩, hw⟩

theorem Inv.setCall {c c' : Call} (hi : y.calls[i]? = some c)
    (hlease : c'.lease = c.lease) (hattempts : some true ∈ c'.attempts → Wrote h i)
    (hphase : c'.phase = .returned .acquired → WroteToken h y.leases c.lease.token) :
    Inv ms h (y.setCall i c') := by
  have hleases : (y.setCall i c').leases = y.leases := leases_set hi hlease
  refine ⟨hleases ▸ hinv.issued, hleases ▸ hinv.apart, hleases ▸ hinv.entry,
    forall_getElem?_set hinv.attempts hattempts, ?_⟩
  rw [hleases]
  exact forall_getElem?_set hinv.acquired (hlease ▸ hphase)

theorem Inv.tryLock (hms : Unshared ms) {m : ℕ} {o : Options}
    {data token : Text} (ho : ms[m]? = some o) (htoken : tokenFor ms y o data = some token) :
    Inv ms h (y.addCall ⟨m, token⟩) := by
  have hleases : (y.addCall ⟨m, token⟩).leases = y.leases ++ [⟨m, token⟩] := map_append
  refine ⟨?_, ?_, fun e he => ?_, forall_getElem?_concat hinv.attempts nofun,
    forall_getElem?_concat (fun j d hj hret => ?_) nofun⟩
  · exact hleases ▸ forall_mem_concat hinv.issued (issued_of_tokenFor ho htoken).1
  · exact hleases ▸ hinv.apart.tryLock hms hinv.issued ho htoken
  · obtain ⟨⟨a, ha, htoken'⟩, hw⟩ := hinv.entry e he
    exact ⟨⟨a, hleases ▸ getElem?_concat_of_some ha, htoken'⟩, hw⟩
  · obtain ⟨w, a, ha, htoken', hw⟩ := hinv.acquired j d hj hret
    exact ⟨w, a, hleases ▸ getElem?_concat_of_some ha, htoken', hw⟩

/-- **Every step keeps the invariant.** -/
theorem Inv.step (hms : Unshared ms) (hm : Move ms y l y') : Inv ms (⟨y, l, y'⟩ :: h) y' := by
  have hpast := hinv.past ⟨y, l, y'⟩
  cases hm with
  | tryLock ho htoken => exact hpast.tryLock hms ho htoken
  | @call i act c c' _ hi hcalls hentry hlease hattempts _ hphase =>
    have hwrote : c'.phase = .returned .acquired →
        WroteToken (⟨y, .call i act, y'⟩ :: h) y.leases c.lease.token := by
      intro hret
      rcases hphase hret with hret | hmem | howner
      · exact hpast.acquired i c hi hret
      · exact ⟨i, c.lease, leases_getElem? hi, rfl, hpast.attempts i c hi hmem⟩
      · obtain ⟨e, he, htoken⟩ := map_eq_some_iff.mp (of_decide_eq_true howner)
        obtain ⟨⟨a, ha, htoken'⟩, hw⟩ := hpast.entry e he
        exact ⟨e.writer, a, ha, htoken'.trans htoken, hw⟩
    exact (hpast.setCall hi hlease (fun hmem => hpast.attempts i c hi (hattempts hmem))
      hwrote).of_calls_eq hcalls fun e he => hentry ▸ he
  | @write i k c hi hentry =>
    let c' : Call := { c with attempts := c.attempts.set k (some true) }
    let y' : Sys := { y.setCall i c' with entry := some ⟨c.lease.token, i⟩ }
    have hw : Wrote (⟨y, .call i (.execute k), y'⟩ :: h) i :=
      ⟨_, mem_cons_self, hentry, rfl⟩
    have hset : Inv ms (⟨y, .call i (.execute k), y'⟩ :: h) (y.setCall i c') :=
      hpast.setCall hi rfl (fun _ => hw) (hpast.acquired i c hi)
    have hi' : (y.setCall i c').calls[i]? = some c' := getElem?_set_of_some hi
    have hwritten := hset.write hi' hw
    exact hwritten
  | keep hcalls hentry => exact hpast.of_calls_eq hcalls fun e he => hentry ▸ he
  | delete hu hi he htoken hcalls hentry =>
    exact hpast.of_calls_eq hcalls fun e he' => nomatch hentry.symm.trans he'
  | expire => exact hpast.of_calls_eq rfl nofun

end

theorem inv_of_run (hms : Unshared ms) (hr : Run (step ms) .new h y) : Inv ms h y := by
  induction hr with
  | nil =>
    refine ⟨fun a ha => ?_, fun i j a b hi => ?_, fun e he => ?_, fun i c hi => ?_,
      fun i c hi => ?_⟩
    · exact nomatch ha
    · exact nomatch hi
    · exact nomatch he
    · exact nomatch hi
    · exact nomatch hi
  | snoc _ hs ih => exact ih.step hms (move_of_step hs)

end Runs

/-! ### Exclusion -/

/-- **A call that shares its token with no other**: its `Mutex` draws tokens, or no other call of it
was made. -/
def Sole (ms : List Options) (y : Sys) (i : ℕ) : Prop :=
  ∀ c, y.calls[i]? = some c → Draws ms c.lease.mutex ∨
    ∀ (j : ℕ) (d : Call), y.calls[j]? = some d → d.lease.mutex = c.lease.mutex → j = i

/-- A lease that was returned without an error, while its token is in the key. -/
def Backed (y : Sys) (i : ℕ) : Prop :=
  ∃ c, y.calls[i]? = some c ∧ c.phase = .returned .acquired ∧
    y.entry.map Entry.token = some c.lease.token

theorem any_iff_backed (y : Sys) (i : ℕ) :
    y.calls[i]?.any (fun c => decide (c.phase = .returned .acquired ∧
      y.entry.map Entry.token = some c.lease.token)) = true ↔ Backed y i := by
  rw [Option.any_eq_true]
  exact exists_congr fun c => and_congr_right fun _ => decide_eq_true_iff

instance (y : Sys) (i : ℕ) : Decidable (Backed y i) := decidable_of_iff _ (any_iff_backed y i)

section Exclusion

variable {key : Text} {ms : List Options} {h : List Ev} {y : Sys}

/-- Calls with one token are of one `Mutex`, and are one call if the token is not shared. -/
theorem Inv.same (hinv : Inv ms h y) {i j : ℕ} {c d : Call} (hi : y.calls[i]? = some c)
    (hj : y.calls[j]? = some d) (htoken : c.lease.token = d.lease.token) :
    c.lease.mutex = d.lease.mutex ∧ (Sole ms y i → i = j) := by
  obtain ⟨hmutex, hdraws⟩ :=
    hinv.apart i j c.lease d.lease (leases_getElem? hi) (leases_getElem? hj) htoken
  refine ⟨hmutex, fun hsole => ?_⟩
  rcases hsole c hi with hd | hother
  · exact hdraws hd
  · exact (hother j d hj hmutex.symm).symm

theorem Inv.writer (hinv : Inv ms h y) {e : Entry} (he : y.entry = some e) :
    ∃ d, y.calls[e.writer]? = some d ∧ d.lease.token = e.token := by
  obtain ⟨⟨a, ha, htoken⟩, -⟩ := hinv.entry e he
  obtain ⟨d, hd, rfl⟩ := map_eq_some_iff.mp (getElem?_map ▸ ha)
  exact ⟨d, hd, htoken⟩

/-- **Leases of different `Mutex` values exclude each other.** -/
theorem mutexes_exclude (hms : Shared key ms) (hr : Run (step ms) .new h y) :
    ∀ (i j : ℕ) (c d : Call), y.calls[i]? = some c → y.calls[j]? = some d → Backed y i →
      Backed y j → c.lease.mutex = d.lease.mutex := by
  rintro i j c d hi hj ⟨c', hi', -, htoken⟩ ⟨d', hj', -, htoken'⟩
  obtain rfl := mem_unique hi hi'
  obtain rfl := mem_unique hj hj'
  exact ((inv_of_run hms.tokens hr).same hi hj (mem_unique htoken htoken')).1

/-- **A call that does not share its token holds the lock alone.** Its lease belongs to an entry
that it has written, its `Unlock` removes only such an entry, and no other lease is backed together
with its own. -/
theorem lease_exclusive (hms : Shared key ms) (hr : Run (step ms) .new h y) :
    (∀ (i : ℕ) (c : Call), y.calls[i]? = some c → c.phase = .returned .acquired → Sole ms y i →
      Wrote h i) ∧
    Always (fun _ ev => ∀ (u : ℕ) (act : UnlockAct) (r : Release) (e : Entry),
      ev.label = .release u act → ev.before.releases[u]? = some r → ev.before.entry = some e →
      ev.after.entry ≠ some e → Sole ms ev.before r.call → e.writer = r.call) h ∧
    ∀ i j, Backed y i → Backed y j → Sole ms y i → i = j := by
  refine ⟨?_, ?_, ?_⟩
  · intro i c hi hret hsole
    have hinv := inv_of_run hms.tokens hr
    obtain ⟨w, a, ha, htoken, hw⟩ := hinv.acquired i c hi hret
    obtain ⟨d, hd, rfl⟩ := map_eq_some_iff.mp (getElem?_map ▸ ha)
    rw [(hinv.same hi hd htoken.symm).2 hsole]
    exact hw
  · refine hr.always (I := Run (step ms) .new) .nil (fun h y l y' hr hs => .snoc hr hs) ?_
    rintro h y l y' hr hs u act r e rfl hu he hne hsole
    have hinv := inv_of_run hms.tokens hr
    cases move_of_step hs with
    | keep hcalls hentry => exact absurd (hentry.trans he) hne
    | delete hu' hi he' htoken hcalls hentry =>
      obtain rfl := mem_unique hu hu'
      obtain rfl := mem_unique he he'
      obtain ⟨d, hd, htoken'⟩ := hinv.writer he
      exact ((hinv.same hi hd (htoken.symm.trans htoken'.symm)).2 hsole).symm
  · rintro i j ⟨c, hi, -, htoken⟩ ⟨d, hj, -, htoken'⟩ hsole
    have heq := mem_unique htoken htoken'
    exact ((inv_of_run hms.tokens hr).same hi hj heq).2 hsole

end Exclusion

/-- Two mutexes on one key, of which the second one has a token. -/
def twoMutexes : List Options := [⟨ascii "k", 1000000000, []⟩, ⟨ascii "k", 1000000000, ascii "t"⟩]

/-- A call writes the key, gets no reply and finds its token there; a call of the other `Mutex` is
refused. -/
theorem lease_exclusive_probed :
    Shared (ascii "k") twoMutexes ∧
    ∃ h y, Run (step twoMutexes) .new h y ∧ Backed y 0 ∧ Wrote h 0 ∧
      y.calls.map Call.phase = [.returned .acquired, .returned .notAcquired] := by
  have hms : Shared (ascii "k") twoMutexes :=
    ⟨by decide +kernel, by decide +kernel, by decide +kernel⟩
  obtain ⟨h, y, hr, hbacked, hphases, hmutex⟩ := exists_run (step twoMutexes) .new
    [.tryLock 0 (List.replicate 32 0), .tryLock 1 [], .call 0 .send, .call 0 (.execute 0),
      .call 1 .send, .call 0 (.fail true), .call 1 (.execute 0), .call 1 .receive,
      .call 0 (.probe true)]
    (fun _ y => Backed y 0 ∧
      y.calls.map Call.phase = [.returned .acquired, .returned .notAcquired] ∧
      y.calls[0]?.map (fun c : Call => c.lease.mutex) = some 0)
    (by decide +kernel)
  have hsole : Sole twoMutexes y 0 := by
    intro c hc
    rw [hc] at hmutex
    have hzero : c.lease.mutex = 0 := Option.some.inj hmutex
    rw [hzero]
    exact .inl ⟨⟨ascii "k", 1000000000, []⟩, rfl, rfl⟩
  have hwrote : Wrote h 0 := by
    obtain ⟨c, hc, hret, -⟩ := hbacked
    exact (lease_exclusive hms hr).1 0 c hc hret hsole
  exact ⟨hms, h, y, hr, hbacked, hwrote, hphases⟩

/-- A `Mutex` with a token. -/
def oneMutex : List Options := [⟨ascii "k", 1000000000, ascii "t"⟩]

/-- **Two calls of a `Mutex` with a token.** The command of the first one is not executed, the
second one writes the key; then the first one finds the token there, and has a lease as well. Its
`Unlock` removes what the second call has written. -/
theorem token_shared :
    Shared (ascii "k") oneMutex ∧
    ∃ h y, Run (step oneMutex) .new h y ∧
      ∃ ev older, h = ev :: older ∧ Backed ev.before 0 ∧ Backed ev.before 1 ∧ ¬Wrote h 0 ∧
        ev.label = .release 0 (.execute 0) ∧
        ev.before.releases[0]?.map Release.call = some 0 ∧
        ev.before.entry.map Entry.writer = some 1 ∧ ev.after.entry = none := by
  refine ⟨⟨by decide +kernel, by decide +kernel, by decide +kernel⟩, ?_⟩
  exact exists_run _ _
    [.tryLock 0 [], .tryLock 0 [], .call 0 .send, .call 1 .send, .call 0 (.fail true),
      .call 1 (.execute 0), .call 1 .receive, .call 0 (.probe true), .call 0 .unlock,
      .release 0 .send, .release 0 (.execute 0)] _ (by decide +kernel)

end Bluetape.RedisLock
