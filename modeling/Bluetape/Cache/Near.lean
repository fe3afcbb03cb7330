import Bluetape.GoString
import Bluetape.Library.Run

/-!
# A cache near the process, invalidated over Pub/Sub

`redisnear.NearCache` keeps the values of a process in a local cache and publishes every change, so
that the other instances forget theirs. Each instance has a subscription and a goroutine that reads
it: a message removes what it names, and an error of the connection removes everything, since
messages may have been missed.

The system has any number of instances. An operation changes the local cache and publishes
afterwards (`Instance.pending`); a message goes to the subscriptions that are up at that moment, and
stays in their `inbox` until it is applied. A lost connection is noticed when `ReceiveMessage`
returns an error; the goroutine then clears the cache, waits, and calls `ReceiveMessage` again,
which subscribes anew.

For the statement only, the system has a log of what was published with success, and each stored
value the length of that log when it was stored.

* `no_invalidated_value`: an instance that has applied all its messages holds no value that another
  one has invalidated, **as long as nothing is stored between the clearing after an error and the
  new subscription**, and if the texts are valid UTF-8 – `json.Marshal` changes the others.
* `invalidated_value_kept`: else it may: the cache is cleared before the subscription is up again,
  and not after.
-/

namespace Bluetape.NearCache

open GoString Lts Function List

/-! ### Messages -/

/-- What is published. -/
inductive Operation where
  | set
  | delete
  | clear
  deriving DecidableEq

/-- Its name in a message. -/
def Operation.text : Operation → Text
  | .set => ascii "set"
  | .delete => ascii "delete"
  | .clear => ascii "clear"

/-- The operation of a name. -/
def Operation.ofText (t : Text) : Option Operation :=
  if t = Operation.text .set then some .set
  else if t = Operation.text .delete then some .delete
  else if t = Operation.text .clear then some .clear
  else none

@[simp] theorem Operation.ofText_text (op : Operation) : Operation.ofText op.text = some op := by
  cases op with
  | set | delete | clear => decide

/-- `invalidationMessage`, as it is read from its JSON text. -/
structure Message where
  version : ℤ
  nameSpace : Text
  originID : Text
  operation : Text
  key : Text
  deriving DecidableEq

/-- The only version. -/
def messageVersion : ℤ := 1

/-- What is published on a channel: a message, or a text that is not one. -/
abbrev Payload := Option Message

/-- Messages that are ignored. -/
inductive DecodeError where
  | malformed
  | unsupportedVersion (version : ℤ)
  | unsupportedOperation (operation : Text)
  | emptyNamespace
  | emptyOrigin
  deriving DecidableEq

/-- `decodeMessage`, with the operation it has found. -/
def decodeMessage : Payload → Except DecodeError (Operation × Message)
  | none => .error .malformed
  | some m =>
    if m.version ≠ messageVersion then .error (.unsupportedVersion m.version)
    else
      match Operation.ofText m.operation with
      | none => .error (.unsupportedOperation m.operation)
      | some op =>
        if m.nameSpace = [] then .error .emptyNamespace
        else if m.originID = [] then .error .emptyOrigin
        else .ok (op, m)

/-! ### Options -/

/-- `Options`, as far as messages depend on them. -/
structure Options where
  nameSpace : Text
  channel : Text
  originID : Text

/-- The options with their defaults. -/
structure Config where
  nameSpace : Text
  channel : Text
  originID : Text

/-- The channel of a namespace. -/
def defaultChannel (nameSpace : Text) : Text :=
  ascii "bluetape:cache:near" ++ ascii ":" ++ nameSpace ++ ascii ":invalidate"

/-- `randomOriginID`, of the bytes it has read. -/
def randomOriginID (bytes : Fin 16 → UInt8) : Text := hexEncode (List.ofFn bytes)

/-- `normalizeOptions`, with the bytes that `randomOriginID` reads. -/
def normalizeOptions (options : Options) (bytes : Fin 16 → UInt8) : Config :=
  let nameSpace := if options.nameSpace = [] then ascii "default" else options.nameSpace
  { nameSpace := nameSpace
    channel := if options.channel = [] then defaultChannel nameSpace else options.channel
    originID := if options.originID = [] then randomOriginID bytes else options.originID }

theorem normalizeOptions_nameSpace_ne_nil (options : Options) (bytes : Fin 16 → UInt8) :
    (normalizeOptions options bytes).nameSpace ≠ [] := by
  simp only [normalizeOptions]
  split_ifs with h
  · decide
  · exact h

theorem normalizeOptions_originID_ne_nil (options : Options) (bytes : Fin 16 → UInt8) :
    (normalizeOptions options bytes).originID ≠ [] := by
  simp only [normalizeOptions]
  by_cases h : options.originID = []
  · rw [if_pos h, randomOriginID, ofFn_succ, hexEncode, flatMap_cons]
    exact cons_ne_nil _ _
  · rw [if_neg h]
    exact h

/-- `encodeMessage` of what `publish` sends, as the subscribers read it. -/
def encodeMessage (cfg : Config) (op : Operation) (key : Text) : Message where
  version := messageVersion
  nameSpace := toValidUTF8 cfg.nameSpace
  originID := toValidUTF8 cfg.originID
  operation := op.text
  key := toValidUTF8 key

/-! ### One instance -/

/-- A value of the local cache, and how much had been published when it was stored. -/
structure Entry (V : Type) where
  value : V
  stored : ℕ
  deriving DecidableEq

/-- A subscription. -/
inductive Link where
  | up
  | broken
  /-- Given up by a `ReceiveMessage` that has returned an error. -/
  | down
  deriving DecidableEq

/-- Where `receive` stands. -/
inductive Phase where
  /-- In `ReceiveMessage`, or applying what it has returned. -/
  | receiving
  /-- `ReceiveMessage` has returned an error. -/
  | failed
  | backoff
  | stopped
  deriving DecidableEq

/-- `NearCache`, with its subscription. -/
structure Instance (V : Type) where
  /-- `cfg.local`. -/
  cache : Text → Option (Entry V)
  closed : Bool
  link : Link
  inbox : List Payload
  phase : Phase
  /-- The changes of the local cache that are still to be published. -/
  pending : List (Operation × Text)

namespace Instance

variable {V : Type}

/-- After `NewPubSub`. -/
def new : Instance V := ⟨fun _ => none, false, .up, [], .receiving, []⟩

/-- A value is stored. -/
def store (x : Instance V) (key : Text) (e : Entry V) : Instance V :=
  { x with cache := fun k => if k = key then some e else x.cache k }

/-- A value is removed. -/
def remove (x : Instance V) (key : Text) : Instance V :=
  { x with cache := fun k => if k = key then none else x.cache k }

/-- All are removed. -/
def clear (x : Instance V) : Instance V := { x with cache := fun _ => none }

/-- A change is to be published. -/
def enqueue (x : Instance V) (op : Operation) (key : Text) : Instance V :=
  { x with pending := x.pending ++ [(op, key)] }

/-- **A message is applied.** -/
def applyMessage (cfg : Config) (x : Instance V) (payload : Payload) : Instance V :=
  match decodeMessage payload with
  | .error _ => x
  | .ok (op, m) =>
    if m.nameSpace ≠ cfg.nameSpace ∨ m.originID = cfg.originID then x
    else
      match op with
      | .set | .delete => x.remove m.key
      | .clear => x.clear

end Instance

/-- What an instance does. -/
inductive Action (V : Type) where
  /-- `Set`, up to its publication. -/
  | set (key : Text) (value : V)
  /-- `Delete`, up to its publication. -/
  | delete (key : Text)
  /-- `Clear`, up to its publication. -/
  | clear
  /-- `GetOrLoad`: the value found, or the one loaded. -/
  | load (key : Text) (value : V)
  | expire (key : Text)
  | lose
  /-- `ReceiveMessage` returns a message, which is applied. -/
  | receive
  /-- `ReceiveMessage` returns an error, and may give the connection up. -/
  | fail (dropped : Bool)
  | clearAll
  | retry
  /-- `ReceiveMessage` subscribes anew. -/
  | resubscribe
  | close
  deriving DecidableEq

/-- **A step of an instance.** -/
def Instance.step {V : Type} (cfg : Config) (published : ℕ) (x : Instance V) :
    Action V → Option (Instance V)
  | .set key value =>
    if x.closed then none else some ((x.store key ⟨value, published⟩).enqueue .set key)
  | .delete key => if x.closed then none else some ((x.remove key).enqueue .delete key)
  | .clear => if x.closed then none else some (x.clear.enqueue .clear [])
  | .load key value =>
    if x.closed then none
    else
      match x.cache key with
      | some _ => some x
      | none => some (x.store key ⟨value, published⟩)
  | .expire key => some (x.remove key)
  | .lose => if x.link = .up then some { x with link := .broken } else none
  | .receive =>
    if x.phase = .receiving ∧ x.link ≠ .down then
      match x.inbox with
      | payload :: rest => some { x.applyMessage cfg payload with inbox := rest }
      | [] => none
    else none
  | .fail dropped =>
    if x.phase ≠ .receiving ∨ (x.link = .broken ∧ dropped = false) then none
    else
      let x := if dropped then { x with link := .down, inbox := [] } else x
      -- The goroutine returns when the instance is closed.
      some { x with phase := if x.closed then .stopped else .failed }
  | .clearAll => if x.phase = .failed then some { x.clear with phase := .backoff } else none
  | .retry =>
    if x.phase = .backoff then
      some { x with phase := if x.closed then .stopped else .receiving }
    else none
  | .resubscribe =>
    if x.phase = .receiving ∧ x.link = .down ∧ x.closed = false then some { x with link := .up }
    else none
  | .close => if x.closed then none else some { x with closed := true, link := .down, inbox := [] }

/-! ### The instances together -/

/-- What was published. -/
structure Publication (ι : Type) where
  origin : ι
  operation : Operation
  key : Text
  deriving DecidableEq

/-- It is about this key. -/
def Publication.Hits {ι : Type} (p : Publication ι) (key : Text) : Prop :=
  p.operation = .clear ∨ p.key = key
  deriving Decidable

/-- The instances, and the log. -/
structure Sys (ι V : Type) where
  inst : ι → Instance V
  log : List (Publication ι)

/-- What happens. -/
inductive Label (ι V : Type) where
  | act (i : ι) (a : Action V)
  /-- A pending change is published. A publication that fails may have been sent. -/
  | publish (i : ι) (n : ℕ) (succeeds sent : Bool)
  | foreign (channel : Text) (payload : Payload)
  deriving DecidableEq

section System

variable {ι V : Type}

/-- A payload reaches the subscriptions of a channel that are up. -/
def deliver (cfg : ι → Config) (channel : Text) (payload : Payload) (inst : ι → Instance V) :
    ι → Instance V := fun i =>
  if (cfg i).channel = channel ∧ (inst i).link = .up then
    { inst i with inbox := (inst i).inbox ++ [payload] }
  else inst i

/-- A change has been published. -/
def Instance.published (x : Instance V) (n : ℕ) : Instance V :=
  { x with pending := x.pending.eraseIdx n }

/-- **One step.** -/
def step [DecidableEq ι] (cfg : ι → Config) (s : Sys ι V) : Label ι V → Option (Sys ι V)
  | .act i a =>
    ((s.inst i).step (cfg i) s.log.length a).map fun x =>
      { s with inst := update s.inst i x }
  | .publish i n succeeds sent =>
    match (s.inst i).pending[n]? with
    | none => none
    | some (op, key) =>
      let inst := update s.inst i ((s.inst i).published n)
      let delivered :=
        deliver cfg (cfg i).channel (some (encodeMessage (cfg i) op key)) inst
      if succeeds then some ⟨delivered, s.log ++ [⟨i, op, key⟩]⟩
      else some ⟨if sent then delivered else inst, s.log⟩
  | .foreign channel payload => some { s with inst := deliver cfg channel payload s.inst }

/-- Nothing is cached. -/
def init : Sys ι V := ⟨fun _ => .new, []⟩

/-! ### What is kept -/

/-- Between the clearing after an error and the new subscription. -/
def Instance.Deaf (x : Instance V) : Prop := x.link = .down ∧ x.phase ≠ .failed deriving Decidable

/-- **Nothing is stored while an instance is deaf**, and keys are valid UTF-8. -/
def Careful (s : Sys ι V) : Label ι V → Prop
  | .act i (.set key _) => ¬(s.inst i).Deaf ∧ validUTF8 key = true
  | .act i (.load key _) => (s.inst i).cache key = none → ¬(s.inst i).Deaf
  | .act _ (.delete key) => validUTF8 key = true
  | _ => True

/-- The options of all instances. -/
def configs (options : ι → Options) (bytes : ι → Fin 16 → UInt8) : ι → Config := fun i =>
  normalizeOptions (options i) (bytes i)

/-- **The instances understand each other**: they have one namespace, which is valid UTF-8, one
channel, and different origins. -/
structure Peers (cfg : ι → Config) : Prop where
  nameSpace : ∀ i j, (cfg i).nameSpace = (cfg j).nameSpace
  valid : ∀ i, validUTF8 (cfg i).nameSpace = true
  channel : ∀ i j, (cfg i).channel = (cfg j).channel
  origin : ∀ i j, i ≠ j → toValidUTF8 (cfg j).originID ≠ (cfg i).originID

/-- The publication has invalidated an entry of an instance. -/
def Invalidates (log : List (Publication ι)) (i : ι) (key : Text) (e : Entry V)
    (p : Publication ι) : Prop :=
  (∃ n, log[n]? = some p ∧ e.stored ≤ n) ∧ p.origin ≠ i ∧ p.Hits key

/-- **What is kept of an instance**: as long as its subscription is up, what has invalidated one of
its values is still to be applied; and a live instance that is deaf has no values. -/
structure Ok (cfg : ι → Config) (log : List (Publication ι)) (i : ι) (x : Instance V) : Prop where
  heard : x.link = .up → ∀ key e p, x.cache key = some e → Invalidates log i key e p →
    some (encodeMessage (cfg p.origin) p.operation p.key) ∈ x.inbox
  deaf : x.closed = false → x.Deaf → ∀ key, x.cache key = none
  pending : ∀ c ∈ x.pending, validUTF8 c.2 = true

/-! ### Applying a message -/

theorem applyMessage_shrinks (cfg : Config) (x : Instance V) (payload : Payload) :
    ∃ cache, x.applyMessage cfg payload = { x with cache := cache } ∧
      ∀ key e, cache key = some e → x.cache key = some e := by
  unfold Instance.applyMessage
  rcases decodeMessage payload with err | ⟨op, m⟩
  · exact ⟨x.cache, rfl, fun _ _ h => h⟩
  · by_cases hskip : m.nameSpace ≠ cfg.nameSpace ∨ m.originID = cfg.originID
    · simp only [if_pos hskip]
      exact ⟨x.cache, rfl, fun _ _ h => h⟩
    · simp only [if_neg hskip]
      have hremove : ∀ key e, (x.remove m.key).cache key = some e → x.cache key = some e := by
        intro key e h
        by_cases hk : key = m.key
        · simp [Instance.remove, hk] at h
        · simpa [Instance.remove, hk] using h
      cases op with
      | set | delete => exact ⟨_, rfl, hremove⟩
      | clear =>
        refine ⟨fun _ => none, rfl, fun key e h => ?_⟩
        cases h

/-- **A message of a peer removes what it names.** -/
theorem applyMessage_hits {options : ι → Options} {bytes : ι → Fin 16 → UInt8}
    (hpeers : Peers (configs options bytes)) {i j : ι} (hne : j ≠ i) {op : Operation} {key k : Text}
    (hvalid : validUTF8 key = true) (hhits : op = .clear ∨ key = k) (x : Instance V) :
    (x.applyMessage (configs options bytes i)
      (some (encodeMessage (configs options bytes j) op key))).cache k = none := by
  have hspace := hpeers.nameSpace j i
  have hname : (configs options bytes j).nameSpace ≠ [] := normalizeOptions_nameSpace_ne_nil _ _
  have horigin : toValidUTF8 (configs options bytes j).originID ≠ [] :=
    toValidUTF8_ne_nil (normalizeOptions_originID_ne_nil _ _)
  have hdecode : decodeMessage (some (encodeMessage (configs options bytes j) op key)) =
      .ok (op, encodeMessage (configs options bytes j) op key) := by
    have hsent : toValidUTF8 (configs options bytes j).nameSpace ≠ [] := toValidUTF8_ne_nil hname
    simp only [decodeMessage, encodeMessage, Operation.ofText_text, ne_eq, not_true, if_false,
      hsent, horigin]
  have hkeep : ¬((encodeMessage (configs options bytes j) op key).nameSpace ≠
        (configs options bytes i).nameSpace ∨
      (encodeMessage (configs options bytes j) op key).originID =
        (configs options bytes i).originID) := by
    rintro (hbad | hbad)
    · exact hbad ((toValidUTF8_of_valid (hpeers.valid j)).trans hspace)
    · exact hpeers.origin i j hne.symm hbad
  unfold Instance.applyMessage
  simp only [hdecode, if_neg hkeep]
  have hremove : key = k → (x.remove (encodeMessage (configs options bytes j) op key).key).cache k =
      none := by
    rintro rfl
    exact if_pos (toValidUTF8_of_valid hvalid).symm
  cases op with
  | clear => rfl
  | set | delete => exact hremove (hhits.resolve_left (by decide))

/-! ### One step -/

namespace Ok

variable {cfg : ι → Config} {log : List (Publication ι)} {i : ι} {x x' : Instance V}

section

variable (h : Ok cfg log i x)
include h

theorem shrink (hcache : ∀ key e, x'.cache key = some e → x.cache key = some e)
    (hlink : x'.link = .up → x.link = .up) (hinbox : ∀ m ∈ x.inbox, m ∈ x'.inbox)
    (hdeaf : x'.closed = false → x'.Deaf → ∀ key, x'.cache key = none)
    (hpending : ∀ c ∈ x'.pending, validUTF8 c.2 = true) : Ok cfg log i x' where
  heard hup key e p he hp := hinbox _ (h.heard (hlink hup) key e p (hcache key e he) hp)
  deaf := hdeaf
  pending := hpending

theorem of_cache {cache : Text → Option (Entry V)}
    (hcache : ∀ key e, cache key = some e → x.cache key = some e) :
    Ok cfg log i { x with cache := cache } := by
  refine h.shrink hcache id (fun _ hm => hm) (fun hlive hdeaf key => ?_) h.pending
  refine Option.eq_none_iff_forall_ne_some.mpr fun e hc => ?_
  exact Option.some_ne_none e ((hcache key e hc).symm.trans (h.deaf hlive hdeaf key))

theorem remove (key : Text) : Ok cfg log i (x.remove key) := by
  refine h.of_cache fun k e he => ?_
  by_cases hk : k = key
  · simp [hk] at he
  · simpa [hk] using he

theorem clear : Ok cfg log i x.clear := by
  refine h.of_cache fun k e he => ?_
  cases he

theorem enqueue (op : Operation) {key : Text} (hvalid : validUTF8 key = true) :
    Ok cfg log i (x.enqueue op key) := by
  exact ⟨h.heard, h.deaf, forall_mem_concat h.pending hvalid⟩

theorem store (hdeaf : ¬x.Deaf) (key : Text) (value : V) :
    Ok cfg log i (x.store key ⟨value, log.length⟩) where
  heard hup k e p he hp := by
    by_cases hk : k = key
    · obtain rfl : ⟨value, log.length⟩ = e := by simpa [Instance.store, hk] using he
      obtain ⟨⟨n, hn, hle⟩, -⟩ := hp
      have hlt := (List.getElem?_eq_some_iff.mp hn).1
      exact absurd hle (Nat.not_le_of_lt hlt)
    · exact h.heard hup k e p (by simpa [Instance.store, hk] using he) hp
  deaf _ hd := absurd hd hdeaf
  pending := h.pending

end

/-- **A message is applied**: it is to be applied no more, and it has removed what it names. -/
theorem receive {options : ι → Options} {bytes : ι → Fin 16 → UInt8}
    (hpeers : Peers (configs options bytes)) (h : Ok (configs options bytes) log i x)
    (hlog : ∀ p ∈ log, validUTF8 p.key = true) {payload : Payload} {rest : List Payload}
    (hinbox : x.inbox = payload :: rest) :
    Ok (configs options bytes) log i
      { x.applyMessage (configs options bytes i) payload with inbox := rest } := by
  obtain ⟨cache, heq, hcache⟩ := applyMessage_shrinks (configs options bytes i) x payload
  have hsmall := h.of_cache hcache
  refine ⟨fun hup key e p he hp => ?_, ?_, ?_⟩
  · -- What has invalidated the value is in the inbox, and is not the message that was applied.
    rw [heq] at hup he
    have hmem := h.heard hup key e p (hcache key e he) hp
    rw [hinbox] at hmem
    rcases mem_cons.mp hmem with hhead | htail
    · obtain ⟨⟨n, hn, -⟩, hne, hhits⟩ := hp
      have hgone := applyMessage_hits hpeers hne (hlog p (mem_of_getElem? hn)) hhits x
      rw [hhead, heq] at hgone
      exact nomatch he.symm.trans hgone
    · exact htail
  · rw [heq]
    exact hsmall.deaf
  · rw [heq]
    exact hsmall.pending

/-- **One action of an instance.** -/
theorem step {options : ι → Options} {bytes : ι → Fin 16 → UInt8}
    (hpeers : Peers (configs options bytes)) (h : Ok (configs options bytes) log i x)
    (hlog : ∀ p ∈ log, validUTF8 p.key = true) {a : Action V}
    (hset : ∀ key value, a = .set key value → ¬x.Deaf ∧ validUTF8 key = true)
    (hload : ∀ key value, a = .load key value → x.cache key = none → ¬x.Deaf)
    (hdelete : ∀ key, a = .delete key → validUTF8 key = true)
    (hs : x.step (configs options bytes i) log.length a = some x') :
    Ok (configs options bytes) log i x' := by
  cases a with
  | set key value =>
    obtain ⟨-, ⟨⟩⟩ := Option.ite_none_left_eq_some.mp hs
    obtain ⟨hdeaf, hvalid⟩ := hset key value rfl
    exact (h.store hdeaf key value).enqueue .set hvalid
  | delete key =>
    obtain ⟨-, ⟨⟩⟩ := Option.ite_none_left_eq_some.mp hs
    exact (h.remove key).enqueue .delete (hdelete key rfl)
  | clear =>
    obtain ⟨-, ⟨⟩⟩ := Option.ite_none_left_eq_some.mp hs
    exact h.clear.enqueue .clear rfl
  | load key value =>
    obtain ⟨-, hs⟩ := Option.ite_none_left_eq_some.mp hs
    cases hc : x.cache key with
    | some e =>
      rw [hc] at hs
      cases hs
      exact h
    | none =>
      rw [hc] at hs
      cases hs
      exact h.store (hload key value rfl hc) key value
  | expire key =>
    cases hs
    exact h.remove key
  | lose =>
    obtain ⟨-, ⟨⟩⟩ := Option.ite_none_right_eq_some.mp hs
    exact ⟨fun hup => (nomatch (hup : Link.broken = .up)),
      fun _ hdeaf => (nomatch (hdeaf.1 : Link.broken = .down)), h.pending⟩
  | receive =>
    obtain ⟨-, hs⟩ := Option.ite_none_right_eq_some.mp hs
    split at hs <;> cases hs
    next hinbox => exact h.receive hpeers hlog hinbox
  | fail dropped =>
    obtain ⟨-, ⟨⟩⟩ := Option.ite_none_left_eq_some.mp hs
    -- A live instance is now in the phase in which it may still have values.
    cases dropped with
    | true =>
      refine ⟨fun hup => (nomatch (hup : Link.down = .up)), fun hlive hdeaf => ?_, h.pending⟩
      exact absurd (if_neg (by simpa using hlive)) hdeaf.2
    | false =>
      refine ⟨h.heard, fun hlive hdeaf => ?_, h.pending⟩
      exact absurd (if_neg (by simpa using hlive)) hdeaf.2
  | clearAll =>
    obtain ⟨-, ⟨⟩⟩ := Option.ite_none_right_eq_some.mp hs
    refine ⟨fun _ key e p he => ?_, fun _ _ _ => rfl, h.pending⟩
    cases he
  | retry =>
    obtain ⟨hphase, ⟨⟩⟩ := Option.ite_none_right_eq_some.mp hs
    refine ⟨h.heard, fun hlive hdeaf => h.deaf hlive ⟨hdeaf.1, ?_⟩, h.pending⟩
    rw [hphase]
    decide
  | resubscribe =>
    obtain ⟨⟨hphase, hdown, hlive⟩, ⟨⟩⟩ := Option.ite_none_right_eq_some.mp hs
    have hempty := h.deaf hlive ⟨hdown, by rw [hphase]; decide⟩
    refine ⟨fun _ key e p he => ?_, fun _ _ => hempty, h.pending⟩
    exact nomatch he.symm.trans (hempty key)
  | close =>
    obtain ⟨-, ⟨⟩⟩ := Option.ite_none_left_eq_some.mp hs
    exact ⟨fun hup => (nomatch (hup : Link.down = .up)),
      fun hlive => (nomatch (hlive : true = false)), h.pending⟩

/-- Something is published: it is still to be applied where the subscription is up. -/
theorem publish (h : Ok cfg log i x) (p : Publication ι)
    (hsent : x.link = .up → some (encodeMessage (cfg p.origin) p.operation p.key) ∈ x.inbox) :
    Ok cfg (log ++ [p]) i x where
  heard hup key e q he hq := by
    obtain ⟨⟨n, hn, hle⟩, hrest⟩ := hq
    by_cases hlt : n < log.length
    · rw [getElem?_append_left hlt] at hn
      exact h.heard hup key e q he ⟨⟨n, hn, hle⟩, hrest⟩
    · rw [getElem?_append_right (Nat.not_lt.mp hlt)] at hn
      obtain rfl := mem_singleton.mp (mem_of_getElem? hn)
      exact hsent hup
  deaf := h.deaf
  pending := h.pending

theorem deliver {inst : ι → Instance V} (h : Ok cfg log i (inst i)) (channel : Text)
    (payload : Payload) : Ok cfg log i (deliver cfg channel payload inst i) := by
  unfold NearCache.deliver
  split_ifs with hto
  · refine h.shrink (fun _ _ he => he) id (fun m hm => mem_append_left _ hm) h.deaf h.pending
  · exact h

end Ok

/-! ### Whole runs -/

/-- All keys are valid, and each instance is in order. -/
structure Sound (cfg : ι → Config) (s : Sys ι V) : Prop where
  log : ∀ p ∈ s.log, validUTF8 p.key = true
  inst : ∀ i, Ok cfg s.log i (s.inst i)

theorem sound_init (cfg : ι → Config) : Sound cfg (init : Sys ι V) := by
  refine ⟨fun p hp => ?_, fun i => ⟨fun _ key e p he => ?_, fun _ _ _ => rfl, fun c hc => ?_⟩⟩
  · cases hp
  · cases he
  · cases hc

theorem Ok.published {cfg : ι → Config} {log : List (Publication ι)} {i : ι} {x : Instance V}
    (h : Ok cfg log i x) (n : ℕ) : Ok cfg log i (x.published n) :=
  ⟨h.heard, h.deaf, fun c hc => h.pending c (mem_of_mem_eraseIdx hc)⟩

section Runs

variable [DecidableEq ι] {options : ι → Options} {bytes : ι → Fin 16 → UInt8}

theorem ok_update {cfg : ι → Config} {log : List (Publication ι)} {inst : ι → Instance V} {i : ι}
    {x : Instance V} (hall : ∀ j, Ok cfg log j (inst j)) (hx : Ok cfg log i x) (j : ι) :
    Ok cfg log j (update inst i x j) := by
  by_cases hj : j = i
  · subst hj
    rw [update_self]
    exact hx
  · rw [update_of_ne hj]
    exact hall j

/-- **One step of the system.** -/
theorem Sound.step (hpeers : Peers (configs options bytes)) {s s' : Sys ι V} {l : Label ι V}
    (h : Sound (configs options bytes) s) (hcareful : Careful s l)
    (hs : NearCache.step (configs options bytes) s l = some s') :
    Sound (configs options bytes) s' := by
  cases l with
  | act i a =>
    obtain ⟨x, hx, rfl⟩ := Option.map_eq_some_iff.mp hs
    refine ⟨h.log, ok_update h.inst ?_⟩
    refine (h.inst i).step hpeers h.log ?_ ?_ ?_ hx
    · rintro key value rfl
      exact hcareful
    · rintro key value rfl
      exact hcareful
    · rintro key rfl
      exact hcareful
  | publish i n succeeds sent =>
    unfold NearCache.step at hs
    cases hc : (s.inst i).pending[n]? with
    | none =>
      simp only [hc] at hs
      cases hs
    | some c =>
      obtain ⟨op, key⟩ := c
      simp only [hc] at hs
      have hinst : ∀ j, Ok (configs options bytes) s.log j
          (update s.inst i ((s.inst i).published n) j) :=
        ok_update h.inst ((h.inst i).published n)
      cases succeeds with
      | true =>
        cases hs
        refine ⟨forall_mem_concat h.log ?_, fun j => ?_⟩
        · exact (h.inst i).pending _ (mem_of_getElem? hc)
        · refine ((hinst j).deliver _ _).publish ⟨i, op, key⟩ fun hup => ?_
          unfold NearCache.deliver at hup ⊢
          by_cases hto : (configs options bytes j).channel = (configs options bytes i).channel ∧
              (update s.inst i ((s.inst i).published n) j).link = .up
          · rw [if_pos hto]
            exact mem_append_right _ (mem_singleton.mpr rfl)
          · rw [if_neg hto] at hup
            exact absurd ⟨hpeers.channel j i, hup⟩ hto
      | false =>
        cases hs
        refine ⟨h.log, fun j => ?_⟩
        cases sent with
        | true => exact (hinst j).deliver _ _
        | false => exact hinst j
  | foreign channel payload =>
    cases hs
    exact ⟨h.log, fun j => (h.inst j).deliver channel payload⟩

/-- **A near cache holds no value that a peer has invalidated**: in every run of any number of
instances of one namespace with one channel and different origins, in which nothing is stored
between the clearing after an error and the new subscription, an instance whose subscription is up
and that has applied all its messages holds no value that was stored before another instance
published a `Set` or a `Delete` of its key, or a `Clear`. -/
theorem no_invalidated_value (hpeers : Peers (configs options bytes))
    {history : List (Event (Sys ι V) (Label ι V))} {s : Sys ι V}
    (hrun : Run (step (configs options bytes)) init history s)
    (hcareful : ∀ ev ∈ history, Careful ev.before ev.label) (i : ι)
    (hup : (s.inst i).link = .up) (happlied : (s.inst i).inbox = []) (key : Text) (e : Entry V)
    (he : (s.inst i).cache key = some e) (n : ℕ) (p : Publication ι) (hn : s.log[n]? = some p)
    (hstored : e.stored ≤ n) (hpeer : p.origin ≠ i) : ¬p.Hits key := by
  have hsound : Sound (configs options bytes) s :=
    hrun.invariant_of_mem hcareful (sound_init _) fun _ _ _ h hs hc => h.step hpeers hc hs
  intro hhits
  have hmem := (hsound.inst i).heard hup key e p he ⟨⟨n, hn, hstored⟩, hpeer, hhits⟩
  rw [happlied] at hmem
  exact nomatch hmem

end Runs

end System

/-! ### Two instances -/

/-- Two instances. -/
def pairOptions : Bool → Options
  | false => ⟨ascii "catalog", [], ascii "origin-a"⟩
  | true => ⟨ascii "catalog", [], ascii "origin-b"⟩

/-- Their options. -/
def pairConfigs : Bool → Config := configs pairOptions fun _ _ => 0

theorem peers_pair : Peers pairConfigs where
  nameSpace := by decide +kernel
  valid := by decide +kernel
  channel := by decide +kernel
  origin := by decide +kernel

/-- The second instance has two values; the first invalidates one of them, and the message is
applied. -/
def invalidation : List (Label Bool ℕ) :=
  [.act true (.load (ascii "item") 1), .act true (.load (ascii "other") 3),
    .act false (.set (ascii "item") 2), .publish false 0 true true, .act true .receive,
    .act false .receive]

instance (s : Sys Bool ℕ) : (l : Label Bool ℕ) → Decidable (Careful s l)
  | .act i (.set key _) => inferInstanceAs (Decidable (¬(s.inst i).Deaf ∧ validUTF8 key = true))
  | .act i (.load key _) =>
    inferInstanceAs (Decidable ((s.inst i).cache key = none → ¬(s.inst i).Deaf))
  | .act _ (.delete key) => inferInstanceAs (Decidable (validUTF8 key = true))
  | .act _ .clear | .act _ (.expire _) | .act _ .lose | .act _ .receive | .act _ (.fail _)
  | .act _ .clearAll | .act _ .retry | .act _ .resubscribe | .act _ .close
  | .publish .. | .foreign .. => .isTrue trivial

theorem no_invalidated_value_pair :
    ∃ (history : List (Event (Sys Bool ℕ) (Label Bool ℕ))) (s : Sys Bool ℕ),
      Run (step pairConfigs) init history s ∧
      (∀ ev ∈ history, Careful ev.before ev.label) ∧ (s.inst true).link = .up ∧
      (s.inst true).inbox = [] ∧ (s.inst true).cache (ascii "other") = some ⟨3, 0⟩ ∧
      s.log = [⟨false, .set, ascii "item"⟩] ∧
      ¬(⟨false, .set, ascii "item"⟩ : Publication Bool).Hits (ascii "other") := by
  obtain ⟨history, s, hrun, hcareful, hup, happlied, he, hlog⟩ :=
    exists_run (step pairConfigs) init invalidation
    (fun history (s : Sys Bool ℕ) => (∀ ev ∈ history, Careful ev.before ev.label) ∧
      (s.inst true).link = .up ∧ (s.inst true).inbox = [] ∧
      (s.inst true).cache (ascii "other") = some ⟨3, 0⟩ ∧
      s.log = [⟨false, .set, ascii "item"⟩]) (by decide +kernel)
  refine ⟨history, s, hrun, hcareful, hup, happlied, he, hlog, ?_⟩
  exact no_invalidated_value peers_pair hrun hcareful true hup happlied (ascii "other") ⟨3, 0⟩ he 0
    _ (by rw [hlog]; rfl) (Nat.le_refl 0) (by decide)

/-- The subscription of the second instance is lost; the error clears its cache. It stores a value
before it has subscribed anew, and the first instance invalidates it meanwhile. -/
def storedWhileDeaf : List (Label Bool ℕ) :=
  [.act true .lose, .act true (.fail true), .act true .clearAll,
    .act true (.load (ascii "item") 1), .act false (.set (ascii "item") 2),
    .publish false 0 true true, .act true .retry, .act true .resubscribe]

/-- **A near cache may hold a value that a peer has invalidated.** -/
theorem invalidated_value_kept :
    Peers pairConfigs ∧
    ∃ (history : List (Event (Sys Bool ℕ) (Label Bool ℕ))) (s : Sys Bool ℕ),
      Run (step pairConfigs) init history s ∧ (s.inst true).link = .up ∧
      (s.inst true).phase = .receiving ∧ (s.inst true).inbox = [] ∧
      (s.inst true).cache (ascii "item") = some ⟨1, 0⟩ ∧
      s.log = [⟨false, .set, ascii "item"⟩] ∧
      (⟨false, .set, ascii "item"⟩ : Publication Bool).Hits (ascii "item") := by
  refine ⟨peers_pair, ?_⟩
  obtain ⟨history, s, hrun, hup, hphase, happlied, he, hlog⟩ := exists_run (step pairConfigs) init
    storedWhileDeaf
    (fun _ (s : Sys Bool ℕ) => (s.inst true).link = .up ∧
      (s.inst true).phase = .receiving ∧ (s.inst true).inbox = [] ∧
      (s.inst true).cache (ascii "item") = some ⟨1, 0⟩ ∧
      s.log = [⟨false, .set, ascii "item"⟩]) (by decide +kernel)
  exact ⟨history, s, hrun, hup, hphase, happlied, he, hlog, .inr rfl⟩

end Bluetape.NearCache
