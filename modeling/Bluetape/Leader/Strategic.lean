import Bluetape.Go
import Bluetape.GoString
import Bluetape.Library.Run
import Bluetape.Library.SortedSet
import Mathlib.Data.List.Lex

/-!
# The registry of a strategic elector

Candidates for leadership are registered in Redis, in groups, and each for a time of its own. A
candidate is a key that expires, and holds its record in JSON; its node is a member of the index of
the group, a sorted set whose scores are the same expiries. The index is a key too, and registering
a candidate sets its expiry to five seconds after that of the candidate – whatever else the index
holds. Listing a group drops the members that have expired, reads the keys of the rest, and sorts
what it finds by node.

What the registry is for is said apart from Redis (`Registry`): the latest registration of each node
in each group that has not been unregistered. A listing is right (`Correct`) if it has exactly the
candidates whose registration is younger than its time to live, each once, as it was registered, and
in order. When that is so is the subject of `listed_iff`.

All groups are in one key space (`Keyspace`), and a key is made of the names by joining them with
colons, which the names may have too: a candidate of one group can have the key of another group's
index, or of another group's candidate. So a command may find a value of the wrong type; a script
that fails keeps what it has done up to then. And JSON does not keep every record as it is
(`Config.recoded`).

The calls are made one at a time. Times are server times in milliseconds, and do not decrease; a key
is gone at its expiry.
-/

namespace Bluetape.Leader.Strategic

open Go (second millisecond wrap64 minInt64 maxInt64)
open GoString Lts Function List SortedSet

/-- Bytes in their order; texts are compared byte by byte. -/
scoped instance instLinearOrderByte : LinearOrder UInt8 where
  le_refl := UInt8.le_refl
  le_trans _ _ _ := UInt8.le_trans
  lt_iff_le_not_ge a b := by
    rw [UInt8.lt_iff_le_and_ne]
    exact and_congr_right fun hle => not_congr
      ⟨fun heq => heq ▸ UInt8.le_refl a, fun hge => UInt8.le_antisymm hle hge⟩
  le_antisymm _ _ := UInt8.le_antisymm
  le_total := UInt8.le_total
  toDecidableLE := inferInstance

/-! ### Times to live -/

/-- A `time.Duration`. -/
structure Duration where
  nanoseconds : ℤ
  min_le : minInt64 ≤ nanoseconds
  le_max : nanoseconds ≤ maxInt64

/-- `durationMillis`: rounded up, with the overflow of the sum. -/
def durationMillis (value : Duration) : ℤ :=
  (wrap64 (value.nanoseconds + millisecond - 1)).tdiv millisecond

/-- `bufferMillis`, from `strategicIndexTTLBuffer`. -/
def bufferMillis : ℤ := 5 * second / millisecond

/-- **What is positive in milliseconds has been rounded up**: the sum did not overflow. -/
theorem durationMillis_eq {d : Duration} (h : 0 < durationMillis d) :
    0 < d.nanoseconds ∧ durationMillis d = (d.nanoseconds + 999999) / 1000000 := by
  have hmin := d.min_le
  have hmax := d.le_max
  simp only [durationMillis, wrap64, minInt64, maxInt64, millisecond] at *
  set sum := (d.nanoseconds + 1000000 - 1 - -9223372036854775808) % 18446744073709551616 +
    -9223372036854775808 with hsum
  have hpos : 0 ≤ sum := by
    by_contra hneg
    have hle : 0 ≤ (-sum).tdiv 1000000 := Int.tdiv_nonneg (by omega) (by decide)
    rw [Int.neg_tdiv] at hle
    omega
  rw [Int.tdiv_eq_ediv_of_nonneg hpos] at h ⊢
  omega

/-- An age in milliseconds is below a time to live if it is below its rounding. -/
theorem mul_lt_iff_lt_durationMillis {d : Duration} (h : 0 < durationMillis d) (age : ℤ) :
    age * millisecond < d.nanoseconds ↔ age < durationMillis d := by
  obtain ⟨-, heq⟩ := durationMillis_eq h
  rw [heq, millisecond]
  omega

/-! ### Records -/

/-- `CandidateInfo`. -/
structure CandidateInfo (μ : Type) where
  nodeID : Text
  /-- `RegisteredAt` in nanoseconds since 1970, unless it is zero. -/
  registeredAt : Option ℤ
  /-- The other times, the counts, the weight and the metadata. -/
  rest : μ
  deriving DecidableEq, Repr

variable {μ : Type}

/-- The record that is stored: `RegisteredAt` is filled in from the caller's clock. -/
def CandidateInfo.stamped (info : CandidateInfo μ) (wall : ℤ) : CandidateInfo μ :=
  { info with registeredAt := some (info.registeredAt.getD wall) }

/-- The time is in the years 0 to 9999, the only ones that `MarshalJSON` of a time accepts. -/
def hasYear (instant : ℤ) : Bool :=
  decide (-62167219200 * second ≤ instant) && decide (instant < 253402300800 * second)

/-- An elector: its keys, and what JSON does to the rest of a record. -/
structure Config (μ : Type) where
  /-- `KeyPrefix`. -/
  keyPrefix : Text
  /-- The rest of a record after `json.Marshal` and `json.Unmarshal`, or `none` if the former
  fails, as it does for a weight that is not a number. -/
  json : μ → Option μ

variable (c : Config μ)

/-- **What `json.Unmarshal` reads of what `json.Marshal` has written.** -/
def Config.recoded (info : CandidateInfo μ) : Option (CandidateInfo μ) :=
  if info.registeredAt.all hasYear then
    (c.json info.rest).map fun rest => ⟨toValidUTF8 info.nodeID, info.registeredAt, rest⟩
  else none

/-! ### Keys -/

/-- `indexKey`. -/
def Config.indexKey (group : Text) : Text := c.keyPrefix ++ ascii ":" ++ group ++ ascii ":index"

/-- `candidateKeyPrefix`. -/
def Config.candidateKeyPrefix (group : Text) : Text :=
  c.keyPrefix ++ ascii ":" ++ group ++ ascii ":candidates:"

/-- `candidateKey`. -/
def Config.candidateKey (group nodeID : Text) : Text := c.candidateKeyPrefix group ++ nodeID

section Keys

variable {c : Config μ} {group group' node node' : Text}

theorem Config.indexKey_injective (h : c.indexKey group = c.indexKey group') : group = group' := by
  simpa [indexKey] using h

theorem Config.node_of_candidateKey (h : c.candidateKey group node = c.candidateKey group node') :
    node = node' := by
  simpa [candidateKey] using h

theorem Config.group_of_candidateKey (h : c.candidateKey group node = c.candidateKey group' node) :
    group = group' := by
  simpa [candidateKey, candidateKeyPrefix] using h

/-- **In its own group a candidate is not the index.** -/
theorem Config.candidateKey_ne_indexKey : c.candidateKey group node ≠ c.indexKey group := by
  rw [candidateKey, candidateKeyPrefix, indexKey, append_assoc _ _ node, Ne, append_cancel_left_eq]
  exact nofun

end Keys

/-! ### What Redis holds -/

/-- A value of a key: a record, as it will be read, or an index. -/
inductive Value (μ : Type) where
  | record (info : CandidateInfo μ)
  | index (zset : SortedSet Text)

/-- A key with its expiry. -/
structure Entry (μ : Type) where
  value : Value μ
  expireAt : ℤ

/-- **The keys of Redis.** -/
abbrev Keyspace (μ : Type) : Type := Text → Option (Entry μ)

/-- What a call returns for an error. -/
inductive Failure where
  | blankGroup
  | blankNodeID
  | nonPositiveTTL
  /-- `json.Marshal` fails. -/
  | encode
  /-- `SET` refuses the expiry. -/
  | invalidExpire
  /-- `WRONGTYPE`: the value is not what the command is for. -/
  | wrongType
  deriving DecidableEq, Repr

/-- A key that is there at time `t`. -/
def Keyspace.find (ks : Keyspace μ) (t : ℤ) (key : Text) : Option (Value μ) :=
  ((ks key).filter fun e => decide (t < e.expireAt)).map Entry.value

/-- A sorted set, as its commands find it: a key that is not there is a set without members. -/
def Keyspace.members (ks : Keyspace μ) (t : ℤ) (key : Text) : Except Failure (SortedSet Text) :=
  match ks.find t key with
  | none => .ok empty
  | some (.index zset) => .ok zset
  | some (.record _) => .error .wrongType

/-- A sorted set that is stored. One without members is no key. -/
def indexEntry (zset : SortedSet Text) (expireAt : ℤ) : Option (Entry μ) :=
  if zset.rows.isEmpty then none else some ⟨.index zset, expireAt⟩

/-- Members are removed from a sorted set, which keeps its expiry. -/
def Keyspace.setMembers (ks : Keyspace μ) (key : Text) (zset : SortedSet Text) : Keyspace μ :=
  update ks key ((ks key).bind fun e => indexEntry zset e.expireAt)

/-! ### The calls -/

/-- `strategicRegisterScript`. When the index is of the wrong type, the record has been set. -/
def registerScript (ks : Keyspace μ) (candidate index : Text) (payload : CandidateInfo μ)
    (ttl : ℤ) (node : Text) (t : ℤ) : Option Failure × Keyspace μ :=
  if ttl ≤ 0 then (some .invalidExpire, ks)
  else
    let ks : Keyspace μ := update ks candidate (some ⟨.record payload, t + ttl⟩)
    match ks.members t index with
    | .error e => (some e, ks)
    | .ok zset =>
      (none, update ks index (indexEntry (zset.add (t + ttl) node) (t + ttl + bufferMillis)))

/-- `RegisterCandidate`. -/
def registerCandidate (ks : Keyspace μ) (group : Text) (info : CandidateInfo μ) (ttl : Duration)
    (wall t : ℤ) : Option Failure × Keyspace μ :=
  if trimSpace group = [] then (some .blankGroup, ks)
  else if trimSpace info.nodeID = [] then (some .blankNodeID, ks)
  else if ttl.nanoseconds ≤ 0 then (some .nonPositiveTTL, ks)
  else
    match c.recoded (info.stamped wall) with
    | none => (some .encode, ks)
    | some payload =>
      registerScript ks (c.candidateKey group info.nodeID) (c.indexKey group) payload
        (durationMillis ttl) info.nodeID t

/-- `UnregisterCandidate`: `DEL`, which deletes a key of any type, and then `ZREM` at a time of its
own. -/
def unregisterCandidate (ks : Keyspace μ) (group node : Text) (later : ℤ) :
    Option Failure × Keyspace μ :=
  if trimSpace group = [] then (some .blankGroup, ks)
  else if trimSpace node = [] then (some .blankNodeID, ks)
  else
    let ks : Keyspace μ := update ks (c.candidateKey group node) none
    match ks.members later (c.indexKey group) with
    | .error e => (some e, ks)
    | .ok zset => (none, ks.setMembers (c.indexKey group) (zset.remove node))

/-- The loop of `strategicListScript` over the members of the index, with what it leaves of it. -/
def listLoop (ks : Keyspace μ) (t : ℤ) (candidates : Text) :
    List Text → SortedSet Text → Except Failure (List (CandidateInfo μ)) × SortedSet Text
  | [], zset => (.ok [], zset)
  | id :: ids, zset =>
    match ks.find t (candidates ++ id) with
    | none => listLoop ks t candidates ids (zset.remove id)
    | some (.record info) =>
      let rest := listLoop ks t candidates ids zset
      (rest.1.map (info :: ·), rest.2)
    | some (.index _) => (.error .wrongType, zset)

/-- `strategicListScript`. -/
def listScript (ks : Keyspace μ) (index candidates : Text) (t : ℤ) :
    Except Failure (List (CandidateInfo μ)) × Keyspace μ :=
  match ks.members t index with
  | .error e => (.error e, ks)
  | .ok zset =>
    let young := zset.removeRange 0 t
    let result := listLoop ks t candidates young.range young
    (result.1, ks.setMembers index result.2)

/-- `ListCandidates`. -/
def listCandidates (ks : Keyspace μ) (group : Text) (t : ℤ) :
    Except Failure (List (CandidateInfo μ)) × Keyspace μ :=
  if trimSpace group = [] then (.error .blankGroup, ks)
  else
    let result := listScript ks (c.indexKey group) (c.candidateKeyPrefix group) t
    (result.1.map fun l => l.insertionSort fun a b => a.nodeID ≤ b.nodeID, result.2)

/-! ### What the registry is for -/

/-- A registration: the record, when it was made, and for how long. -/
structure Registration (μ : Type) where
  info : CandidateInfo μ
  since : ℤ
  ttl : Duration

/-- The registration is younger than its time to live. -/
def Registration.Young (r : Registration μ) (t : ℤ) : Prop :=
  (t - r.since) * millisecond < r.ttl.nanoseconds

/-- **The latest registration of each node** of a group, unless it has been unregistered. -/
abbrev Registry (μ : Type) : Type := Text → Option (Registration μ)

/-- The key space, and beside it the registry of each group. -/
structure Sys (μ : Type) where
  keys : Keyspace μ
  registry : Text → Registry μ
  clock : ℤ

/-- Nothing is registered. -/
def Sys.init (μ : Type) : Sys μ := ⟨fun _ => none, fun _ _ => none, 0⟩

/-- A call. -/
inductive Call (μ : Type) where
  /-- `RegisterCandidate`; the caller's clock reads `wall`. -/
  | register (group : Text) (info : CandidateInfo μ) (ttl : Duration) (wall : ℤ)
  /-- `UnregisterCandidate`; its second command runs at `later`. -/
  | unregister (group node : Text) (later : ℤ)
  /-- `ListCandidates`. -/
  | list (group : Text)

/-- A registration that has succeeded is the latest one. -/
def Sys.register (y : Sys μ) (group node : Text) (r : Option (Registration μ)) :
    Text → Registry μ :=
  update y.registry group (update (y.registry group) node r)

/-- **One call at a server time**, which does not decrease. A call that fails leaves the registry
as it is. -/
def step (y : Sys μ) (a : Call μ × ℤ) : Option (Sys μ) :=
  if a.2 < y.clock then none
  else
    match a.1 with
    | .register group info ttl wall =>
      match registerCandidate c y.keys group info ttl wall a.2 with
      | (some _, keys) => some { y with keys := keys, clock := a.2 }
      | (none, keys) =>
        some ⟨keys, y.register group info.nodeID (some ⟨info.stamped wall, a.2, ttl⟩), a.2⟩
    | .unregister group node later =>
      if later < a.2 then none
      else
        match unregisterCandidate c y.keys group node later with
        | (some _, keys) => some { y with keys := keys, clock := later }
        | (none, keys) => some ⟨keys, y.register group node none, later⟩
    | .list group =>
      some { y with keys := (listCandidates c y.keys group a.2).2, clock := a.2 }

/-- **A listing of a group at time `t` is right**: it is sorted by node, no node is in it twice,
and it has exactly the registrations that are young. -/
def Correct (y : Sys μ) (group : Text) (t : ℤ) : Prop :=
  ∃ listed, (listCandidates c y.keys group t).1 = .ok listed ∧
    listed.Pairwise (fun a b => a.nodeID < b.nodeID) ∧
    ∀ info, info ∈ listed ↔
      ∃ r, y.registry group info.nodeID = some r ∧ r.info = info ∧ r.Young t

/-! ### Keys and values -/

section Values

variable {ks : Keyspace μ} {t : ℤ} {key key' : Text} {zset : SortedSet Text}

theorem indexEntry_add (x : ℤ) (node : Text) (expireAt : ℤ) :
    (indexEntry (zset.add x node) expireAt : Option (Entry μ)) =
      some ⟨.index (zset.add x node), expireAt⟩ := by
  refine if_neg fun hempty => ?_
  have hmem := score_eq_some.mp (score_add_self (s := zset) (x := x) (a := node))
  rw [isEmpty_iff.mp hempty] at hmem
  exact not_mem_nil hmem

theorem Keyspace.find_update_of_ne (h : key ≠ key') (e : Option (Entry μ)) :
    Keyspace.find (update ks key' e) t key = ks.find t key := by
  rw [Keyspace.find, update_of_ne h, Keyspace.find]

theorem Keyspace.find_update_self (e : Entry μ) (h : t < e.expireAt) :
    Keyspace.find (update ks key (some e)) t key = some e.value := by
  rw [Keyspace.find, update_self, Option.filter_some_pos (by simpa using h), Option.map_some]

theorem Keyspace.members_of_find (h : ks.find t key = none) : ks.members t key = .ok empty := by
  rw [Keyspace.members, h]

theorem Keyspace.find_of_members (h : ks.members t key = .ok zset) (info : CandidateInfo μ) :
    ks.find t key ≠ some (.record info) := by
  intro hfind
  rw [Keyspace.members, hfind] at h
  cases h

/-! ### What a listing finds -/

variable {candidates : Text} {ids : List Text} {left : SortedSet Text}

/-- The record that a key holds. -/
def Keyspace.recordAt (ks : Keyspace μ) (t : ℤ) (key : Text) : Option (CandidateInfo μ) :=
  match ks.find t key with
  | some (.record info) => some info
  | _ => none

theorem Keyspace.recordAt_eq_some {info : CandidateInfo μ} :
    ks.recordAt t key = some info ↔ ks.find t key = some (.record info) := by
  unfold Keyspace.recordAt
  split
  · next hfind => simp [hfind]
  · next hnone =>
    refine iff_of_false nofun fun hfind => ?_
    exact hnone info hfind

/-- **The loop returns the records in the order of the members.** -/
theorem listLoop_result {result : List (CandidateInfo μ)}
    (h : (listLoop ks t candidates ids zset).1 = .ok result) :
    result = ids.filterMap fun id => ks.recordAt t (candidates ++ id) := by
  induction ids generalizing zset result with
  | nil =>
    cases h
    rfl
  | cons id ids ih =>
    rw [filterMap_cons, Keyspace.recordAt]
    rw [listLoop] at h
    split at h
    · next hfind =>
      rw [hfind]
      exact ih h
    · next info hfind =>
      rw [hfind]
      dsimp only at h
      cases hrest : (listLoop ks t candidates ids zset).1 with
      | error e =>
        rw [hrest] at h
        cases h
      | ok rest =>
        rw [hrest] at h
        cases h
        exact congrArg (info :: ·) (ih hrest)
    · cases h

/-- The loop succeeds if it meets no index. -/
theorem exists_listLoop_result (ids : List Text) (zset : SortedSet Text)
    (h : ∀ id ∈ ids, ∀ s, ks.find t (candidates ++ id) ≠ some (.index s)) :
    ∃ result, (listLoop ks t candidates ids zset).1 = .ok result := by
  induction ids generalizing zset with
  | nil => exact ⟨[], rfl⟩
  | cons id ids ih =>
    obtain ⟨hid, hids⟩ := forall_mem_cons.mp h
    rw [listLoop]
    split
    · exact ih _ hids
    · next info hfind =>
      obtain ⟨rest, hrest⟩ := ih zset hids
      exact ⟨info :: rest, congrArg (Except.map (info :: ·)) hrest⟩
    · next s hfind => exact absurd hfind (hid s)

/-- What the loop leaves of the index was there. -/
theorem score_of_listLoop {node : Text} {u : ℤ}
    (h : (listLoop ks t candidates ids zset).2.score node = some u) : zset.score node = some u := by
  induction ids generalizing zset with
  | nil => exact h
  | cons id ids ih =>
    rw [listLoop] at h
    split at h
    · exact (score_of_remove (ih h)).2
    · exact ih h
    · exact h

/-- A member with a key is left. -/
theorem score_listLoop {node : Text} {u : ℤ} (h : zset.score node = some u)
    (hkey : ks.find t (candidates ++ node) ≠ none) :
    (listLoop ks t candidates ids zset).2.score node = some u := by
  induction ids generalizing zset with
  | nil => exact h
  | cons id ids ih =>
    rw [listLoop]
    split
    · next hfind =>
      refine ih ((score_remove_of_ne ?_).trans h)
      rintro rfl
      exact hkey hfind
    · exact ih h
    · exact h

variable {c : Config μ} {group : Text}

theorem fst_listCandidates (hgroup : trimSpace group ≠ [])
    (hset : ks.members t (c.indexKey group) = .ok zset) :
    (listCandidates c ks group t).1 =
      (listLoop ks t (c.candidateKeyPrefix group) (zset.removeRange 0 t).range
        (zset.removeRange 0 t)).1.map fun l => l.insertionSort fun a b => a.nodeID ≤ b.nodeID := by
  rw [listCandidates, if_neg hgroup, listScript, hset]

theorem snd_listCandidates (hgroup : trimSpace group ≠ [])
    (hset : ks.members t (c.indexKey group) = .ok zset) :
    (listCandidates c ks group t).2 = ks.setMembers (c.indexKey group)
      (listLoop ks t (c.candidateKeyPrefix group) (zset.removeRange 0 t).range
        (zset.removeRange 0 t)).2 := by
  rw [listCandidates, if_neg hgroup, listScript, hset]

/-- **A listing that succeeds** has found an index, and has the records of its members. -/
theorem mem_listCandidates {listed : List (CandidateInfo μ)}
    (hgroup : trimSpace group ≠ []) (h : (listCandidates c ks group t).1 = .ok listed) :
    ∃ zset, ks.members t (c.indexKey group) = .ok zset ∧ ∀ info, info ∈ listed ↔
      ∃ node u, (zset.removeRange 0 t).score node = some u ∧
        ks.find t (c.candidateKey group node) = some (.record info) := by
  cases hset : ks.members t (c.indexKey group) with
  | error e =>
    rw [listCandidates, if_neg hgroup, listScript, hset] at h
    cases h
  | ok zset =>
    refine ⟨zset, rfl, fun info => ?_⟩
    rw [fst_listCandidates hgroup hset] at h
    cases hresult : (listLoop ks t (c.candidateKeyPrefix group) (zset.removeRange 0 t).range
        (zset.removeRange 0 t)).1 with
    | error e =>
      rw [hresult] at h
      cases h
    | ok result =>
      rw [hresult] at h
      cases h
      rw [mem_insertionSort, listLoop_result hresult, mem_filterMap]
      constructor
      · rintro ⟨node, hnode, hrecord⟩
        obtain ⟨u, hu⟩ := mem_range.mp hnode
        exact ⟨node, u, hu, Keyspace.recordAt_eq_some.mp hrecord⟩
      · rintro ⟨node, u, hu, hfind⟩
        exact ⟨node, mem_range.mpr ⟨u, hu⟩, Keyspace.recordAt_eq_some.mpr hfind⟩

end Values

end Bluetape.Leader.Strategic
