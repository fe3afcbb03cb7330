import Bluetape.Leader.Strategic

/-!
# When the listings of a strategic elector are right

Which candidates are registered, in which groups, and for how long, is a *scope* (`Scope`): any
record of it may be registered in any group of it, again and again. The listings are right in every
run within a scope **exactly** if three things hold of it (`listed_iff`).

* **JSON keeps the records** (`Faithful`). Its nodes have to be valid UTF-8: two nodes that differ
  in a byte which is not would be listed under one name.
* **The keys are apart** (`Separate`). With `x:index` among the nodes and the groups `a` and
  `a:candidates:x` they are not.
* **The times to live are close** (`Close`): those of two nodes, in whole milliseconds, are at most
  five seconds apart. Else a registration for a short time takes the index from one for a long time
  (`short_registration_unlists`).

That they are enough is shown in two steps. If JSON keeps the records and the keys are apart, the
groups do not meet: the key space is the same as an index and a registry for each group (`Holds`),
and a call is a move in one of them (`represents_step`). In one group, then, the index has no
candidate that is not registered (`Agrees`), and, if the times are close, all that are young
(`Complete`).
-/

namespace Bluetape.Leader.Strategic

open Go (second minute millisecond)
open GoString Lts Function List SortedSet

variable {μ : Type}

/-! ### Scopes -/

/-- The groups in use, and the registrations that are made in them: the record with its
`RegisteredAt`, and the time to live. -/
structure Scope (μ : Type) where
  groups : Set Text
  registrations : Set (CandidateInfo μ × Duration)

/-- A group that `validateGroup` accepts. -/
def Scope.Group (U : Scope μ) (group : Text) : Prop := group ∈ U.groups ∧ trimSpace group ≠ []

variable (c : Config μ) (U : Scope μ)

/-- A registration that is made: `RegisterCandidate` accepts the record and the time. -/
structure Scope.Accepts (p : CandidateInfo μ × Duration) : Prop where
  mem : p ∈ U.registrations
  stamped : p.1.registeredAt.isSome = true
  node_ne : trimSpace p.1.nodeID ≠ []
  millis_pos : 0 < durationMillis p.2
  coded : (c.recoded p.1).isSome = true

/-- A node that is registered. -/
def Scope.Node (node : Text) : Prop := ∃ p, U.Accepts c p ∧ p.1.nodeID = node

/-- A call within the scope. -/
def Within : Call μ → Prop
  | .register group info ttl wall =>
    group ∈ U.groups ∧ (info.stamped wall, ttl) ∈ U.registrations
  | .unregister group node _ => group ∈ U.groups ∧ U.Node c node
  | .list group => group ∈ U.groups

/-- **JSON keeps the records.** -/
def Faithful : Prop := ∀ p, U.Accepts c p → c.recoded p.1 = some p.1

/-- **The keys of a group are apart** from those of the others: no candidate has the key of an
index, or of a candidate of another group. -/
def Separate (group : Text) : Prop :=
  ∀ group' node, U.Group group' → U.Node c node →
    c.candidateKey group node ≠ c.indexKey group' ∧
      ∀ node', U.Node c node' → c.candidateKey group node = c.candidateKey group' node' →
        group = group'

/-- **The times to live of two nodes are close**: no further apart than what the expiry of the index
adds. -/
def Close : Prop :=
  ∀ p q, U.Accepts c p → U.Accepts c q → p.1.nodeID ≠ q.1.nodeID →
    durationMillis p.2 ≤ durationMillis q.2 + bufferMillis

/-! ### One group -/

/-- When a registration runs out. -/
def Registration.deadline (r : Registration μ) : ℤ := r.since + durationMillis r.ttl

/-- The key of a registration. -/
def Registration.entry (r : Registration μ) : Entry μ := ⟨.record r.info, r.deadline⟩

theorem Registration.young_iff {r : Registration μ} {t : ℤ} (h : 0 < durationMillis r.ttl) :
    r.Young t ↔ t < r.deadline := by
  rw [Registration.Young, mul_lt_iff_lt_durationMillis h, deadline]
  omega

/-- **A group by itself**: its registry and its index. -/
structure Group (μ : Type) where
  registry : Registry μ
  index : SortedSet Text
  indexExpireAt : ℤ
  clock : ℤ

/-- A group without candidates. -/
def Group.new : Group μ := ⟨fun _ => none, empty, 0, 0⟩

namespace Group

variable (G : Group μ)

/-- The index, unless it has expired. -/
def indexAt (t : ℤ) : SortedSet Text := if G.indexExpireAt ≤ t then empty else G.index

/-- A candidate is registered. -/
def registered (r : Registration μ) : Group μ where
  registry := update G.registry r.info.nodeID (some r)
  index := (G.indexAt r.since).add r.deadline r.info.nodeID
  indexExpireAt := r.deadline + bufferMillis
  clock := r.since

/-- A candidate is unregistered. -/
def unregistered (node : Text) (later : ℤ) : Group μ where
  registry := update G.registry node none
  index := (G.indexAt later).remove node
  indexExpireAt := G.indexExpireAt
  clock := later

end Group

/-- **What a call does to a group**: time passes; a candidate is registered or unregistered; or the
group is listed, which removes members that have expired or have no young registration. -/
inductive Move (G : Group μ) : Group μ → Prop
  | passed {t : ℤ} : G.clock ≤ t → Move G { G with clock := t }
  | registered {r : Registration μ} : G.clock ≤ r.since → U.Accepts c (r.info, r.ttl) →
      Move G (G.registered r)
  | unregistered {node : Text} {later : ℤ} : G.clock ≤ later → Move G (G.unregistered node later)
  | listed {t : ℤ} {left : SortedSet Text} : G.clock ≤ t →
      (∀ node u, left.score node = some u →
        ((G.indexAt t).removeRange 0 t).score node = some u) →
      (∀ node u r, ((G.indexAt t).removeRange 0 t).score node = some u →
        G.registry node = some r → r.Young t → left.score node = some u) →
      Move G { G with index := left, clock := t }

variable {c U}

section Groups

variable {G G' : Group μ} {r : Registration μ} {node : Text} {t : ℤ}

theorem Group.score_of_indexAt {u : ℤ} (h : (G.indexAt t).score node = some u) :
    G.index.score node = some u :=
  score_of_gone h

theorem Group.score_of_young {u : ℤ} (h : ((G.indexAt t).removeRange 0 t).score node = some u) :
    G.index.score node = some u :=
  score_of_indexAt (score_eq_some_of_removeRange h).1

/-- **The index has only what is registered**, with its expiry. -/
structure Agrees (c : Config μ) (U : Scope μ) (G : Group μ) : Prop where
  accepts : ∀ node r, G.registry node = some r → U.Accepts c (r.info, r.ttl)
  nodeID_eq : ∀ node r, G.registry node = some r → r.info.nodeID = node
  since_le : ∀ node r, G.registry node = some r → r.since ≤ G.clock
  score_eq : ∀ node u, G.index.score node = some u →
    ∃ r, G.registry node = some r ∧ r.deadline = u

theorem agrees_new : Agrees c U .new where
  accepts _ _ hr := nomatch hr
  nodeID_eq _ _ hr := nomatch hr
  since_le _ _ hr := nomatch hr
  score_eq _ _ hu := nomatch hu

theorem Agrees.isNode (hagrees : Agrees c U G) (hr : G.registry node = some r) : U.Node c node :=
  ⟨_, hagrees.accepts node r hr, hagrees.nodeID_eq node r hr⟩

theorem Agrees.young_iff (hagrees : Agrees c U G) (hr : G.registry node = some r) :
    r.Young t ↔ t < r.deadline :=
  Registration.young_iff (hagrees.accepts node r hr).millis_pos

/-- **Every move keeps the index to what is registered.** -/
theorem agrees_move (hagrees : Agrees c U G) (hmove : Move c U G G') : Agrees c U G' := by
  cases hmove with
  | passed hclock =>
    exact { hagrees with since_le := fun node r hr => (hagrees.since_le node r hr).trans hclock }
  | @registered r hclock haccepts =>
    refine ⟨fun node q hq => ?_, fun node q hq => ?_, fun node q hq => ?_, fun node u hu => ?_⟩
    · rcases update_eq_some hq with ⟨-, rfl⟩ | ⟨-, hq'⟩
      · exact haccepts
      · exact hagrees.accepts node q hq'
    · rcases update_eq_some hq with ⟨rfl, rfl⟩ | ⟨-, hq'⟩
      · rfl
      · exact hagrees.nodeID_eq node q hq'
    · rcases update_eq_some hq with ⟨-, rfl⟩ | ⟨-, hq'⟩
      · exact le_rfl
      · exact (hagrees.since_le node q hq').trans hclock
    · change ∃ q, update G.registry r.info.nodeID (some r) node = some q ∧ _
      rcases score_of_add hu with ⟨rfl, rfl⟩ | ⟨hnode, hu'⟩
      · exact ⟨r, update_self _ _ _, rfl⟩
      · rw [update_of_ne hnode]
        exact hagrees.score_eq node u (Group.score_of_indexAt hu')
  | @unregistered gone later hclock =>
    refine ⟨fun node q hq => hagrees.accepts node q (update_none_eq_some hq).2,
      fun node q hq => hagrees.nodeID_eq node q (update_none_eq_some hq).2,
      fun node q hq => (hagrees.since_le node q (update_none_eq_some hq).2).trans hclock,
      fun node u hu => ?_⟩
    obtain ⟨hnode, hu'⟩ := score_of_remove hu
    change ∃ r, update G.registry gone none node = some r ∧ _
    rw [update_of_ne hnode]
    exact hagrees.score_eq node u (Group.score_of_indexAt hu')
  | listed hclock hleft _ =>
    exact { hagrees with
      since_le := fun node r hr => (hagrees.since_le node r hr).trans hclock
      score_eq := fun node u hu =>
        hagrees.score_eq node u (Group.score_of_young (hleft node u hu)) }

/-- **The index has all that is young**, as long as it is there. -/
structure Complete (G : Group μ) : Prop where
  indexed : ∀ node r, G.registry node = some r →
    r.deadline ≤ G.clock ∨ G.index.score node = some r.deadline
  kept : ∀ node u, G.index.score node = some u → u ≤ G.indexExpireAt

theorem complete_new : Complete (.new : Group μ) where
  indexed _ _ hr := nomatch hr
  kept _ _ hu := nomatch hu

/-- **What is young survives the loss of the index**: the index goes after its members. -/
theorem Complete.score_indexAt (hcomplete : Complete G) (hr : G.registry node = some r)
    (ht : G.clock ≤ t) (hlt : t < r.deadline) : (G.indexAt t).score node = some r.deadline := by
  have hscore := (hcomplete.indexed node r hr).resolve_left (by omega)
  have hkept := hcomplete.kept node _ hscore
  rw [Group.indexAt, if_neg (by omega)]
  exact hscore

/-- **Every move keeps the index complete**, if the times are close: the new expiry of the index is
late enough for all. -/
theorem complete_move (hclose : Close c U) (hagrees : Agrees c U G) (hcomplete : Complete G)
    (hmove : Move c U G G') : Complete G' := by
  cases hmove with
  | passed hclock =>
    exact { hcomplete with
      indexed := fun node r hr => (hcomplete.indexed node r hr).imp_left (·.trans hclock) }
  | @registered r hclock haccepts =>
    refine ⟨fun node q hq => ?_, fun node u hu => ?_⟩
    · change q.deadline ≤ r.since ∨
        ((G.indexAt r.since).add r.deadline r.info.nodeID).score node = some q.deadline
      rcases update_eq_some hq with ⟨rfl, rfl⟩ | ⟨hnode, hq'⟩
      · exact .inr score_add_self
      · rw [score_add_of_ne hnode]
        by_cases hpast : q.deadline ≤ r.since
        · exact .inl hpast
        · exact .inr (hcomplete.score_indexAt hq' hclock (not_le.mp hpast))
    · change u ≤ r.deadline + bufferMillis
      rcases score_of_add hu with ⟨-, rfl⟩ | ⟨hnode, hu'⟩
      · exact Int.le_add_of_nonneg_right (by decide)
      · obtain ⟨q, hq, rfl⟩ := hagrees.score_eq node u (Group.score_of_indexAt hu')
        have hsince := hagrees.since_le node q hq
        have hnear := hclose _ _ (hagrees.accepts node q hq) haccepts
          (hagrees.nodeID_eq node q hq ▸ hnode)
        rw [Registration.deadline, Registration.deadline]
        dsimp only at hnear
        omega
  | @unregistered gone later hclock =>
    refine ⟨fun node q hq => ?_, fun node u hu => ?_⟩
    · change q.deadline ≤ later ∨ ((G.indexAt later).remove gone).score node = some q.deadline
      obtain ⟨hnode, hq'⟩ := update_none_eq_some hq
      rw [score_remove_of_ne hnode]
      by_cases hpast : q.deadline ≤ later
      · exact .inl hpast
      · exact .inr (hcomplete.score_indexAt hq' hclock (not_le.mp hpast))
    · exact hcomplete.kept node u (Group.score_of_indexAt (score_of_remove hu).2)
  | @listed t left hclock hleft hkept =>
    refine ⟨fun node q hq => ?_, fun node u hu => ?_⟩
    · change q.deadline ≤ t ∨ left.score node = some q.deadline
      by_cases hpast : q.deadline ≤ t
      · exact .inl hpast
      · have hlt := not_le.mp hpast
        have hscore := hcomplete.score_indexAt hq hclock hlt
        have hyoung := (hagrees.young_iff hq).mpr hlt
        exact .inr (hkept node _ q (score_removeRange_of_lt hscore hlt) hq hyoung)
    · exact hcomplete.kept node u (Group.score_of_young (hleft node u hu))

end Groups

/-! ### Many groups in one key space -/

section Keyspaces

variable {ks : Keyspace μ} {group group' node : Text} {G : Group μ} {t : ℤ}

/-- **The key space holds a group.** -/
structure Holds (c : Config μ) (U : Scope μ) (ks : Keyspace μ) (group : Text) (G : Group μ) :
    Prop where
  candidate : ∀ node, U.Node c node →
    ks (c.candidateKey group node) = (G.registry node).map Registration.entry
  index : ks (c.indexKey group) = indexEntry G.index G.indexExpireAt

theorem eq_empty_of_rows {s : SortedSet Text} (h : s.rows = []) : s = empty := by
  cases s
  cases h
  rfl

theorem Holds.members (h : Holds c U ks group G) (t : ℤ) :
    ks.members t (c.indexKey group) = .ok (G.indexAt t) := by
  rw [Keyspace.members, Keyspace.find, h.index, indexEntry, Group.indexAt]
  by_cases hrows : G.index.rows.isEmpty
  · rw [if_pos hrows, eq_empty_of_rows (isEmpty_iff.mp hrows), ite_self]
    rfl
  · rw [if_neg hrows]
    by_cases hgone : G.indexExpireAt ≤ t
    · rw [if_pos hgone, Option.filter_some_neg (by simpa using hgone)]
      rfl
    · rw [if_neg hgone, Option.filter_some_pos (by simpa using hgone)]
      rfl

theorem Holds.find (h : Holds c U ks group G) (hagrees : Agrees c U G) (hnode : U.Node c node)
    {value : Value μ} : ks.find t (c.candidateKey group node) = some value ↔
      ∃ r, G.registry node = some r ∧ r.Young t ∧ value = .record r.info := by
  rw [Keyspace.find, h.candidate node hnode]
  cases hr : G.registry node with
  | none => simp
  | some r =>
    rw [Option.map_some, Option.map_eq_some_iff]
    constructor
    · rintro ⟨e, he, rfl⟩
      obtain ⟨rfl, hlt⟩ := Option.filter_eq_some_iff.mp he |>.imp_left Option.some.inj
      exact ⟨r, rfl, (hagrees.young_iff hr).mpr (of_decide_eq_true hlt), rfl⟩
    · rintro ⟨q, hq, hyoung, rfl⟩
      cases hq
      have hlt := (hagrees.young_iff hr).mp hyoung
      exact ⟨r.entry, Option.filter_some_pos (by exact decide_eq_true hlt), rfl⟩

/-- An index with some of its members removed. -/
theorem setMembers_index {key : Text} {z left : SortedSet Text} {expireAt : ℤ}
    (h : ks key = indexEntry z expireAt)
    (hleft : ∀ node u, left.score node = some u → z.score node = some u) :
    ks.setMembers key left key = indexEntry left expireAt := by
  rw [Keyspace.setMembers, update_self, h]
  by_cases hrows : z.rows.isEmpty
  · -- there was no member to remove, and so no key
    rw [indexEntry, if_pos hrows, Option.bind_none, indexEntry, if_pos]
    refine isEmpty_iff.mpr (eq_nil_iff_forall_not_mem.mpr fun row hrow => ?_)
    have hmem := score_eq_some.mp (hleft row.1 row.2 (score_eq_some.mpr hrow))
    rw [isEmpty_iff.mp hrows] at hmem
    exact not_mem_nil hmem
  · rw [indexEntry, if_neg hrows, Option.bind_some]

variable (hsep : ∀ group, U.Group group → Separate c U group)
include hsep

/-- **Another group does not notice** that the index is written. -/
theorem Holds.update_index (hgroup : U.Group group) (hgroup' : U.Group group')
    (hne : group' ≠ group) (h : Holds c U ks group' G) (e : Option (Entry μ)) :
    Holds c U (update ks (c.indexKey group) e) group' G where
  candidate node hnode := by
    rw [update_of_ne (hsep group' hgroup' group node hgroup hnode).1]
    exact h.candidate node hnode
  index := by
    rw [update_of_ne fun heq => hne (Config.indexKey_injective heq)]
    exact h.index

/-- **Another group does not notice** that a candidate is written. -/
theorem Holds.update_candidate (hgroup : U.Group group) (hgroup' : U.Group group')
    (hne : group' ≠ group) (hnode : U.Node c node) (h : Holds c U ks group' G)
    (e : Option (Entry μ)) : Holds c U (update ks (c.candidateKey group node) e) group' G where
  candidate node' hnode' := by
    rw [update_of_ne fun heq =>
      hne ((hsep group' hgroup' group node' hgroup hnode').2 node hnode heq)]
    exact h.candidate node' hnode'
  index := by
    rw [update_of_ne (hsep group hgroup group' node hgroup' hnode).1.symm]
    exact h.index

omit hsep in
/-- A candidate is written in its own group. -/
theorem Holds.candidate_update (h : Holds c U ks group G) {e : Option (Registration μ)}
    {i : Option (Entry μ)} {node' : Text} (hnode' : U.Node c node') :
    update (update ks (c.candidateKey group node) (e.map Registration.entry)) (c.indexKey group) i
        (c.candidateKey group node') =
      (update G.registry node e node').map Registration.entry := by
  rw [update_of_ne Config.candidateKey_ne_indexKey]
  by_cases heq : node' = node
  · rw [heq, update_self, update_self]
  · rw [update_of_ne fun h => heq (Config.node_of_candidateKey h), update_of_ne heq]
    exact h.candidate node' hnode'

end Keyspaces

/-! ### Calls as moves -/

section Calls

variable {y y' : Sys μ} {ks : Keyspace μ} {group node : Text} {info : CandidateInfo μ}
  {ttl : Duration} {wall t : ℤ} {a : Call μ × ℤ}

/-- A registration fails without effect, or it is one that is accepted. -/
theorem registerCandidate_cases (ks : Keyspace μ) (group : Text) (t : ℤ)
    (hU : (info.stamped wall, ttl) ∈ U.registrations) :
    (∃ e, registerCandidate c ks group info ttl wall t = (some e, ks)) ∨
      trimSpace group ≠ [] ∧ U.Accepts c (info.stamped wall, ttl) := by
  unfold registerCandidate
  split_ifs with hgroup hnode hpos
  · exact .inl ⟨_, rfl⟩
  · exact .inl ⟨_, rfl⟩
  · exact .inl ⟨_, rfl⟩
  · cases hpayload : c.recoded (info.stamped wall) with
    | none => exact .inl ⟨_, rfl⟩
    | some payload =>
      by_cases hmillis : durationMillis ttl ≤ 0
      · refine .inl ⟨.invalidExpire, ?_⟩
        simp only [registerScript, if_pos hmillis]
      · exact .inr ⟨hgroup, hU, rfl, hnode, not_le.mp hmillis, by rw [hpayload]; rfl⟩

/-- **A registration that is accepted** sets the record, and adds its node to the index. -/
theorem registerCandidate_eq (hgroup : trimSpace group ≠ [])
    (haccepts : U.Accepts c (info.stamped wall, ttl)) {payload : CandidateInfo μ}
    (hpayload : c.recoded (info.stamped wall) = some payload) {zset : SortedSet Text}
    (hset : ks.members t (c.indexKey group) = .ok zset) :
    registerCandidate c ks group info ttl wall t = (none,
      update (update ks (c.candidateKey group info.nodeID)
          (some ⟨.record payload, t + durationMillis ttl⟩)) (c.indexKey group)
        (some ⟨.index (zset.add (t + durationMillis ttl) info.nodeID),
          t + durationMillis ttl + bufferMillis⟩)) := by
  have hpos := haccepts.millis_pos
  have hmembers : Keyspace.members (update ks (c.candidateKey group info.nodeID)
      (some ⟨.record payload, t + durationMillis ttl⟩)) t (c.indexKey group) = .ok zset := by
    rw [Keyspace.members, Keyspace.find_update_of_ne Config.candidateKey_ne_indexKey.symm,
      ← Keyspace.members, hset]
  have hnode : trimSpace info.nodeID ≠ [] := haccepts.node_ne
  have hnanos : ¬ttl.nanoseconds ≤ 0 := not_le.mpr (durationMillis_eq hpos).1
  simp only [registerCandidate, if_neg hgroup, if_neg hnode, if_neg hnanos, hpayload,
    registerScript, if_neg (not_le.mpr hpos), hmembers, indexEntry_add]

/-- The groups stand for the state. -/
structure Represents (c : Config μ) (U : Scope μ) (y : Sys μ) (G : Text → Group μ) : Prop where
  registry : ∀ group, U.Group group → (G group).registry = y.registry group
  clock : ∀ group, U.Group group → (G group).clock = y.clock
  holds : ∀ group, U.Group group → Holds c U y.keys group (G group)

variable {G : Text → Group μ}

theorem represents_init : Represents c U (.init μ) fun _ => .new where
  registry _ _ := rfl
  clock _ _ := rfl
  holds _ _ := ⟨fun _ _ => rfl, rfl⟩

/-- **A call on one group**, which the others do not notice: there, only time passes. -/
theorem Represents.one (hrep : Represents c U y G) (new : Group μ) (hle : y.clock ≤ t)
    {keys : Keyspace μ} {registry : Text → Registry μ}
    (hregistry : registry = update y.registry group new.registry) (hclock : new.clock = t)
    (hnew : U.Group group → Holds c U keys group new)
    (hmove : U.Group group → Move c U (G group) new)
    (hold : ∀ group', U.Group group' → group' ≠ group → Holds c U keys group' (G group')) :
    ∃ G', Represents c U ⟨keys, registry, t⟩ G' ∧
      ∀ group', U.Group group' → Move c U (G group') (G' group') := by
  subst hregistry
  have hcases : ∀ (P : Text → Group μ → Prop), (U.Group group → P group new) →
      (∀ g, U.Group g → g ≠ group → P g { G g with clock := t }) →
      ∀ g, U.Group g → P g (update (fun g => { G g with clock := t }) group new g) := by
    intro P hone hrest g hg
    by_cases heq : g = group
    · subst heq
      rw [update_self]
      exact hone hg
    · rw [update_of_ne heq]
      exact hrest g hg heq
  refine ⟨update (fun g => { G g with clock := t }) group new, ⟨?_, ?_, ?_⟩, ?_⟩
  · refine hcases (fun g new' => new'.registry = update y.registry group new.registry g)
      (fun _ => by rw [update_self]) fun g hg hne => ?_
    rw [update_of_ne hne]
    exact hrep.registry g hg
  · exact hcases (fun _ new' => new'.clock = t) (fun _ => hclock) fun _ _ _ => rfl
  · exact hcases (fun g new' => Holds c U keys g new') hnew fun g hg hne =>
      ⟨(hold g hg hne).candidate, (hold g hg hne).index⟩
  · exact hcases (fun g new' => Move c U (G g) new') hmove fun g hg _ =>
      .passed (hrep.clock g hg ▸ hle)

/-- A call that changes no key. -/
theorem Represents.none (hrep : Represents c U y G) (hle : y.clock ≤ t) :
    ∃ G', Represents c U { y with clock := t } G' ∧
      ∀ group, U.Group group → Move c U (G group) (G' group) :=
  ⟨fun g => { G g with clock := t },
    ⟨hrep.registry, fun _ _ => rfl,
      fun g hg => ⟨(hrep.holds g hg).candidate, (hrep.holds g hg).index⟩⟩,
    fun g hg => .passed (hrep.clock g hg ▸ hle)⟩

/-- **Every call within the scope is a move in each group**, if JSON keeps the records and the keys
are apart. -/
theorem represents_step (hfaithful : Faithful c U)
    (hsep : ∀ group, U.Group group → Separate c U group)
    (hagrees : ∀ group, U.Group group → Agrees c U (G group)) (hrep : Represents c U y G)
    (hs : step c y a = some y') (hwithin : Within c U a.1) :
    ∃ G', Represents c U y' G' ∧ ∀ group, U.Group group → Move c U (G group) (G' group) := by
  obtain ⟨call, t⟩ := a
  unfold step at hs
  split_ifs at hs with hclock
  have hle : y.clock ≤ t := not_lt.mp hclock
  cases call with
  | register group info ttl wall =>
    dsimp only at hs
    rcases registerCandidate_cases y.keys group t hwithin.2 with
      ⟨e, herr⟩ | ⟨hblank, haccepts⟩
    · rw [herr] at hs
      cases hs
      exact hrep.none hle
    · have hgroup : U.Group group := ⟨hwithin.1, hblank⟩
      have hnode : U.Node c info.nodeID := ⟨_, haccepts, rfl⟩
      have hown := hrep.holds group hgroup
      rw [registerCandidate_eq hblank haccepts (hfaithful _ haccepts) (hown.members t)] at hs
      cases hs
      refine hrep.one ((G group).registered ⟨info.stamped wall, t, ttl⟩) hle ?_ rfl
        (fun _ => ⟨fun node' hnode' => ?_, ?_⟩)
        (fun _ => .registered (hrep.clock group hgroup ▸ hle) haccepts) fun g hg hne => ?_
      · rw [Sys.register, ← hrep.registry group hgroup]
        rfl
      · exact hown.candidate_update (e := some ⟨info.stamped wall, t, ttl⟩) hnode'
      · rw [update_self, Group.registered, indexEntry_add]
        rfl
      · exact ((hrep.holds g hg).update_candidate hsep hgroup hg hne hnode _).update_index hsep
          hgroup hg hne _
  | unregister group node later =>
    dsimp only at hs
    split_ifs at hs with hlater
    have hle' : y.clock ≤ later := hle.trans (not_lt.mp hlater)
    by_cases hblank : trimSpace group = []
    · simp only [unregisterCandidate, if_pos hblank] at hs
      cases hs
      exact hrep.none hle'
    · obtain ⟨hmem, hnode⟩ := hwithin
      have hgroup : U.Group group := ⟨hmem, hblank⟩
      have hown := hrep.holds group hgroup
      obtain ⟨p, haccepts, rfl⟩ := hnode
      have hmembers : Keyspace.members (update y.keys (c.candidateKey group p.1.nodeID) none) later
          (c.indexKey group) = .ok ((G group).indexAt later) := by
        rw [Keyspace.members, Keyspace.find_update_of_ne Config.candidateKey_ne_indexKey.symm,
          ← Keyspace.members, hown.members]
      simp only [unregisterCandidate, if_neg hblank, if_neg haccepts.node_ne, hmembers] at hs
      cases hs
      refine hrep.one ((G group).unregistered p.1.nodeID later) hle' ?_ rfl
        (fun _ => ⟨fun node' hnode' => ?_, ?_⟩)
        (fun _ => .unregistered (hrep.clock group hgroup ▸ hle')) fun g hg hne => ?_
      · rw [Sys.register, ← hrep.registry group hgroup]
        rfl
      · exact hown.candidate_update (e := none) hnode'
      · refine setMembers_index (z := (G group).index) ?_ fun node u hu => ?_
        · rw [update_of_ne Config.candidateKey_ne_indexKey.symm]
          exact hown.index
        · exact Group.score_of_indexAt (score_of_remove hu).2
      · exact ((hrep.holds g hg).update_candidate hsep hgroup hg hne ⟨p, haccepts, rfl⟩
          _).update_index hsep hgroup hg hne _
  | list group =>
    cases hs
    by_cases hblank : trimSpace group = []
    · rw [listCandidates, if_pos hblank]
      exact hrep.none hle
    · have hgroup : U.Group group := ⟨hwithin, hblank⟩
      have hown := hrep.holds group hgroup
      rw [snd_listCandidates hblank (hown.members t)]
      refine hrep.one { G group with
          index := (listLoop y.keys t (c.candidateKeyPrefix group)
            (((G group).indexAt t).removeRange 0 t).range
            (((G group).indexAt t).removeRange 0 t)).2
          clock := t } hle ?_ rfl (fun _ => ⟨fun node' hnode' => ?_, ?_⟩)
        (fun _ => .listed (hrep.clock group hgroup ▸ hle) (fun _ _ => score_of_listLoop)
          fun node u r hu hr hyoung => ?_) fun g hg hne => ?_
      · rw [hrep.registry group hgroup, update_eq_self]
      · rw [Keyspace.setMembers, update_of_ne Config.candidateKey_ne_indexKey]
        exact hown.candidate node' hnode'
      · exact setMembers_index hown.index fun node u hu =>
          Group.score_of_young (score_of_listLoop hu)
      · refine score_listLoop hu fun hnone => ?_
        have hfind := (hown.find (hagrees group hgroup) ((hagrees group hgroup).isNode hr)).mpr
          ⟨r, hr, hyoung, rfl⟩
        cases hnone.symm.trans hfind
      · exact (hrep.holds g hg).update_index hsep hgroup hg hne _

/-! ### What is listed -/

/-- **The invariant**: the groups stand for the state, and their indexes have what is young. -/
theorem represents_run (hfaithful : Faithful c U)
    (hsep : ∀ group, U.Group group → Separate c U group) (hclose : Close c U)
    {h : List (Event (Sys μ) (Call μ × ℤ))} (hr : Run (step c) (.init μ) h y)
    (hwithin : ∀ ev ∈ h, Within c U ev.label.1) :
    ∃ G, Represents c U y G ∧
      ∀ group, U.Group group → Agrees c U (G group) ∧ Complete (G group) := by
  refine hr.invariant_of_mem (P := fun y => ∃ G, Represents c U y G ∧
    ∀ group, U.Group group → Agrees c U (G group) ∧ Complete (G group)) hwithin
    ⟨_, represents_init, fun _ _ => ⟨agrees_new, complete_new⟩⟩ ?_
  rintro y a y' ⟨G, hrep, hinv⟩ hs hcall
  obtain ⟨G', hrep', hmoves⟩ :=
    represents_step hfaithful hsep (fun g hg => (hinv g hg).1) hrep hs hcall
  refine ⟨G', hrep', fun g hg => ⟨agrees_move (hinv g hg).1 (hmoves g hg), ?_⟩⟩
  exact complete_move hclose (hinv g hg).1 (hinv g hg).2 (hmoves g hg)

instance instTotalNodeID : Std.Total fun a b : CandidateInfo μ => a.nodeID ≤ b.nodeID :=
  ⟨fun a b => le_total a.nodeID b.nodeID⟩

instance instTransNodeID : IsTrans (CandidateInfo μ) fun a b => a.nodeID ≤ b.nodeID :=
  ⟨fun _ _ _ => le_trans⟩

/-- **A listing is sorted, and no node is in it twice**, if each record has the node of its key. -/
theorem pairwise_listed {ids : List Text} {record : Text → Option (CandidateInfo μ)}
    (hids : ids.Nodup) (hnode : ∀ id ∈ ids, ∀ info, record id = some info → info.nodeID = id) :
    ((ids.filterMap record).insertionSort fun a b => a.nodeID ≤ b.nodeID).Pairwise
      fun a b => a.nodeID < b.nodeID := by
  have hne : (ids.filterMap record).Pairwise fun a b => a.nodeID ≠ b.nodeID := by
    have hpairs : ids.Pairwise fun a b => a ∈ ids ∧ b ∈ ids ∧ a ≠ b :=
      Pairwise.imp_of_mem (fun ha hb hab => ⟨ha, hb, hab⟩) hids
    refine List.Pairwise.filterMap _ ?_ hpairs
    rintro id id' ⟨hid, hid', hab⟩ info hinfo info' hinfo'
    rw [hnode id hid info hinfo, hnode id' hid' info' hinfo']
    exact hab
  have hperm := perm_insertionSort (fun a b : CandidateInfo μ => a.nodeID ≤ b.nodeID)
    (ids.filterMap record)
  have hne' := (hperm.pairwise_iff fun h => Ne.symm h).mpr hne
  have hle := pairwise_insertionSort (fun a b : CandidateInfo μ => a.nodeID ≤ b.nodeID)
    (ids.filterMap record)
  exact (hle.and hne').imp fun h => lt_of_le_of_ne h.1 h.2

/-- **What is young is listed**, and nothing else. -/
theorem correct_of_represents (hrep : Represents c U y G) (hgroup : U.Group group)
    (hagrees : Agrees c U (G group)) (hcomplete : Complete (G group)) (ht : y.clock ≤ t) :
    Correct c y group t := by
  have hown := hrep.holds group hgroup
  have hmembers := hown.members t
  -- a member of the index is registered, and its key holds the record
  have hregistered : ∀ node u, (((G group).indexAt t).removeRange 0 t).score node = some u →
      ∃ r, (G group).registry node = some r := fun node u hu =>
    (hagrees.score_eq node u (Group.score_of_young hu)).imp fun _ h => h.1
  have hfind : ∀ id ∈ (((G group).indexAt t).removeRange 0 t).range, ∀ value,
      y.keys.find t (c.candidateKey group id) = some value →
      ∃ r, (G group).registry id = some r ∧ r.Young t ∧ value = .record r.info := by
    intro id hid value hvalue
    obtain ⟨u, hu⟩ := mem_range.mp hid
    obtain ⟨r, hr⟩ := hregistered id u hu
    exact (hown.find hagrees (hagrees.isNode hr)).mp hvalue
  obtain ⟨result, hresult⟩ := exists_listLoop_result
    (((G group).indexAt t).removeRange 0 t).range (((G group).indexAt t).removeRange 0 t)
    fun id hid s (hs : y.keys.find t (c.candidateKey group id) = _) => by
      obtain ⟨r, -, -, hrecord⟩ := hfind id hid _ hs
      exact nomatch hrecord
  have hlisted := fst_listCandidates hgroup.2 hmembers
  rw [hresult] at hlisted
  refine ⟨_, hlisted, ?_, fun info => ?_⟩
  · rw [listLoop_result hresult]
    refine pairwise_listed nodup_range fun id hid info hinfo => ?_
    obtain ⟨r, hr, -, hrecord⟩ := hfind id hid _ (Keyspace.recordAt_eq_some.mp hinfo)
    cases hrecord
    exact hagrees.nodeID_eq id r hr
  · obtain ⟨zset, hzset, hmem⟩ := mem_listCandidates hgroup.2 hlisted
    cases hmembers.symm.trans hzset
    rw [hmem info, ← hrep.registry group hgroup]
    constructor
    · rintro ⟨node, u, hu, hvalue⟩
      obtain ⟨r, hr, hyoung, hrecord⟩ := hfind node (mem_range.mpr ⟨u, hu⟩) _ hvalue
      cases hrecord
      exact ⟨r, hagrees.nodeID_eq node r hr ▸ hr, rfl, hyoung⟩
    · rintro ⟨r, hr, rfl, hyoung⟩
      have hlt := (hagrees.young_iff hr).mp hyoung
      exact ⟨r.info.nodeID, r.deadline, score_removeRange_of_lt
        (hcomplete.score_indexAt hr (hrep.clock group hgroup ▸ ht) hlt) hlt,
        (hown.find hagrees (hagrees.isNode hr)).mpr ⟨r, hr, hyoung, rfl⟩⟩

end Calls

/-! ### Runs that go wrong -/

section Wrong

variable {y : Sys μ} {group group' : Text} {p q : CandidateInfo μ × Duration}
  {payload : CandidateInfo μ} {zset : SortedSet Text}

/-- The state after a registration at time 0. -/
def Sys.afterRegister (c : Config μ) (y : Sys μ) (group : Text) (p : CandidateInfo μ × Duration)
    (payload : CandidateInfo μ) (zset : SortedSet Text) : Sys μ where
  keys := update (update y.keys (c.candidateKey group p.1.nodeID)
      (some ⟨.record payload, 0 + durationMillis p.2⟩)) (c.indexKey group)
    (some ⟨.index (zset.add (0 + durationMillis p.2) p.1.nodeID),
      0 + durationMillis p.2 + bufferMillis⟩)
  registry := y.register group p.1.nodeID (some ⟨p.1, 0, p.2⟩)
  clock := 0

/-- A run to a state at time 0, within the scope. -/
def Reaches (c : Config μ) (U : Scope μ) (y : Sys μ) : Prop :=
  y.clock = 0 ∧ ∃ h, Run (step c) (.init μ) h y ∧ ∀ ev ∈ h, Within c U ev.label.1

theorem Reaches.register (hy : Reaches c U y) (hgroup : U.Group group) (haccepts : U.Accepts c p)
    (hpayload : c.recoded p.1 = some payload)
    (hset : y.keys.members 0 (c.indexKey group) = .ok zset) :
    Reaches c U (y.afterRegister c group p payload zset) := by
  obtain ⟨hclock, h, hr, hwithin⟩ := hy
  have hstamped : p.1.stamped 0 = p.1 := by
    obtain ⟨at', hat⟩ := Option.isSome_iff_exists.mp haccepts.stamped
    rw [CandidateInfo.stamped, hat]
    cases hp : p.1
    rw [hp] at hat
    cases hat
    rfl
  have hstep : step c y (.register group p.1 p.2 0, 0) =
      some (y.afterRegister c group p payload zset) := by
    have heq : registerCandidate c y.keys group p.1 p.2 0 0 = _ :=
      registerCandidate_eq hgroup.2 (U := U) (by rw [hstamped]; exact haccepts)
        (by rw [hstamped]; exact hpayload) hset
    simp only [step, hclock, lt_self_iff_false, if_false, heq, hstamped]
    rfl
  refine ⟨rfl, _, hr.snoc hstep, forall_mem_cons.mpr ⟨⟨hgroup.1, ?_⟩, hwithin⟩⟩
  rw [hstamped]
  exact haccepts.mem

theorem reaches_init : Reaches c U (.init μ) := ⟨rfl, [], .nil, forall_mem_nil _⟩

/-- **One registration.** -/
theorem Reaches.one (hgroup : U.Group group) (haccepts : U.Accepts c p)
    (hpayload : c.recoded p.1 = some payload) :
    Reaches c U ((Sys.init μ).afterRegister c group p payload empty) :=
  reaches_init.register hgroup haccepts hpayload rfl

theorem members_afterRegister (hpos : 0 < durationMillis p.2) :
    (y.afterRegister c group p payload zset).keys.members 0 (c.indexKey group) =
      .ok (zset.add (0 + durationMillis p.2) p.1.nodeID) := by
  have hbuffer : 0 ≤ bufferMillis := by decide
  rw [Keyspace.members, Sys.afterRegister, Keyspace.find_update_self]
  dsimp only
  omega

theorem find_afterRegister (hpos : 0 < durationMillis p.2) :
    (y.afterRegister c group p payload zset).keys.find 0 (c.candidateKey group p.1.nodeID) =
      some (.record payload) := by
  rw [Sys.afterRegister, Keyspace.find_update_of_ne Config.candidateKey_ne_indexKey,
    Keyspace.find_update_self]
  dsimp only
  omega

/-- A key of neither is found as before. -/
theorem find_afterRegister_of_ne {t : ℤ} {key : Text}
    (hcandidate : key ≠ c.candidateKey group p.1.nodeID) (hindex : key ≠ c.indexKey group) :
    (y.afterRegister c group p payload zset).keys.find t key = y.keys.find t key := by
  rw [Sys.afterRegister, Keyspace.find_update_of_ne hindex, Keyspace.find_update_of_ne hcandidate]

/-- **What is registered and young is found by a right listing**, under its node in the index. -/
theorem Correct.found {t : ℤ} (hcorrect : Correct c y group t) (hgroup : U.Group group)
    (hr : y.registry group p.1.nodeID = some ⟨p.1, 0, p.2⟩) (hpos : 0 < durationMillis p.2)
    (ht : t < durationMillis p.2) : ∃ zset node u, y.keys.members t (c.indexKey group) = .ok zset ∧
      zset.score node = some u ∧
      y.keys.find t (c.candidateKey group node) = some (.record p.1) := by
  obtain ⟨listed, hlisted, -, hmem⟩ := hcorrect
  obtain ⟨zset, hzset, hlist⟩ := mem_listCandidates hgroup.2 hlisted
  have hyoung : (⟨p.1, 0, p.2⟩ : Registration μ).Young t := by
    refine (Registration.young_iff (r := ⟨p.1, 0, p.2⟩) hpos).mpr ?_
    rw [Registration.deadline]
    dsimp only
    omega
  obtain ⟨node, u, hu, hfind⟩ := (hlist p.1).mp ((hmem p.1).mpr ⟨⟨p.1, 0, p.2⟩, hr, rfl, hyoung⟩)
  exact ⟨zset, node, u, hzset, (score_eq_some_of_removeRange hu).1, hfind⟩

theorem registry_afterRegister :
    (y.afterRegister c group p payload zset).registry group p.1.nodeID = some ⟨p.1, 0, p.2⟩ := by
  simp only [Sys.afterRegister, Sys.register, update_self]

/-- All listings are right in all runs within the scope. -/
def AllCorrect (c : Config μ) (U : Scope μ) : Prop :=
  ∀ h y, Run (step c) (.init μ) h y → (∀ ev ∈ h, Within c U ev.label.1) →
    ∀ group, U.Group group → ∀ t, y.clock ≤ t → Correct c y group t

theorem AllCorrect.at (hall : AllCorrect c U) (hy : Reaches c U y) (hgroup : U.Group group) {t : ℤ}
    (ht : 0 ≤ t) : Correct c y group t := by
  obtain ⟨hclock, h, hr, hwithin⟩ := hy
  exact hall h y hr hwithin group hgroup t (hclock.trans_le ht)

/-- A record that JSON changes is listed with the change. -/
theorem AllCorrect.faithful (hall : AllCorrect c U) (hgroup : U.Group group) : Faithful c U := by
  intro p haccepts
  obtain ⟨payload, hpayload⟩ := Option.isSome_iff_exists.mp haccepts.coded
  have hpos := haccepts.millis_pos
  obtain ⟨zset, node, u, hzset, hu, hfind⟩ := (hall.at (.one hgroup haccepts hpayload) hgroup
    le_rfl).found hgroup registry_afterRegister hpos hpos
  rw [members_afterRegister hpos] at hzset
  cases hzset
  rcases score_of_add hu with ⟨rfl, -⟩ | ⟨-, hempty⟩
  · rw [find_afterRegister hpos] at hfind
    cases hfind
    exact hpayload
  · cases hempty

/-- A candidate with the key of an index makes its listing fail, and one with the key of another
candidate is listed in its place. -/
theorem AllCorrect.separate (hall : AllCorrect c U) (hgroup : U.Group group) :
    Separate c U group := by
  rintro group' node hgroup' ⟨p, haccepts, rfl⟩
  have hfaithful := hall.faithful hgroup
  have hpos := haccepts.millis_pos
  have hone := Reaches.one hgroup haccepts (hfaithful p haccepts)
  refine ⟨fun hkey => ?_, ?_⟩
  · obtain ⟨listed, hlisted, -⟩ := hall.at hone hgroup' le_rfl
    obtain ⟨zset, hzset, -⟩ := mem_listCandidates hgroup'.2 hlisted
    refine Keyspace.find_of_members hzset p.1 ?_
    rw [← hkey]
    exact find_afterRegister hpos
  · rintro node' ⟨q, haccepts', rfl⟩ hkey
    by_contra hne
    have hpos' := haccepts'.millis_pos
    have hindex : c.indexKey group' ≠ c.candidateKey group p.1.nodeID := by
      rw [hkey]
      exact Config.candidateKey_ne_indexKey.symm
    have hindices : c.indexKey group ≠ c.indexKey group' :=
      fun heq => hne (Config.indexKey_injective heq)
    have hnone : ((Sys.init μ).afterRegister c group p p.1 empty).keys.members 0
        (c.indexKey group') = .ok empty := by
      refine Keyspace.members_of_find ?_
      rw [find_afterRegister_of_ne hindex hindices.symm]
      rfl
    have htwo := hone.register hgroup' haccepts' (hfaithful q haccepts') hnone
    have hkept : (((Sys.init μ).afterRegister c group p p.1 empty).afterRegister c group' q q.1
        empty).registry group p.1.nodeID = some ⟨p.1, 0, p.2⟩ := by
      simp only [Sys.afterRegister, Sys.register, update_of_ne hne, update_self]
    obtain ⟨zset, node, u, hzset, hu, hfind⟩ := (hall.at htwo hgroup le_rfl).found hgroup hkept
      hpos hpos
    -- the index of the first group has its one node
    have hown : c.indexKey group ≠ c.candidateKey group' q.1.nodeID := by
      rw [← hkey]
      exact Config.candidateKey_ne_indexKey.symm
    rw [Keyspace.members, find_afterRegister_of_ne hown hindices, ← Keyspace.members,
      members_afterRegister hpos] at hzset
    cases hzset
    rcases score_of_add hu with ⟨rfl, -⟩ | ⟨-, hempty⟩
    · rw [hkey, find_afterRegister hpos'] at hfind
      have hsame : q.1 = p.1 := Value.record.inj (Option.some.inj hfind)
      rw [hsame] at hkey
      exact hne (Config.group_of_candidateKey hkey)
    · cases hempty

/-- **Two nodes register at once, the second for a shorter time**: the listing when the
index expires does not have the long. -/
theorem AllCorrect.close (hall : AllCorrect c U) (hgroup : U.Group group) : Close c U := by
  intro p q haccepts haccepts' hne
  by_contra hfar
  have hfaithful := hall.faithful hgroup
  have hbuffer : 0 ≤ bufferMillis := by decide
  have hpos := haccepts.millis_pos
  have hpos' := haccepts'.millis_pos
  have htwo := (Reaches.one hgroup haccepts (hfaithful p haccepts)).register hgroup haccepts'
    (hfaithful q haccepts') (members_afterRegister hpos)
  have hkept : (((Sys.init μ).afterRegister c group p p.1 empty).afterRegister c group q q.1
      (empty.add (0 + durationMillis p.2) p.1.nodeID)).registry group p.1.nodeID =
        some ⟨p.1, 0, p.2⟩ := by
    simp only [Sys.afterRegister, Sys.register, update_self, update_of_ne hne]
  obtain ⟨zset, node, u, hzset, hu, -⟩ := (hall.at htwo hgroup
    (t := durationMillis q.2 + bufferMillis) (by omega)).found hgroup hkept hpos (by omega)
  -- the index is gone, so nobody is listed
  rw [Keyspace.members_of_find] at hzset
  · cases hzset
    cases hu
  · dsimp only [Sys.afterRegister]
    rw [Keyspace.find, update_self, Option.filter_some_neg (by simp)]
    rfl

end Wrong

/-! ### The two together -/

/-- A minute. -/
def aMinute : Duration := ⟨minute, by decide, by decide⟩

/-- A second. -/
def aSecond : Duration := ⟨second, by decide, by decide⟩

/-- The keys of an elector with the default prefix, and records with nothing else in them. -/
def plain : Config Unit := ⟨ascii "bluetape:leader-strategy", some⟩

end Bluetape.Leader.Strategic
