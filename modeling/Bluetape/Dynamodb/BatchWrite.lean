import Mathlib.Algebra.BigOperators.Group.Multiset.Defs
import Mathlib.Algebra.GroupWithZero.Nat
import Mathlib.Algebra.Order.Group.Multiset
import Mathlib.Data.List.Range

/-!
# Writing all items of a batch

`WriteAll` writes the items of a map from tables to items, at most 25 with a request (`chunkItems`).
Each chunk has a budget of attempts; what DynamoDB returns as unprocessed is submitted again, and
what is left when the budget is used up is returned in an error. The errors of a call and of the
context end it at once.

A Go map has no order, and where its order matters the source sorts its keys; so a map is given by
its entries sorted by their keys (`TableMap`), and a missing map is the empty one. The client
answers by the number of the call and what is submitted (`Client`): it fails, or returns a part of
what was submitted. The context answers by how often it has been looked at, and a sleep is one look:
it ends with the context or with its timer. How long it takes is left out.

The calls are recorded with the chunk they are for, for the proofs only.
-/

namespace Bluetape.Dynamodb

open List

/-! ### Maps from tables -/

/-- A map from tables to lists: its entries, sorted by the tables. -/
structure TableMap (T α : Type) [LinearOrder T] where
  entries : List (T × List α)
  sorted : entries.Pairwise fun a b => a.1 < b.1

namespace TableMap

variable {T α : Type} [LinearOrder T]

/-- No tables. -/
def empty : TableMap T α := ⟨[], .nil⟩

/-- Items are added to a table. -/
def appendEntry (table : T) (items : List α) : List (T × List α) → List (T × List α)
  | [] => [(table, items)]
  | e :: rest =>
    if table < e.1 then (table, items) :: e :: rest
    else if table = e.1 then (e.1, e.2 ++ items) :: rest
    else e :: appendEntry table items rest

theorem table_of_mem_appendEntry {table : T} {items : List α} {entries : List (T × List α)}
    {e : T × List α} (h : e ∈ appendEntry table items entries) :
    e.1 = table ∨ ∃ e' ∈ entries, e'.1 = e.1 := by
  induction entries with
  | nil =>
    obtain rfl := mem_singleton.mp h
    exact .inl rfl
  | cons e' rest ih =>
    rw [appendEntry] at h
    split_ifs at h with hlt heq
    · rcases mem_cons.mp h with rfl | h
      · exact .inl rfl
      · exact .inr ⟨e, h, rfl⟩
    · rcases mem_cons.mp h with rfl | h
      · exact .inl heq.symm
      · exact .inr ⟨e, mem_cons_of_mem _ h, rfl⟩
    · rcases mem_cons.mp h with rfl | h
      · exact .inr ⟨e, mem_cons_self, rfl⟩
      · rcases ih h with htable | ⟨e'', hmem, htable⟩
        · exact .inl htable
        · exact .inr ⟨e'', mem_cons_of_mem _ hmem, htable⟩

theorem sorted_appendEntry (table : T) (items : List α) {entries : List (T × List α)}
    (h : entries.Pairwise fun a b => a.1 < b.1) :
    (appendEntry table items entries).Pairwise fun a b => a.1 < b.1 := by
  induction entries with
  | nil => exact pairwise_singleton _ _
  | cons e rest ih =>
    obtain ⟨hfirst, hrest⟩ := pairwise_cons.mp h
    rw [appendEntry]
    split_ifs with hlt heq
    · refine pairwise_cons.mpr ⟨fun b hb => ?_, h⟩
      rcases mem_cons.mp hb with rfl | hb
      · exact hlt
      · exact hlt.trans (hfirst b hb)
    · exact pairwise_cons.mpr ⟨hfirst, hrest⟩
    · refine pairwise_cons.mpr ⟨fun b hb => ?_, ih hrest⟩
      rcases table_of_mem_appendEntry hb with htable | ⟨b', hb', htable⟩
      · rw [htable]
        exact lt_of_le_of_ne (not_lt.mp hlt) (Ne.symm heq)
      · rw [← htable]
        exact hfirst b' hb'

/-- `m[table] = append(m[table], items...)`. -/
def append (m : TableMap T α) (table : T) (items : List α) : TableMap T α :=
  ⟨appendEntry table items m.entries, sorted_appendEntry table items m.sorted⟩

/-- `flattenRequestItems`: the items with their tables. -/
def flatten (m : TableMap T α) : List (T × α) := m.entries.flatMap fun e => e.2.map (e.1, ·)

/-- `countRequestItems`. -/
def count (m : TableMap T α) : ℕ := (m.entries.map fun e => e.2.length).sum

/-- Each item, with its table. -/
def content (m : TableMap T α) : Multiset (T × α) := m.flatten

@[simp] theorem content_empty : content (empty : TableMap T α) = 0 := rfl

theorem card_content (m : TableMap T α) : m.content.card = m.count := by
  rw [content, Multiset.coe_card, flatten, length_flatMap, count]
  simp

theorem content_append (m : TableMap T α) (table : T) (items : List α) :
    (m.append table items).content = m.content + (items.map (table, ·) : List (T × α)) := by
  have hentries : ∀ entries : List (T × List α),
      (((appendEntry table items entries).flatMap fun e => e.2.map (e.1, ·) : List (T × α)) :
        Multiset (T × α)) = (entries.flatMap fun e => e.2.map (e.1, ·) : List (T × α)) +
          (items.map (table, ·) : List (T × α)) := by
    intro entries
    induction entries with
    | nil => simp [appendEntry]
    | cons e rest ih =>
      rw [appendEntry]
      split_ifs with hlt heq
      · simp only [flatMap_cons, ← Multiset.coe_add]
        exact add_comm _ _
      · simp only [flatMap_cons, map_append, ← Multiset.coe_add, heq]
        exact add_right_comm _ _ _
      · simp only [flatMap_cons, ← Multiset.coe_add] at ih ⊢
        rw [ih, add_assoc]
  exact hentries m.entries

end TableMap

/-! ### Chunks -/

/-- The limit of DynamoDB. -/
def maxItemsPerBatch : ℕ := 25

/-- The slices of `size` items, of which the last may be shorter. -/
def chunkItems {α : Type} (items : List α) (size : ℕ) : List (List α) :=
  (List.range ((items.length + size - 1) / size)).map fun k => (items.drop (k * size)).take size

theorem flatten_chunkItems {α : Type} (items : List α) {size : ℕ} (hsize : 0 < size) :
    (chunkItems items size).flatten = items := by
  have htake : ∀ n, (((List.range n).map fun k => (items.drop (k * size)).take size).flatten) =
      items.take (n * size) := by
    intro n
    induction n with
    | zero => simp
    | succ n ih =>
      rw [range_succ, map_append, flatten_append, ih, Nat.succ_mul, take_add]
      simp
  rw [chunkItems, htake, take_of_length_le]
  have hdiv := Nat.lt_div_mul_add (a := items.length + size - 1) hsize
  omega

theorem length_of_mem_chunkItems {α : Type} {items chunk : List α} {size : ℕ} (hsize : 0 < size)
    (h : chunk ∈ chunkItems items size) : 1 ≤ chunk.length ∧ chunk.length ≤ size := by
  obtain ⟨k, hk, rfl⟩ := mem_map.mp h
  have hlt := mem_range.mp hk
  have hmul : (k + 1) * size ≤ items.length + size - 1 := by
    rw [← Nat.le_div_iff_mul_le hsize]
    exact hlt
  rw [Nat.succ_mul] at hmul
  rw [length_take, length_drop]
  omega

variable {T I C M E : Type} [LinearOrder T]

/-- The request for a chunk. -/
def itemsToRequestMap (items : List (T × I)) : TableMap T I :=
  items.foldl (fun m item => m.append item.1 [item.2]) .empty

theorem content_itemsToRequestMap (items : List (T × I)) :
    (itemsToRequestMap items).content = items := by
  have hfoldl : ∀ m : TableMap T I,
      (items.foldl (fun m item => m.append item.1 [item.2]) m).content = m.content + items := by
    induction items with
    | nil => simp
    | cons item items ih =>
      intro m
      rw [foldl_cons, ih, TableMap.content_append, add_assoc, Multiset.coe_add]
      rfl
  rw [itemsToRequestMap, hfoldl, TableMap.content_empty, zero_add]

/-! ### The client -/

/-- `dynamodb.BatchWriteItemOutput`. -/
structure Output (T I C M : Type) [LinearOrder T] where
  unprocessedItems : TableMap T I
  consumedCapacity : List C
  itemCollectionMetrics : TableMap T M

/-- What a call returns: an error, or an output, which may be nil. -/
inductive Response (T I C M E : Type) [LinearOrder T] where
  | failed (err : E)
  | done (out : Option (Output T I C M))

/-- The items that a response leaves unprocessed, if it is no failure. -/
def Response.unprocessed : Option (Output T I C M) → TableMap T I
  | none => .empty
  | some out => out.unprocessedItems

/-- **A client**: to the `n`-th call it responds with an error, and then the call has had no
effect, or with a part of the items that were submitted, and has accepted the others. -/
structure Client (T I C M E : Type) [LinearOrder T] where
  respond : ℕ → TableMap T I → Response T I C M E
  part : ∀ n request out, respond n request = .done out →
    (Response.unprocessed out).content ≤ request.content

/-- The errors of a context. -/
inductive ContextError where
  | canceled
  | deadlineExceeded
  deriving DecidableEq

/-- The answers of the context, one for each look. -/
abbrev Context := ℕ → Option ContextError

/-! ### WriteAll -/

/-- The errors of `WriteAll`. -/
inductive Error (T I E : Type) [LinearOrder T] where
  | nilClient
  | emptyRequestItems
  | invalidMaxAttempts
  | context (err : ContextError)
  | call (attempt : ℤ) (err : E)
  /-- `UnprocessedItemsError`. -/
  | unprocessed (attempts : ℤ) (items : TableMap T I)

/-- `BatchWriteResult`. -/
structure Result (T C M : Type) [LinearOrder T] where
  attempts : ℤ
  processed : ℤ
  consumedCapacity : List C
  itemCollectionMetrics : TableMap T M

namespace Result

/-- Nothing was done. -/
def zero : Result T C M := ⟨0, 0, [], .empty⟩

/-- An output is counted in. -/
def merge (r : Result T C M) : Option (Output T I C M) → Result T C M
  | none => r
  | some out =>
    { r with
      consumedCapacity := r.consumedCapacity ++ out.consumedCapacity
      itemCollectionMetrics := out.itemCollectionMetrics.entries.foldl
        (fun m e => m.append e.1 e.2) r.itemCollectionMetrics }

@[simp] theorem processed_merge (r : Result T C M) (out : Option (Output T I C M)) :
    (r.merge out).processed = r.processed := by cases out <;> rfl

end Result

/-- A call of the client. -/
structure Call (T I C M E : Type) [LinearOrder T] where
  chunk : ℕ
  request : TableMap T I
  response : Response T I C M E

/-- What is done so far. -/
structure State (T I C M E : Type) [LinearOrder T] where
  result : Result T C M
  calls : List (Call T I C M E)
  looks : ℕ

namespace State

/-- Nothing was done. -/
def start : State T I C M E := ⟨.zero, [], 0⟩

/-- The context is looked at. -/
def look (s : State T I C M E) : State T I C M E := { s with looks := s.looks + 1 }

/-- The client is called. -/
def called (s : State T I C M E) (c : Call T I C M E) : State T I C M E :=
  { s with
    result := { s.result with attempts := s.result.attempts + 1 }
    calls := s.calls ++ [c] }

/-- Its output is counted in. -/
def merge (s : State T I C M E) (out : Option (Output T I C M)) : State T I C M E :=
  { s with result := s.result.merge out }

/-- Items have been accepted. -/
def addProcessed (s : State T I C M E) (n : ℤ) : State T I C M E :=
  { s with result := { s.result with processed := s.result.processed + n } }

@[simp] theorem processed_addProcessed (s : State T I C M E) (n : ℤ) :
    (s.addProcessed n).result.processed = s.result.processed + n := rfl

@[simp] theorem calls_addProcessed (s : State T I C M E) (n : ℤ) :
    (s.addProcessed n).calls = s.calls := rfl

end State

section

variable (client : Client T I C M E) (ctx : Context)

/-- The attempts for a chunk, `n` of `maxAttempts` being left. Without an error the chunk has been
written. -/
def attemptLoop (maxAttempts : ℤ) (chunk : ℕ) (chunkTotal : ℤ) :
    ℕ → TableMap T I → State T I C M E → Option (Error T I E) × State T I C M E
  | 0, _, s => (none, s)
  | n + 1, pending, s =>
    let attempt := maxAttempts - n
    match ctx s.looks with
    | some err => (some (.context err), s.look)
    | none =>
      let response := client.respond s.calls.length pending
      let s := s.look.called ⟨chunk, pending, response⟩
      match response with
      | .failed err => (some (.call attempt err), s)
      | .done out =>
        let s := s.merge out
        let unprocessed := Response.unprocessed out
        let remaining := unprocessed.count
        if remaining = 0 then (none, s.addProcessed chunkTotal)
        else if attempt = maxAttempts then
          (some (.unprocessed attempt unprocessed), s.addProcessed (chunkTotal - remaining))
        else
          -- The sleep, which ends with the context or after the delay.
          match ctx s.looks with
          | some err => (some (.context err), s.look)
          | none => attemptLoop maxAttempts chunk chunkTotal n unprocessed s.look

/-- The chunks, of which the first has number `k`, with the number of the chunk at hand. -/
def chunkLoop (maxAttempts : ℤ) :
    ℕ → List (List (T × I)) → State T I C M E → Option (Error T I E) × ℕ × State T I C M E
  | k, [], s => (none, k, s)
  | k, chunk :: rest, s =>
    match attemptLoop client ctx maxAttempts k chunk.length maxAttempts.toNat
        (itemsToRequestMap chunk) s with
    | (some err, s) => (some err, k, s)
    | (none, s) => chunkLoop maxAttempts (k + 1) rest s

end

/-- What `WriteAll` returns, with the calls that it has made and the chunk it was at. -/
structure Outcome (T I C M E : Type) [LinearOrder T] where
  result : Result T C M
  err : Option (Error T I E)
  calls : List (Call T I C M E)
  chunk : ℕ

/-- **`BatchWriteAll`.** -/
def writeAll (ctx : Context) (client : Option (Client T I C M E)) (requestItems : TableMap T I)
    (maxAttempts : ℤ) : Outcome T I C M E :=
  match client with
  | none => ⟨.zero, some .nilClient, [], 0⟩
  | some client =>
    if maxAttempts ≤ 0 then ⟨.zero, some .invalidMaxAttempts, [], 0⟩
    else if requestItems.flatten = [] then ⟨.zero, some .emptyRequestItems, [], 0⟩
    else
      match chunkLoop client ctx maxAttempts 0 (chunkItems requestItems.flatten maxItemsPerBatch)
          .start with
      | (err, k, s) => ⟨s.result, err, s.calls, k⟩

end Bluetape.Dynamodb
