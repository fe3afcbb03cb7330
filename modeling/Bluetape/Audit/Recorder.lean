import Mathlib.Algebra.Group.Nat.Defs
import Bluetape.GoString

/-!
# The recorder of an aggregate

`AggregateRecorder` numbers the events of an aggregate and keeps them until they are acknowledged.
The revisions of the pending events are always the last ones up to the head
(`AggregateRecorder.Books`), so that an acknowledgement, which takes events from the front, takes
exactly those with a small revision (`AggregateRecorder.recorder_books`).
-/

namespace Bluetape.Audit

open GoString List

/-! ### Validation -/

/-- The kinds of error. -/
inductive Kind where
  | invalidAggregateID
  | invalidRevision
  | invalidEvent
  | invalidEntry
  | mixedAggregate
  | revisionConflict

/-- The kind and the field of a `ValidationError`. -/
abbrev Failure := Kind × String

/-- A check: the kind and the field it fails with. -/
abbrev Check := Except Failure Unit

/-- A field has to be as it should. -/
def require (p : Prop) [Decidable p] (kind : Kind) (field : String) : Check :=
  if p then .ok () else .error (kind, field)

/-- `validationCause`. -/
def Check.cause (c : Check) (kind : Kind) (field : String) : Check :=
  c.mapError fun _ => (kind, field)

/-- A type and an ID. -/
structure AggregateID where
  type : Text
  id : Text
deriving DecidableEq

/-- Neither is blank. -/
def AggregateID.validate (id : AggregateID) : Check := do
  require (trimSpace id.type ≠ []) .invalidAggregateID "type"
  require (trimSpace id.id ≠ []) .invalidAggregateID "id"

/-- A `uint64`. -/
abbrev Revision := ℕ

/-- Revisions start at one. -/
def Revision.validate (r : Revision) : Check := require (r ≠ 0) .invalidRevision "revision"

/-- The next one, unless it is the last. -/
def Revision.next (r : Revision) : Except Failure Revision := do
  validate r
  require (r ≠ 2 ^ 64 - 1) .invalidRevision "revision"
  return r + 1

/-- Keys and values. -/
abbrev Metadata := List (Text × Text)

/-- No key is blank. -/
def validateMetadata (kind : Kind) (field : String) (metadata : Metadata) : Check :=
  require (∀ entry ∈ metadata, trimSpace entry.1 ≠ []) kind field

/-- Times are counted from the zero time. -/
structure EventRecord where
  eventID : Text
  eventType : Text
  occurredAt : ℤ
  idempotencyKey : Text
  metadata : Metadata
  payload : Text

/-- A record that has been given its place. -/
structure DomainEvent extends EventRecord where
  aggregate : AggregateID
  revision : Revision
  recordedAt : ℤ

-- `json.Valid`.
variable (jsonValid : Text → Bool)

/-- The payload, which is valid JSON. -/
def normalizePayload (field : String) (payload : Text) (kind : Kind) : Except Failure Text := do
  let clone := if payload = [] then ascii "\x7b\x7d" else payload
  require (jsonValid clone = true) kind field
  return clone

/-- The checks of an event. -/
def DomainEvent.validate (e : DomainEvent) : Check := do
  require (trimSpace e.eventID ≠ []) .invalidEvent "event_id"
  require (trimSpace e.eventType ≠ []) .invalidEvent "event_type"
  e.aggregate.validate.cause .invalidEvent "aggregate"
  (Revision.validate e.revision).cause .invalidEvent "revision"
  require (e.occurredAt ≠ 0) .invalidEvent "occurred_at"
  require (e.recordedAt ≠ 0) .invalidEvent "recorded_at"
  require (trimSpace e.idempotencyKey ≠ []) .invalidEvent "idempotency_key"
  (validateMetadata .invalidEvent "metadata" e.metadata).cause .invalidEvent "metadata"
  require (e.payload ≠ [] ∧ jsonValid e.payload = true) .invalidEvent "payload"

/-- The options are those of an event, before it is normalised. -/
def newDomainEvent (options : DomainEvent) : Except Failure DomainEvent := do
  let payload ← normalizePayload jsonValid "payload" options.payload .invalidEvent
  let event := { options with
    eventID := trimSpace options.eventID
    eventType := trimSpace options.eventType
    idempotencyKey := trimSpace options.idempotencyKey
    payload }
  event.validate jsonValid
  return event

/-! ### The recorder -/

/-- What a recorder has. -/
structure AggregateRecorder where
  aggregate : AggregateID
  head : Revision
  pending : List DomainEvent := []

/-- From the head of a history. -/
def newAggregateRecorderFromHead (aggregate : AggregateID) (head : Revision) :
    Except Failure AggregateRecorder := do
  aggregate.validate
  (if head ≠ 0 then Revision.validate head else .ok () : Check)
  return { aggregate, head }

namespace AggregateRecorder

/-- One, or the next after the head. -/
def nextRevision (r : AggregateRecorder) : Except Failure Revision :=
  if r.head ≠ 0 then Revision.next r.head else .ok 1

/-- A call of `Record` that does not fail: all that it changes comes after the last check. -/
def recordEvent (r : AggregateRecorder) (record : EventRecord) (now : ℤ) :
    Except Failure (DomainEvent × AggregateRecorder) := do
  let payload ← normalizePayload jsonValid "payload" record.payload .invalidEvent
  require (trimSpace record.eventID ≠ []) .invalidEvent "event_id"
  require (trimSpace record.eventType ≠ []) .invalidEvent "event_type"
  require (record.occurredAt ≠ 0) .invalidEvent "occurred_at"
  require (trimSpace record.idempotencyKey ≠ []) .invalidEvent "idempotency_key"
  (validateMetadata .invalidEvent "metadata" record.metadata).cause .invalidEvent "metadata"
  let next ← r.nextRevision
  let event ← newDomainEvent jsonValid { record with
    eventID := trimSpace record.eventID
    eventType := trimSpace record.eventType
    aggregate := r.aggregate
    revision := next
    recordedAt := now
    idempotencyKey := trimSpace record.idempotencyKey
    payload }
  return (event, { r with head := next, pending := r.pending ++ [event] })

/-- **`Record`.** -/
def record (r : AggregateRecorder) (record : EventRecord) (now : ℤ) :
    Except Failure DomainEvent × AggregateRecorder :=
  match r.recordEvent jsonValid record now with
  | .error failure => (.error failure, r)
  | .ok (event, r) => (.ok event, r)

/-- **`AckThrough`.** -/
def ackThrough (r : AggregateRecorder) (revision : Revision) : Check × AggregateRecorder :=
  match (do
      Revision.validate revision
      require (revision ≤ r.head) .invalidRevision "revision") with
  | .error failure => (.error failure, r)
  | .ok () => (.ok (), { r with pending := r.pending.dropWhile (·.revision ≤ revision) })

/-- The calls. -/
inductive Call where
  | record (record : EventRecord) (now : ℤ)
  | ackThrough (revision : Revision)

/-- The recorder after a call. -/
def call (r : AggregateRecorder) : Call → AggregateRecorder
  | .record record now => (r.record jsonValid record now).2
  | .ackThrough revision => (r.ackThrough revision).2

/-! ### What the calls do -/

/-- **The pending events are the last ones up to the head.** -/
def Books (r : AggregateRecorder) : Prop :=
  ∃ first, r.pending.map DomainEvent.revision = List.range' first r.pending.length ∧
    first + r.pending.length = r.head + 1

/-- An event is added, or nothing changes. -/
def Recorded (r : AggregateRecorder) : Except Failure DomainEvent × AggregateRecorder → Prop
  | (.error _, r') => r' = r
  | (.ok event, r') => event.revision = r.head + 1 ∧
    r' = { r with head := r.head + 1, pending := r.pending ++ [event] }

/-- Events are dropped, or nothing changes. -/
def Acknowledged (r : AggregateRecorder) (revision : Revision) : Check × AggregateRecorder → Prop
  | (.error _, r') => r' = r
  | (.ok _, r') => r' = { r with pending := r.pending.filter (revision < ·.revision) }

variable {jsonValid} {r : AggregateRecorder}

theorem bind_eq_ok {α β : Type} {a : Except Failure α} {f : α → Except Failure β} {y : β} :
    a >>= f = .ok y ↔ ∃ x, a = .ok x ∧ f x = .ok y := by
  cases a with
  | error e => exact ⟨nofun, nofun⟩
  | ok x => exact ⟨fun h => ⟨x, rfl, h⟩, by rintro ⟨_, ⟨⟩, h⟩; exact h⟩

theorem nextRevision_eq {next : Revision} (h : r.nextRevision = .ok next) : next = r.head + 1 := by
  unfold nextRevision at h
  by_cases hhead : r.head = 0
  · rw [if_neg (not_not_intro hhead)] at h
    cases h
    rw [hhead]
  · rw [if_pos hhead] at h
    simp only [Revision.next, bind_eq_ok] at h
    obtain ⟨-, -, -, -, ⟨⟩⟩ := h
    rfl

theorem recorded (record : EventRecord) (now : ℤ) : r.Recorded (r.record jsonValid record now) := by
  unfold AggregateRecorder.record
  split
  · rfl
  · rename_i hok
    simp only [recordEvent, newDomainEvent, bind_eq_ok] at hok
    obtain ⟨_, -, -, -, -, -, -, -, -, -, -, -, _, hnext, _, ⟨_, -, -, -, ⟨⟩⟩, ⟨⟩⟩ := hok
    cases nextRevision_eq hnext
    exact ⟨rfl, rfl⟩

/-- The revisions increase, so those that are taken are those that are small. -/
theorem dropWhile_eq_filter {pending : List DomainEvent} (revision : Revision)
    (h : pending.Pairwise fun a b => a.revision < b.revision) :
    pending.dropWhile (·.revision ≤ revision) = pending.filter (revision < ·.revision) := by
  induction h with
  | nil => rfl
  | @cons event rest hlt _ ih =>
    by_cases hle : event.revision ≤ revision
    · rw [dropWhile_cons_of_pos (by simpa using hle), ih, filter_cons_of_neg (by simpa using hle)]
    · rw [dropWhile_cons_of_neg (by simpa using hle), filter_eq_self.mpr]
      refine forall_mem_cons.mpr ⟨by simpa using hle, fun next hnext => ?_⟩
      exact decide_eq_true (Nat.lt_trans (Nat.not_le.mp hle) (hlt next hnext))

theorem Books.acknowledged (h : r.Books) (revision : Revision) :
    r.Acknowledged revision (r.ackThrough revision) := by
  unfold ackThrough
  split
  · rfl
  · obtain ⟨first, hrevisions, -⟩ := h
    have hincreasing : (r.pending.map DomainEvent.revision).Pairwise (· < ·) :=
      hrevisions ▸ pairwise_lt_range'
    rw [dropWhile_eq_filter revision (pairwise_map.mp hincreasing)]
    rfl

theorem Books.call (h : r.Books) (c : Call) : (r.call jsonValid c).Books := by
  cases c with
  | record record now =>
    have hrecorded : r.Recorded (r.record jsonValid record now) := recorded record now
    rw [AggregateRecorder.call]
    generalize r.record jsonValid record now = result at hrecorded ⊢
    rcases result with ⟨_ | event, r'⟩
    · cases hrecorded
      exact h
    · obtain ⟨hrevision, ⟨⟩⟩ := hrecorded
      obtain ⟨first, hrevisions, hlast⟩ := h
      refine ⟨first, ?_, ?_⟩
      · rw [map_append, hrevisions, length_append, length_singleton,
          range'_1_concat, hlast, ← hrevision]
        rfl
      · rw [length_append, length_singleton, ← Nat.add_assoc, hlast]
  | ackThrough revision =>
    rw [AggregateRecorder.call, ackThrough]
    split
    · exact h
    · obtain ⟨first, hrevisions, hlast⟩ := h
      obtain ⟨acked, hacked⟩ := dropWhile_suffix (l := r.pending) (·.revision ≤ revision)
      generalize r.pending.dropWhile (·.revision ≤ revision) = pending at hacked ⊢
      rw [← hacked, map_append, length_append, ← range'_append_1] at hrevisions
      rw [← hacked, length_append] at hlast
      rw [← Nat.add_assoc] at hlast
      exact ⟨first + acked.length, (append_inj hrevisions (by simp)).2, hlast⟩

/-- **The books are kept**, after every sequence of calls, and what the next call does. -/
theorem recorder_books {aggregate : AggregateID} {head : Revision} {r₀ : AggregateRecorder}
    (hnew : newAggregateRecorderFromHead aggregate head = .ok r₀) (calls : List Call) :
    (calls.foldl (call jsonValid) r₀).Books ∧
      (∀ record now, (calls.foldl (call jsonValid) r₀).Recorded
        ((calls.foldl (call jsonValid) r₀).record jsonValid record now)) ∧
      ∀ revision, (calls.foldl (call jsonValid) r₀).Acknowledged revision
        ((calls.foldl (call jsonValid) r₀).ackThrough revision) := by
  have hbooks : (calls.foldl (call jsonValid) r₀).Books := by
    refine List.foldlRecOn calls (call jsonValid) ?_ fun r h c _ => h.call c
    simp only [newAggregateRecorderFromHead, bind_eq_ok] at hnew
    obtain ⟨-, -, -, -, ⟨⟩⟩ := hnew
    exact ⟨head + 1, rfl, rfl⟩
  exact ⟨hbooks, recorded, hbooks.acknowledged⟩

/-- Two events are recorded, and the first is acknowledged. -/
theorem recorder_books_second :
    let event (id : String) : EventRecord := ⟨ascii id, ascii "created", 1, ascii id, [], []⟩
    let r := ([.record (event "a") 2, .record (event "b") 3, .ackThrough 1] : List Call).foldl
      (call fun _ => true) ⟨⟨ascii "order", ascii "1"⟩, 0, []⟩
    r.Books ∧ r.pending.map DomainEvent.revision = [2] := by
  have hnew : newAggregateRecorderFromHead ⟨ascii "order", ascii "1"⟩ 0 = .ok ⟨_, 0, []⟩ := rfl
  exact ⟨(recorder_books hnew _).1, by decide +kernel⟩

end AggregateRecorder

end Bluetape.Audit
