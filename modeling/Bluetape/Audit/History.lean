import Mathlib.Data.List.Sort
import Bluetape.Audit.Recorder

/-!
# Histories

`NewHistory` takes the entries of an aggregate in any order, sorts them by their revisions and
checks them one after the other. What it accepts does not depend on the order: the entries are valid
and of one aggregate, no event and no idempotency key comes twice, and the revisions are those from
1 on without a gap (`newHistory_iff`).
-/

namespace Bluetape.Audit

open GoString List

variable (jsonValid : Text → Bool)

/-! ### The code -/

/-- `SnapshotMetadata`. -/
structure SnapshotMetadata where
  format : Text
  schemaVersion : Text
  payload : Text

/-- Its checks. -/
def SnapshotMetadata.validate (m : SnapshotMetadata) : Check := do
  require (trimSpace m.format ≠ []) .invalidEntry "snapshot.format"
  require (trimSpace m.schemaVersion ≠ []) .invalidEntry "snapshot.schema_version"
  require (m.payload ≠ [] ∧ jsonValid m.payload = true) .invalidEntry "snapshot.payload"

/-- `ChangeMetadata`. -/
structure ChangeMetadata where
  changedFields : List Text
  attributes : Metadata

/-- No field is blank, or twice there. -/
def checkFields (seen : List Text) : List Text → Check
  | [] => .ok ()
  | field :: fields => do
    require (trimSpace field ≠ []) .invalidEntry "change.changed_fields"
    require (trimSpace field ∉ seen) .revisionConflict "change.changed_fields"
    checkFields (trimSpace field :: seen) fields

/-- Its checks. -/
def ChangeMetadata.validate (m : ChangeMetadata) : Check := do
  require (m.changedFields ≠ []) .invalidEntry "change.changed_fields"
  checkFields [] m.changedFields
  validateMetadata .invalidEntry "change.attributes" m.attributes

/-- `AuditEntry`. -/
structure Entry where
  schemaVersion : ℤ
  aggregate : AggregateID
  revision : Revision
  author : Text
  event : DomainEvent
  snapshot : Option SnapshotMetadata
  change : Option ChangeMetadata

/-- **The checks of an entry.** -/
def Entry.validate (e : Entry) : Check := do
  require (e.schemaVersion = 1) .invalidEntry "schema_version"
  e.aggregate.validate.cause .invalidEntry "aggregate"
  (Revision.validate e.revision).cause .invalidEntry "revision"
  require (trimSpace e.author ≠ []) .invalidEntry "author"
  (e.event.validate jsonValid).cause .invalidEntry "event"
  require (e.event.aggregate = e.aggregate) .invalidEntry "event.aggregate"
  require (e.event.revision = e.revision) .invalidEntry "event.revision"
  (e.snapshot.elim (.ok ()) (SnapshotMetadata.validate jsonValid) : Check)
  (e.change.elim (.ok ()) ChangeMetadata.validate : Check)

/-- The loop of `NewHistory`, with the event identifiers and the idempotency keys that were seen. -/
def checkEntries (aggregate : AggregateID) (i : ℕ) (seenEventIDs : List Text)
    (seenIdempotencyKeys : List (Text × Text)) : List Entry → Check
  | [] => .ok ()
  | entry :: entries => do
    entry.validate jsonValid
    require (entry.aggregate = aggregate) .mixedAggregate "aggregate"
    require (entry.revision = i + 1 ∧ entry.revision = entry.event.revision) .revisionConflict
      "revision"
    require (entry.event.eventID ∉ seenEventIDs) .revisionConflict "event_id"
    require (∀ existing ∈ seenIdempotencyKeys.lookup entry.event.idempotencyKey,
      existing = entry.event.eventID) .revisionConflict "idempotency_key"
    checkEntries aggregate (i + 1) (entry.event.eventID :: seenEventIDs)
      ((entry.event.idempotencyKey, entry.event.eventID) :: seenIdempotencyKeys) entries

/-- What `NewHistory` returns. -/
structure History where
  aggregate : AggregateID
  entries : List Entry
  head : Revision

/-- `sort.Slice` is given as a function; it returns as many entries as there are. -/
def newHistory (sort : List Entry → List Entry) (entries : List Entry) : Except Failure History :=
  match sort entries with
  | [] => .error (.invalidEntry, "entries")
  | first :: rest => do
    first.aggregate.validate
    checkEntries jsonValid first.aggregate 0 [] [] (first :: rest)
    return ⟨first.aggregate, first :: rest, (rest.getLastD first).revision⟩

/-! ### What is accepted -/

/-- **A complete history**, in any order. -/
structure Complete (entries : List Entry) : Prop where
  valid : ∀ e ∈ entries, e.validate jsonValid = .ok ()
  aggregate : ∀ e ∈ entries, ∀ e' ∈ entries, e.aggregate = e'.aggregate
  eventIDs : (entries.map (·.event.eventID)).Nodup
  idempotencyKeys : (entries.map (·.event.idempotencyKey)).Nodup
  revisions : (entries.map Entry.revision).Perm (List.range' 1 entries.length)

/-- What `sort.Slice` does. -/
def Sorts (sort : List Entry → List Entry) : Prop :=
  ∀ entries, (sort entries).Perm entries ∧
    (sort entries).Pairwise fun a b => a.revision ≤ b.revision

variable {jsonValid}

theorem check_bind_eq_ok {α : Type} {c : Check} {f : Unit → Except Failure α} {x : α} :
    c >>= f = .ok x ↔ c = .ok () ∧ f () = .ok x := by
  cases c with
  | error e => exact ⟨nofun, nofun⟩
  | ok u => exact (and_iff_right rfl).symm

theorem require_eq_ok {p : Prop} [Decidable p] {kind : Kind} {field : String} :
    require p kind field = .ok () ↔ p := by
  unfold require
  split <;> simp_all

theorem cause_eq_ok {c : Check} {kind : Kind} {field : String} :
    c.cause kind field = .ok () ↔ c = .ok () := by
  cases c <;> simp [Check.cause, Except.mapError]

theorem Entry.of_validate {e : Entry} (h : e.validate jsonValid = .ok ()) :
    e.aggregate.validate = .ok () ∧ e.event.revision = e.revision := by
  simp only [validate, check_bind_eq_ok, require_eq_ok, cause_eq_ok] at h
  obtain ⟨-, haggregate, -, -, -, -, hrevision, -⟩ := h
  exact ⟨haggregate, hrevision⟩

theorem checkEntries_iff {aggregate : AggregateID} {entries : List Entry} {i : ℕ}
    {ids : List Text} {keys : List (Text × Text)}
    (hkeys : ∀ key, ∀ id ∈ keys.lookup key, id ∈ ids) :
    checkEntries jsonValid aggregate i ids keys entries = .ok () ↔
      (∀ e ∈ entries, e.validate jsonValid = .ok () ∧ e.aggregate = aggregate ∧
        e.event.eventID ∉ ids ∧ keys.lookup e.event.idempotencyKey = none) ∧
      entries.map Entry.revision = List.range' (i + 1) entries.length ∧
      (entries.map (·.event.eventID)).Nodup ∧ (entries.map (·.event.idempotencyKey)).Nodup := by
  induction entries generalizing i ids keys with
  | nil => simp [checkEntries]
  | cons e entries ih =>
    have hlookup (key : Text) :
        List.lookup key ((e.event.idempotencyKey, e.event.eventID) :: keys) =
        if key = e.event.idempotencyKey then some e.event.eventID else keys.lookup key := by
      rw [lookup_cons]
      split <;> simp_all
    have hnext : ∀ key, ∀ id ∈ List.lookup key ((e.event.idempotencyKey, e.event.eventID) :: keys),
        id ∈ e.event.eventID :: ids := by
      grind
    simp only [checkEntries, check_bind_eq_ok, require_eq_ok, ih hnext, hlookup,
      forall_mem_cons, map_cons, length_cons, range'_succ, nodup_cons]
    constructor
    · rintro ⟨hvalid, haggregate, ⟨hrevision, -⟩, hid, hkey, hall, hrevisions, hids, hnodup⟩
      have hnone : keys.lookup e.event.idempotencyKey = none := by
        rw [Option.eq_none_iff_forall_not_mem]
        exact fun id h => hid (hkey id h ▸ hkeys _ id h)
      grind
    · rintro ⟨⟨⟨hvalid, haggregate, hid, hkey⟩, hall⟩, hrevisions, ⟨hnot, hids⟩, hnot', hnodup⟩
      have := Entry.of_validate hvalid
      grind

/-- **Exactly complete histories are accepted**, and then they are in order. -/
theorem newHistory_iff {sort : List Entry → List Entry} (hsort : Sorts sort) {entries : List Entry}
    (hne : entries ≠ []) :
    ((∃ h, newHistory jsonValid sort entries = .ok h) ↔ Complete jsonValid entries) ∧
      ∀ h, newHistory jsonValid sort entries = .ok h → h.entries.Perm entries ∧
        h.entries.map Entry.revision = List.range' 1 entries.length := by
  obtain ⟨hperm, hsorted⟩ := hsort entries
  unfold newHistory
  generalize sort entries = ordered at hperm hsorted ⊢
  cases ordered with
  | nil => exact absurd hperm.nil_eq.symm hne
  | cons first rest =>
    have hfirst : first ∈ first :: rest := mem_cons_self
    have hcheck := @checkEntries_iff jsonValid first.aggregate (first :: rest) 0 [] [] nofun
    simp only [check_bind_eq_ok, hcheck, hperm.length_eq, (hperm.map _).nodup_iff]
    refine ⟨⟨?_, fun h => ?_⟩, ?_⟩
    · rintro ⟨h, -, ⟨hall, hrevisions, hids, hkeys⟩, -⟩
      refine ⟨fun e he => (hall e (hperm.mem_iff.mpr he)).1, fun e he e' he' => ?_, hids, hkeys, ?_⟩
      · rw [(hall e (hperm.mem_iff.mpr he)).2.1, (hall e' (hperm.mem_iff.mpr he')).2.1]
      · rw [← hrevisions]
        exact (hperm.map _).symm
    · have hvalid (e : Entry) (he : e ∈ first :: rest) := h.valid e (hperm.mem_iff.mp he)
      refine ⟨_, (Entry.of_validate (hvalid first hfirst)).1, ⟨fun e he => ⟨hvalid e he, ?_, nofun,
        rfl⟩, ?_, h.eventIDs, h.idempotencyKeys⟩, rfl⟩
      · exact h.aggregate e (hperm.mem_iff.mp he) first (hperm.mem_iff.mp hfirst)
      · exact ((hperm.map _).trans h.revisions).eq_of_pairwise' (pairwise_map.mpr hsorted)
          pairwise_le_range'
    · rintro h ⟨-, ⟨-, hrevisions, -⟩, ⟨⟩⟩
      exact ⟨hperm, hrevisions⟩

/-- An entry of the aggregate `a/1` with an event, its key and a revision. -/
def entryOf (eventID key : Text) (revision : Revision) : Entry :=
  ⟨1, ⟨[97], [49]⟩, revision, [98],
    ⟨⟨eventID, [116], 1, key, [], [49]⟩, ⟨[97], [49]⟩, revision, 1⟩, none, none⟩

/-- Two entries of an aggregate, the later one first: they are accepted, and put in order. -/
theorem newHistory_iff_reversed :
    ∃ h, newHistory (fun _ => true) (·.insertionSort (·.revision ≤ ·.revision))
      [entryOf [102] [108] 2, entryOf [101] [107] 1] = .ok h ∧
      h.entries.map Entry.revision = [1, 2] := by
  have hsort : Sorts (·.insertionSort (·.revision ≤ ·.revision)) :=
    fun _ => ⟨perm_insertionSort _ _, pairwise_insertionSort _ _⟩
  have hcomplete : Complete (fun _ => true) [entryOf [102] [108] 2, entryOf [101] [107] 1] := by
    refine ⟨?_, by simp [entryOf], by simp [entryOf], by simp [entryOf], .swap _ _ _⟩
    rw [forall_mem_cons, forall_mem_singleton]
    exact ⟨rfl, rfl⟩
  obtain ⟨h, hh⟩ := (newHistory_iff hsort (cons_ne_nil _ _)).1.mpr hcomplete
  exact ⟨h, hh, ((newHistory_iff hsort (cons_ne_nil _ _)).2 h hh).2⟩

end Bluetape.Audit
