import Bluetape.Go
import Bluetape.Library.Run
import Bluetape.Library.Table
import Mathlib.Data.List.Sort

/-!
# The outbox table and its statements

The package `audit/sqloutbox` keeps audit records in one table until they have been
published. A record is inserted as *pending*; a relay *claims* a batch of records,
which counts an attempt and leases them until a time; a claimed record becomes
*published*, or goes back to *pending* for a retry, or becomes a *dead letter*. When
the lease of a claimed record has run out, the record can be claimed again.

This file models the table and the four statements as `Store` issues them, each one
atomic, and their runs when any number of callers issue them in any order with any
arguments. There are two fences in the SQL, and the results are what they give:

* `Claim` does not select a record while an earlier revision of its aggregate is still *open* –
  pending or claimed – (`blocked`);
* `MarkPublished` and `MarkFailed` name the attempt they are for, and their update selects the row
  only if it is claimed *with that attempt*.

What a statement can do to a row is said once, in `RowStep`, and every invariant is read off from
it. The main result is `claims_are_fenced`.

Times are numbers of nanoseconds; the zero time, which the code replaces by the store's
own clock, is `none`. Columns that no statement reads (`last_error`, `claimed_at`, the
entry itself) are left out.
-/

namespace Bluetape.Outbox

open Go Lts Option List

/-! ### Records -/

inductive Status where
  | pending
  | claimed
  | published
  | deadLetter
  deriving DecidableEq, Repr

/-- The statuses the claim query selects: `status in (pending, claimed)`. -/
def Status.isOpen : Status → Bool
  | .pending | .claimed => true
  | .published | .deadLetter => false

structure AggregateId where
  type : String
  id : String
  deriving DecidableEq, Repr

/-- A row of the table, and the `Record` a claim returns of it: the columns that the
statements read. -/
structure Row where
  /-- `id`, the primary key. -/
  id : ℤ
  status : Status
  /-- `aggregate_type` and `aggregate_id`. -/
  aggregate : AggregateId
  revision : ℤ
  attempts : ℤ
  availableAt : ℤ
  deriving DecidableEq, Repr

abbrev Table : Type := Keyed.Table Row.id

/-- `order by aggregate_type, aggregate_id, revision, id`. -/
def Row.before (a b : Row) : Bool :=
  ((((compare a.aggregate.type b.aggregate.type).then
    (compare a.aggregate.id b.aggregate.id)).then
    (compare a.revision b.revision)).then (compare a.id b.id)).isLE

/-! ### Claim -/

structure ClaimOptions where
  limit : ℤ
  /-- `Now`; `none` is the zero time. -/
  now : Option ℤ
  leaseDuration : ℤ
  deriving DecidableEq, Repr

def defaultLeaseDuration : ℤ := 30 * second

/-- The `exists` of the claim query: an earlier revision of the aggregate is open. -/
def blocked (rows : List Row) (r : Row) : Bool :=
  rows.any fun earlier => decide (earlier.aggregate = r.aggregate) &&
    decide (earlier.revision < r.revision) && earlier.status.isOpen

/-- The `where` of the claim query. -/
def claimable (rows : List Row) (now : ℤ) (r : Row) : Bool :=
  r.status.isOpen && decide (r.availableAt ≤ now) && !blocked rows r

/-- The `candidates` of the claim query. The rows in `locked` are skipped: other
transactions hold them. -/
def candidates (rows : List Row) (now : ℤ) (limit : ℕ) (locked : List ℤ) : List Row :=
  (((rows.filter (claimable rows now)).insertionSort fun a b => a.before b = true).filter
    fun r => decide (r.id ∉ locked)).take limit

def Row.claim (leaseUntil : ℤ) (r : Row) : Row :=
  { r with status := .claimed, attempts := r.attempts + 1, availableAt := leaseUntil }

theorem Row.claim_id (leaseUntil : ℤ) (r : Row) : (r.claim leaseUntil).id = r.id := rfl

/-- The largest value of the `attempts` column. -/
def maxInt32 : ℤ := 2147483647

/-- The claim query: the table it leaves and the rows it returns. The column `attempts`
is an `integer`, so the statement fails rather than overflow it. -/
def claimQuery (t : Table) (now leaseUntil : ℤ) (limit : ℕ) (locked : List ℤ) :
    Except String (Table × List Row) :=
  let chosen := candidates t.rows now limit locked
  if chosen.any fun r => decide (r.attempts = maxInt32) then .error "integer out of range"
  else
    .ok (t.update (fun r => decide (r.id ∈ chosen.map Row.id)) (Row.claim leaseUntil)
      (Row.claim_id leaseUntil), chosen.map (Row.claim leaseUntil))

/-- `Store.Claim`, up to the order of the rows returned; `clock` is the reading of the
store's clock. -/
def claim (t : Table) (options : ClaimOptions) (clock : ℤ) (locked : List ℤ) :
    Except String (Table × List Row) :=
  if options.limit ≤ 0 then .error "invalid sqloutbox argument: claim limit must be positive"
  else
    let leaseDuration :=
      if options.leaseDuration = 0 then defaultLeaseDuration else options.leaseDuration
    if leaseDuration < 0 then
      .error "invalid sqloutbox argument: lease duration must not be negative"
    else
      let now := options.now.getD clock
      claimQuery t now (now + leaseDuration) options.limit.toNat locked

/-! ### MarkPublished and MarkFailed -/

def requireRows (rows want : ℕ) : Except String Unit :=
  if rows = want then .ok ()
  else .error ("sqloutbox record not found: updated " ++ toString rows ++ " of " ++
    toString want ++ " rows")

/-- The condition of both marks: `where status = claimed and id = … and attempts = …`. -/
def isClaim (id attempts : ℤ) (r : Row) : Bool :=
  decide (r.status = .claimed) && decide (r.id = id) && decide (r.attempts = attempts)

/-- The assignment of `MarkPublished`. -/
def Row.publish (r : Row) : Row := { r with status := .published }

theorem Row.publish_id (r : Row) : r.publish.id = r.id := rfl

/-- One record of `Store.MarkPublished`. -/
def markPublishedRecord (t : Table) (id attempts : ℤ) : Table × Except String Unit :=
  if id ≤ 0 then (t, .error "invalid sqloutbox argument: record id must be positive")
  else if attempts ≤ 0 then
    (t, .error "invalid sqloutbox argument: claim attempt must be positive")
  else
    (t.update (isClaim id attempts) Row.publish Row.publish_id,
      requireRows (t.affected (isClaim id attempts)) 1)

/-- `Store.MarkPublished`: it stops at the first record that fails, and what it has done
by then stays done. -/
def markPublished : Table → List (ℤ × ℤ) → Table × Except String Unit
  | t, [] => (t, .ok ())
  | t, (id, attempts) :: rest =>
    match markPublishedRecord t id attempts with
    | (t', .error e) => (t', .error e)
    | (t', .ok ()) => markPublished t' rest

/-- `Failure`, without the text of the error. -/
structure Failure where
  id : ℤ
  attempt : ℤ
  /-- `RetryAt`; `none` is the zero time. -/
  retryAt : Option ℤ
  maxAttempts : ℤ
  /-- `Now`; `none` is the zero time. -/
  now : Option ℤ
  deriving DecidableEq, Repr

/-- The assignment of `MarkFailed`. -/
def Row.fail (maxAttempts retryAt : ℤ) (r : Row) : Row :=
  { r with
    status := if maxAttempts ≤ r.attempts then .deadLetter else .pending
    availableAt := if maxAttempts ≤ r.attempts then r.availableAt else retryAt }

theorem Row.fail_id (maxAttempts retryAt : ℤ) (r : Row) :
    (r.fail maxAttempts retryAt).id = r.id := rfl

def markFailed (t : Table) (failure : Failure) (clock : ℤ) : Table × Except String Unit :=
  if failure.id ≤ 0 then (t, .error "invalid sqloutbox argument: record id must be positive")
  else if failure.attempt ≤ 0 then
    (t, .error "invalid sqloutbox argument: claim attempt must be positive")
  else if failure.maxAttempts ≤ 0 then
    (t, .error "invalid sqloutbox argument: max attempts must be positive")
  else
    let now := failure.now.getD clock
    let retryAt := failure.retryAt.getD now
    (t.update (isClaim failure.id failure.attempt) (Row.fail failure.maxAttempts retryAt)
      (Row.fail_id failure.maxAttempts retryAt),
      requireRows (t.affected (isClaim failure.id failure.attempt)) 1)

/-! ### Enqueue -/

/-- The row `Store.Enqueue` inserts for an entry. -/
def newRow (id : ℤ) (aggregate : AggregateId) (revision recordedAt : ℤ) : Row where
  id := id
  status := .pending
  aggregate := aggregate
  revision := revision
  attempts := 0
  availableAt := recordedAt

/-! ### Statements of any number of callers -/

/-- A statement that some caller issues, with what the database and the clocks
contribute to it. -/
inductive Statement where
  /-- An insert of `Enqueue`. The sequence behind `id` gives positive keys that are not
  taken, and `Entry.Validate` has refused the revision zero. -/
  | enqueue (id : ℤ) (aggregate : AggregateId) (revision recordedAt : ℤ)
  | claim (options : ClaimOptions) (clock : ℤ) (locked : List ℤ)
  /-- `MarkPublished` of one record. -/
  | markPublished (id attempts : ℤ)
  | markFailed (failure : Failure) (clock : ℤ)
  deriving DecidableEq, Repr

/-- **What a statement does to the table.** -/
def exec (t : Table) : Statement → Option Table
  | .enqueue id aggregate revision recordedAt =>
    if h : t.get (newRow id aggregate revision recordedAt).id = none then
      if 0 < id ∧ 0 < revision then some (t.insert _ h) else none
    else none
  | .claim options clock locked =>
    match claim t options clock locked with
    | .ok (t', _) => some t'
    | .error _ => some t
  | .markPublished id attempts => some (markPublishedRecord t id attempts).1
  | .markFailed failure clock => some (markFailed t failure clock).1

def returned (t : Table) : Statement → List Row
  | .claim options clock locked =>
    match claim t options clock locked with
    | .ok (_, records) => records
    | .error _ => []
  | .enqueue _ _ _ _ | .markPublished _ _ | .markFailed _ _ => []

def reply (t : Table) : Statement → Except String Unit
  | .enqueue _ _ _ _ => .ok ()
  | .claim options clock locked =>
    match claim t options clock locked with
    | .ok _ => .ok ()
    | .error e => .error e
  | .markPublished id attempts => (markPublishedRecord t id attempts).2
  | .markFailed failure clock => (markFailed t failure clock).2

def Statement.mark : Statement → Option (ℤ × ℤ)
  | .enqueue _ _ _ _ | .claim _ _ _ => none
  | .markPublished id attempts => some (id, attempts)
  | .markFailed failure _ => some (failure.id, failure.attempt)

/-! ### What a statement does to a row -/

section RowStep

variable {t t' : Table} {s : Statement} {id : ℤ} {r r' : Row}

/-- **What a statement can do to a row.** -/
inductive RowStep (t : Table) (s : Statement) (r : Row) : Row → Prop
  | same : RowStep t s r r
  /-- Claim it, if it is open and no earlier revision of its aggregate is. -/
  | claim {leaseUntil : ℤ} : r.status.isOpen = true → blocked t.rows r = false →
      r.claim leaseUntil ∈ returned t s → RowStep t s r (r.claim leaseUntil)
  /-- Publish it, if it is claimed with the attempt the statement names. -/
  | publish : r.status = .claimed → s.mark = some (r.id, r.attempts) → RowStep t s r r.publish
  | fail {maxAttempts retryAt : ℤ} : r.status = .claimed → s.mark = some (r.id, r.attempts) →
      RowStep t s r (r.fail maxAttempts retryAt)

section

variable (h : RowStep t s r r')
include h

theorem RowStep.id_eq : r'.id = r.id := by
  cases h <;> rfl

theorem RowStep.aggregate_eq : r'.aggregate = r.aggregate := by
  cases h <;> rfl

theorem RowStep.revision_eq : r'.revision = r.revision := by
  cases h <;> rfl

theorem RowStep.attempts_le : r.attempts ≤ r'.attempts := by
  cases h with
  | same => exact le_refl _
  | claim => exact le_of_lt (Int.lt_succ _)
  | publish | fail => exact le_refl _

/-- **A closed record is not touched.** -/
theorem RowStep.eq_of_closed (hr : r.status.isOpen = false) : r' = r := by
  cases h with
  | same => rfl
  | claim hopen => exact nomatch hopen.symm.trans hr
  | publish hclaimed | fail hclaimed => exact absurd hr (by rw [hclaimed]; decide)

variable {n : ℤ}

/-- A row whose claim has ended has been claimed anew, or is still not claimed. -/
theorem RowStep.lt_or_not_claimed (hr : n < r.attempts ∨ n = r.attempts ∧ r.status ≠ .claimed) :
    n < r'.attempts ∨ n = r'.attempts ∧ r'.status ≠ .claimed := by
  rcases hr with hlt | ⟨rfl, hne⟩
  · exact .inl (hlt.trans_le h.attempts_le)
  · cases h with
    | same => exact .inr ⟨rfl, hne⟩
    | claim => exact .inl (Int.lt_succ _)
    | publish hclaimed | fail hclaimed => exact absurd hclaimed hne

end

/-! #### The claim query -/

variable {locked : List ℤ} {rows : List Row}

theorem mem_candidates {now : ℤ} {limit : ℕ} (h : r ∈ candidates rows now limit locked) :
    r ∈ rows ∧ claimable rows now r = true := by
  have hsorted := mem_of_mem_filter (mem_of_mem_take h)
  exact mem_filter.mp ((mem_insertionSort _).mp hsorted)

theorem claimable_iff {now : ℤ} : claimable rows now r = true ↔
    r.status.isOpen = true ∧ r.availableAt ≤ now ∧ blocked rows r = false := by
  rw [claimable, Bool.and_eq_true, Bool.and_eq_true, decide_eq_true_eq, Bool.not_eq_true',
    and_assoc]

/-- **`blocked`, as a statement.** -/
theorem blocked_eq_false_iff : blocked rows r = false ↔
    ∀ e ∈ rows, e.aggregate = r.aggregate → e.revision < r.revision → e.status.isOpen = false := by
  simp only [blocked, List.any_eq_false, Bool.and_eq_true, decide_eq_true_eq, Bool.not_eq_true,
    not_and, and_imp]

theorem claim_eq_ok {options : ClaimOptions} {clock : ℤ} {records : List Row}
    (h : claim t options clock locked = .ok (t', records)) :
    ∃ now leaseUntil limit, claimQuery t now leaseUntil limit locked = .ok (t', records) := by
  unfold claim at h
  extract_lets leaseDuration now at h
  split_ifs at h
  exact ⟨_, _, _, h⟩

/-- **The claim query, inverted**: the rows chosen are claimable, the query claims
exactly them, and it returns them as they are now. -/
theorem claimQuery_eq_ok {now leaseUntil : ℤ} {limit : ℕ} {records : List Row}
    (h : claimQuery t now leaseUntil limit locked = .ok (t', records)) :
    ∃ chosen : List Row, (∀ r ∈ chosen, r ∈ t.rows ∧ claimable t.rows now r = true) ∧
      (chosen.map Row.id).Nodup ∧ records = chosen.map (Row.claim leaseUntil) ∧
      t' = t.update (fun r => decide (r.id ∈ chosen.map Row.id)) (Row.claim leaseUntil)
        (Row.claim_id leaseUntil) := by
  unfold claimQuery at h
  extract_lets chosen at h
  split_ifs at h
  cases h
  refine ⟨chosen, fun r hr => mem_candidates hr, ?_, rfl, rfl⟩
  have hsub : (chosen.map Row.id).Sublist (((t.rows.filter (claimable t.rows now)).insertionSort
        fun a b => a.before b = true).map Row.id) :=
    ((take_sublist _ _).trans filter_sublist).map _
  refine hsub.nodup ?_
  have hperm := (perm_insertionSort (fun a b : Row => a.before b = true)
    (t.rows.filter (claimable t.rows now))).map Row.id
  rw [hperm.nodup_iff]
  exact (filter_sublist.map _).nodup t.nodup_keys

/-! #### The marks -/

theorem isClaim_iff : isClaim id n r = true ↔ r.status = .claimed ∧ r.id = id ∧ r.attempts = n := by
  rw [isClaim, Bool.and_eq_true, Bool.and_eq_true, decide_eq_true_eq, decide_eq_true_eq,
    decide_eq_true_eq, and_assoc]

/-- **A mark updates the row that is claimed with its attempt, or nothing at all.** -/
theorem update_isClaim (t : Table) (id n : ℤ) (f : Row → Row) (hf : ∀ r, (f r).id = r.id) :
    (t.affected (isClaim id n) = 0 ∧ t.update (isClaim id n) f hf = t ∧
      ∀ r, t.get id = some r → ¬(r.status = .claimed ∧ r.attempts = n)) ∨
    ∃ r, t.get id = some r ∧ r.status = .claimed ∧ r.attempts = n ∧
      t.affected (isClaim id n) = 1 ∧ (t.update (isClaim id n) f hf).get id = some (f r) := by
  by_cases h : ∃ r ∈ t.rows, isClaim id n r = true
  · obtain ⟨r, hr, hclaim⟩ := h
    obtain ⟨hstatus, hid, hattempts⟩ := isClaim_iff.mp hclaim
    have hget : t.get id = some r := Keyed.Table.get_eq_some.mpr ⟨hr, hid⟩
    refine .inr ⟨r, hget, hstatus, hattempts, ?_, ?_⟩
    · exact Keyed.Table.affected_eq_one hr hclaim fun r' hr' => by
        rw [(isClaim_iff.mp hr').2.1, hid]
    · rw [Keyed.Table.get_update, hget, Option.map_some, if_pos hclaim]
  · have hnone : ∀ r ∈ t.rows, isClaim id n r = false := fun r hr => by
      rw [← Bool.not_eq_true]
      exact fun hc => h ⟨r, hr, hc⟩
    refine .inl ⟨Keyed.Table.affected_eq_zero hnone, Keyed.Table.update_of_forall_not hnone, ?_⟩
    rintro r hget ⟨hstatus, hattempts⟩
    obtain ⟨hr, hid⟩ := Keyed.Table.get_eq_some.mp hget
    exact h ⟨r, hr, isClaim_iff.mpr ⟨hstatus, hid, hattempts⟩⟩

/-- **A mark, inverted**: it is refused and changes nothing, or it ends the claim it
names. -/
theorem mark_cases (hm : s.mark = some (id, n)) :
    (exec t s = some t ∧ ∃ e, reply t s = .error e) ∨
    (reply t s = .ok () ∧ ∃ r r' t', t.get id = some r ∧ r.status = .claimed ∧ r.attempts = n ∧
      exec t s = some t' ∧ t'.get id = some r' ∧ r'.attempts = n ∧ r'.status ≠ .claimed) := by
  cases s with
  | enqueue | claim => exact nomatch hm
  | markPublished id' n' =>
    obtain ⟨rfl, rfl⟩ := Prod.mk.inj (Option.some.inj hm)
    simp only [exec, reply, markPublishedRecord]
    split_ifs with hid hn
    · exact .inl ⟨rfl, _, rfl⟩
    · exact .inl ⟨rfl, _, rfl⟩
    · rcases update_isClaim t id' n' Row.publish Row.publish_id with
        ⟨haff, hsame, -⟩ | ⟨r, hget, hclaimed, hattempts, haff, hget'⟩
      · rw [haff, hsame]
        exact .inl ⟨rfl, _, rfl⟩
      · rw [haff]
        exact .inr ⟨rfl, r, _, _, hget, hclaimed, hattempts, rfl, hget', hattempts, by
          simp [Row.publish]⟩
  | markFailed failure clock =>
    cases hm
    simp only [exec, reply, markFailed]
    split_ifs with hid hn hmax
    · exact .inl ⟨rfl, _, rfl⟩
    · exact .inl ⟨rfl, _, rfl⟩
    · exact .inl ⟨rfl, _, rfl⟩
    · rcases update_isClaim t failure.id failure.attempt (Row.fail failure.maxAttempts _)
        (Row.fail_id failure.maxAttempts (failure.retryAt.getD (failure.now.getD clock)))
        with ⟨haff, hsame, -⟩ | ⟨r, hget, hclaimed, hattempts, haff, hget'⟩
      · rw [haff, hsame]
        exact .inl ⟨rfl, _, rfl⟩
      · rw [haff]
        refine .inr ⟨rfl, r, _, _, hget, hclaimed, hattempts, rfl, hget', hattempts, ?_⟩
        simp only [Row.fail]
        split_ifs <;> decide

/-- **A mark whose claim is not the row's current one is refused.** -/
theorem mark_refused (hm : s.mark = some (id, n))
    (h : ∀ r, t.get id = some r → ¬(r.status = .claimed ∧ r.attempts = n)) :
    exec t s = some t ∧ ∃ e, reply t s = .error e := by
  rcases mark_cases hm with hrefused | ⟨-, r, -, -, hget, hclaimed, hattempts, -⟩
  · exact hrefused
  · exact absurd ⟨hclaimed, hattempts⟩ (h r hget)

/-! #### Any statement -/

theorem rowStep_of_isClaim {f : Row → Row} (hm : s.mark = some (id, n))
    (hf : r.status = .claimed → s.mark = some (r.id, r.attempts) → RowStep t s r (f r)) :
    RowStep t s r (if isClaim id n r then f r else r) := by
  split_ifs with hclaim
  · obtain ⟨hstatus, rfl, rfl⟩ := isClaim_iff.mp hclaim
    exact hf hstatus hm
  · exact .same

/-- **A statement, inverted**: it inserts a row, or acts on each row as `RowStep`
says. -/
theorem exec_cases (he : exec t s = some t') :
    (∃ id aggregate revision recordedAt h, s = .enqueue id aggregate revision recordedAt ∧
      0 < revision ∧ t' = t.insert (newRow id aggregate revision recordedAt) h) ∨
    ∃ g : Row → Row, (∀ id, t'.get id = (t.get id).map g) ∧ ∀ r ∈ t.rows, RowStep t s r (g r) := by
  have hsame : ∃ g : Row → Row, (∀ id, t.get id = (t.get id).map g) ∧
      ∀ r ∈ t.rows, RowStep t s r (g r) :=
    ⟨id, fun id => (congrFun Option.map_id _).symm, fun r _ => .same⟩
  cases s with
  | enqueue newId aggregate revision recordedAt =>
    simp only [exec] at he
    split_ifs at he with hnew hpos
    exact .inl ⟨_, _, _, _, hnew, rfl, hpos.2, (Option.some.inj he).symm⟩
  | claim options clock locked =>
    refine .inr ?_
    simp only [exec] at he
    split at he
    next t₁ records hc =>
      cases he
      obtain ⟨now, leaseUntil, limit, hq⟩ := claim_eq_ok hc
      obtain ⟨chosen, hchosen, -, hrecords, rfl⟩ := claimQuery_eq_ok hq
      refine ⟨_, fun id => Keyed.Table.get_update, fun r hr => ?_⟩
      by_cases hmem : r.id ∈ chosen.map Row.id
      · rw [if_pos (decide_eq_true hmem)]
        -- the row chosen under this key is this row
        obtain ⟨c, hc', hcid⟩ := mem_map.mp hmem
        obtain ⟨hcmem, hclaimable⟩ := hchosen c hc'
        obtain rfl := t.eq_of_key_eq hcmem hr hcid
        obtain ⟨hopen, -, hblocked⟩ := claimable_iff.mp hclaimable
        refine .claim hopen hblocked ?_
        simp only [returned, hc, hrecords]
        exact mem_map_of_mem hc'
      · rw [if_neg (fun hc => hmem (of_decide_eq_true hc))]
        exact .same
    next => exact Option.some.inj he ▸ hsame
  | markPublished markId n =>
    refine .inr ?_
    simp only [exec, markPublishedRecord, apply_ite Prod.fst] at he
    split_ifs at he <;> cases he
    · exact hsame
    · exact hsame
    · exact ⟨_, fun id => Keyed.Table.get_update, fun r _ => rowStep_of_isClaim rfl .publish⟩
  | markFailed failure clock =>
    refine .inr ?_
    simp only [exec, markFailed, apply_ite Prod.fst] at he
    split_ifs at he <;> cases he
    · exact hsame
    · exact hsame
    · exact hsame
    · exact ⟨_, fun id => Keyed.Table.get_update, fun r _ => rowStep_of_isClaim rfl .fail⟩

/-- A row survives every statement, changed as `RowStep` says. -/
theorem exec_get (he : exec t s = some t') (hr : t.get id = some r) :
    ∃ r', t'.get id = some r' ∧ RowStep t s r r' := by
  obtain ⟨hmem, hid⟩ := Keyed.Table.get_eq_some.mp hr
  rcases exec_cases he with ⟨_, _, _, _, _, -, -, rfl⟩ | ⟨g, hget, hg⟩
  · exact ⟨r, Keyed.Table.get_eq_some.mpr ⟨Keyed.Table.mem_insert.mpr (.inl hmem), hid⟩, .same⟩
  · exact ⟨g r, by rw [hget, hr, Option.map_some], hg r hmem⟩

theorem exec_get_inv (he : exec t s = some t') (hr' : t'.get id = some r') :
    (∃ r, t.get id = some r ∧ RowStep t s r r') ∨
    t.get id = none ∧ ∃ aggregate revision recordedAt, 0 < revision ∧
      s = .enqueue id aggregate revision recordedAt ∧
      r' = newRow id aggregate revision recordedAt := by
  obtain hnone | ⟨r, hr⟩ := Option.eq_none_or_eq_some (t.get id)
  · refine .inr ⟨hnone, ?_⟩
    rcases exec_cases he with ⟨newId, aggregate, revision, at', h, rfl, hpos, rfl⟩ | ⟨g, hget, -⟩
    · obtain ⟨hmem, hid⟩ := Keyed.Table.get_eq_some.mp hr'
      rcases Keyed.Table.mem_insert.mp hmem with hold | rfl
      · exact absurd hid (Keyed.Table.get_eq_none.mp hnone r' hold)
      · obtain rfl : newId = id := hid
        exact ⟨aggregate, revision, at', hpos, rfl, rfl⟩
    · rw [hget, hnone] at hr'
      cases hr'
  · obtain ⟨r₁, hr₁, hstep⟩ := exec_get he hr
    obtain rfl := mem_unique hr₁ hr'
    exact .inl ⟨r, hr, hstep⟩

/-- **What a claim returns**: rows of the table, with their new attempt. -/
theorem returned_spec (he : exec t s = some t') {rec : Row} (hrec : rec ∈ returned t s) :
    ∃ r leaseUntil, t.get rec.id = some r ∧ rec = r.claim leaseUntil ∧
      blocked t.rows r = false ∧ t'.get rec.id = some rec := by
  cases s with
  | claim options clock locked =>
    simp only [returned] at hrec
    split at hrec
    next t₁ records hc =>
      simp only [exec, hc] at he
      cases he
      obtain ⟨now, leaseUntil, limit, hq⟩ := claim_eq_ok hc
      obtain ⟨chosen, hchosen, -, rfl, rfl⟩ := claimQuery_eq_ok hq
      obtain ⟨r, hr, rfl⟩ := mem_map.mp hrec
      obtain ⟨hmem, hclaimable⟩ := hchosen r hr
      have hget : t.get (r.claim leaseUntil).id = some r := Keyed.Table.get_key hmem
      refine ⟨r, leaseUntil, hget, rfl, (claimable_iff.mp hclaimable).2.2, ?_⟩
      rw [Keyed.Table.get_update, hget, Option.map_some,
        if_pos (decide_eq_true (mem_map_of_mem hr))]
    next => exact nomatch hrec
  | enqueue | markPublished | markFailed => exact nomatch hrec

end RowStep

/-! ### Fenced claims -/

abbrev StoreEvent : Type := Event Table Statement

/-- A claim, with the attempts larger than those of all earlier claims of its
records. -/
def ClaimsLater (older : List StoreEvent) (ev : StoreEvent) : Prop :=
  ∀ rec ∈ returned ev.before ev.label, ∀ e ∈ older, ∀ rec' ∈ returned e.before e.label,
    rec'.id = rec.id → rec'.attempts < rec.attempts

/-- A mark for attempt `n` of a record is **superseded** when the record has been claimed
again since, or a mark for that attempt has been accepted before. -/
def Superseded (older : List StoreEvent) (t : Table) (id n : ℤ) : Prop :=
  (∃ r, t.get id = some r ∧ n < r.attempts) ∨
  ∃ e ∈ older, e.label.mark = some (id, n) ∧ reply e.before e.label = .ok ()

def RefusesSuperseded (older : List StoreEvent) (ev : StoreEvent) : Prop :=
  ∀ id n, ev.label.mark = some (id, n) → Superseded older ev.before id n →
    ev.after = ev.before ∧ ∃ e, reply ev.before ev.label = .error e

def KeepsClosed (ev : StoreEvent) : Prop :=
  ∀ id r, ev.before.get id = some r → r.status.isOpen = false →
    ∃ r', ev.after.get id = some r' ∧ r'.status = r.status

/-- What the table remembers of the past: the attempts it has handed out, and the
claims that have ended. -/
structure Remembers (h : List StoreEvent) (t : Table) : Prop where
  /-- No claim has handed out more attempts than the row counts. -/
  claims : ∀ e ∈ h, ∀ rec ∈ returned e.before e.label,
    ∃ r, t.get rec.id = some r ∧ rec.attempts ≤ r.attempts
  marks : ∀ e ∈ h, ∀ id n, e.label.mark = some (id, n) → reply e.before e.label = .ok () →
    ∃ r, t.get id = some r ∧ (n < r.attempts ∨ n = r.attempts ∧ r.status ≠ .claimed)

theorem remembers_empty : Remembers [] (Keyed.Table.empty Row.id) where
  claims _ he := nomatch he
  marks _ he := nomatch he

variable {s : Statement} {t t' : Table} {h : List StoreEvent}

/-- **Every statement keeps the memory.** -/
theorem remembers_exec (hrem : Remembers h t) (he : exec t s = some t') :
    Remembers (⟨t, s, t'⟩ :: h) t' where
  claims := by
    intro e hmem rec hrec
    rcases mem_cons.mp hmem with rfl | hold
    · obtain ⟨r, leaseUntil, -, -, -, hget'⟩ := returned_spec he hrec
      exact ⟨rec, hget', le_refl _⟩
    · obtain ⟨r, hr, hle⟩ := hrem.claims e hold rec hrec
      obtain ⟨r', hr', hstep⟩ := exec_get he hr
      exact ⟨r', hr', hle.trans hstep.attempts_le⟩
  marks := by
    intro e hmem id n hm hok
    rcases mem_cons.mp hmem with rfl | hold
    · rcases mark_cases hm with ⟨-, e', herr⟩ | ⟨-, r, r', t₁, -, -, -, he₁, hget', hn, hne⟩
      · exact nomatch hok.symm.trans herr
      · obtain rfl := mem_unique he₁ he
        exact ⟨r', hget', .inr ⟨hn.symm, hne⟩⟩
    · obtain ⟨r, hr, hover⟩ := hrem.marks e hold id n hm hok
      obtain ⟨r', hr', hstep⟩ := exec_get he hr
      exact ⟨r', hr', hstep.lt_or_not_claimed hover⟩

/-- A claim's attempt is one more than the row's, so larger than all it handed out. -/
theorem claimsLater_of_remembers (hrem : Remembers h t) (he : exec t s = some t') :
    ClaimsLater h ⟨t, s, t'⟩ := by
  intro rec hrec e hmem rec' hrec' hid
  obtain ⟨r, leaseUntil, hget, rfl, -, -⟩ := returned_spec he hrec
  obtain ⟨r₁, hr₁, hle⟩ := hrem.claims e hmem rec' hrec'
  rw [hid] at hr₁
  obtain rfl := mem_unique hr₁ hget
  exact Int.lt_add_one_of_le hle

theorem refusesSuperseded_of_remembers (hrem : Remembers h t) (he : exec t s = some t') :
    RefusesSuperseded h ⟨t, s, t'⟩ := by
  intro id n hm hsup
  have hnot : ∀ r, t.get id = some r → ¬(r.status = .claimed ∧ r.attempts = n) := by
    rintro r hr ⟨hclaimed, hn⟩
    rcases hsup with ⟨r', hr', hlt⟩ | ⟨e, hmem, hm', hok⟩
    · obtain rfl := mem_unique hr hr'
      exact absurd hn hlt.ne'
    · obtain ⟨r', hr', hlt | ⟨-, hne⟩⟩ := hrem.marks e hmem id n hm' hok
      · obtain rfl := mem_unique hr hr'
        exact absurd hn hlt.ne'
      · obtain rfl := mem_unique hr hr'
        exact hne hclaimed
  obtain ⟨hsame, herr⟩ := mark_refused hm hnot
  exact ⟨mem_unique he hsame, herr⟩

theorem keepsClosed_of_exec (he : exec t s = some t') : KeepsClosed ⟨t, s, t'⟩ := by
  intro id r hr hclosed
  obtain ⟨r', hr', hstep⟩ := exec_get he hr
  exact ⟨r', hr', congrArg Row.status (hstep.eq_of_closed hclosed)⟩

/-- **Claims are fenced.** Whatever statements are issued, in whatever order: every claim
of a record carries a larger attempt than all earlier claims of it; a mark for an attempt
that is older than the row's, or for which a mark has already been accepted, changes
nothing and reports an error; and a record once published or dead-lettered never changes
its status again. -/
theorem claims_are_fenced {h : List StoreEvent} {t : Table}
    (hr : Run exec (Keyed.Table.empty Row.id) h t) :
    Always ClaimsLater h ∧ Always RefusesSuperseded h ∧ ∀ ev ∈ h, KeepsClosed ev := by
  have hstep : ∀ h t s t', Remembers h t → exec t s = some t' → Remembers (⟨t, s, t'⟩ :: h) t' :=
    fun _ _ _ _ hrem he => remembers_exec hrem he
  refine ⟨?_, ?_, ?_⟩
  · exact hr.always remembers_empty hstep fun _ _ _ _ hrem he => claimsLater_of_remembers hrem he
  · exact hr.always remembers_empty hstep fun _ _ _ _ hrem he =>
      refusesSuperseded_of_remembers hrem he
  · exact hr.forall_mem (I := fun _ => True) trivial (fun _ _ _ _ _ => trivial)
      fun _ _ _ _ he => keepsClosed_of_exec he

/-- A record that is claimed twice, the second time because its lease ran out: the mark
of the first claim is refused, the failure of the second dead-letters the record, and a
second mark of it is refused. -/
theorem claims_are_fenced_reclaimed : ∃ h t, Run exec (Keyed.Table.empty Row.id) h t ∧
    (h.map fun ev => (returned ev.before ev.label).map Row.attempts) = [[], [], [], [2], [1], []] ∧
    (t.rows.map Row.status = [.deadLetter]) ∧
    Always ClaimsLater h ∧ Always RefusesSuperseded h ∧ ∀ ev ∈ h, KeepsClosed ev := by
  obtain ⟨h, t, hr, hreturned, hstatus⟩ := exists_run exec (Keyed.Table.empty Row.id)
    [.enqueue 1 ⟨"order", "a"⟩ 1 0, .claim ⟨1, some 0, 10⟩ 0 [], .claim ⟨1, some 10, 10⟩ 0 [],
      .markPublished 1 1, .markFailed ⟨1, 2, none, 2, some 12⟩ 0, .markPublished 1 2]
    (fun h t => (h.map fun ev : StoreEvent =>
        (returned ev.before ev.label).map Row.attempts) = [[], [], [], [2], [1], []] ∧
      t.rows.map Row.status = [.deadLetter]) (by decide +kernel)
  exact ⟨h, t, hr, hreturned, hstatus, claims_are_fenced hr⟩

end Bluetape.Outbox
