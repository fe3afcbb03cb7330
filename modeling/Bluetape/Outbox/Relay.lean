import Bluetape.Outbox.Store

/-!
# Relays over the outbox

Any number of relays work on one outbox table. A pass of a relay, `Relay.RunOnce`,
claims a batch and then, record by record, calls the publisher and marks the record with
the outcome. Every point at which another relay can come in between is a step of its own:

* the **claim** – an atomic statement. Its reply may be lost, or the decoding of the
  returned rows may fail: then the rows are claimed and no relay works on them;
* the **call of `Publish`** for the next record, and separately its **return**. The lease
  may run out in between, and another relay may claim the record;
* the **mark**, `MarkPublished` or `MarkFailed` – an atomic statement, whose reply may be
  lost as well. An error, which is what the store answers to a claim that has been
  superseded, ends the pass;
* the **stop** of a relay at any point: a crash, a cancelled context, the end of the batch.

Records are enqueued by others, at any time. Each step acts on the table through one statement of
the store or not at all (`Move`), so that what `RowStep` says about a row holds here too.

The main result is `published_in_revision_order`.
-/

namespace Bluetape.Outbox

open Go Lts Function Keyed Table

/-! ### Relays -/

/-- `RelayOptions`, without the clock. -/
structure RelayOptions where
  claimLimit : ℤ
  maxAttempts : ℤ
  retryDelay : ℤ
  idleDelay : ℤ
  deriving DecidableEq, Repr

/-- `Relay`: what `NewRelay` accepts. -/
structure Relay where
  claimLimit : ℤ
  maxAttempt : ℤ
  retryDelay : ℤ
  idleDelay : ℤ
  claimLimit_pos : 0 < claimLimit
  maxAttempt_pos : 0 < maxAttempt
  retryDelay_pos : 0 < retryDelay
  idleDelay_pos : 0 < idleDelay

/-- A field of the options, with its default in the place of zero. -/
def orDefault (value default : ℤ) : ℤ := if value = 0 then default else value

theorem orDefault_pos {value default : ℤ} (hdefault : 0 < default)
    (h : ¬orDefault value default < 0) : 0 < orDefault value default := by
  unfold orDefault at h ⊢
  split_ifs at h ⊢ with hzero
  · exact hdefault
  · exact lt_of_le_of_ne (not_lt.mp h) (Ne.symm hzero)

def defaultClaimLimit : ℤ := 10

def defaultMaxAttempts : ℤ := 3

def defaultRetryDelay : ℤ := second

def defaultIdleDelay : ℤ := 100 * millisecond

theorem defaultClaimLimit_pos : 0 < defaultClaimLimit := by decide

theorem defaultMaxAttempts_pos : 0 < defaultMaxAttempts := by decide

theorem defaultRetryDelay_pos : 0 < defaultRetryDelay := by decide

theorem defaultIdleDelay_pos : 0 < defaultIdleDelay := by decide

def newRelay (options : RelayOptions) : Except String Relay :=
  if hclaim : orDefault options.claimLimit defaultClaimLimit < 0 then
    .error "invalid sqloutbox argument: claim limit must be positive"
  else if hmax : orDefault options.maxAttempts defaultMaxAttempts < 0 then
    .error "invalid sqloutbox argument: max attempts must be positive"
  else if hretry : orDefault options.retryDelay defaultRetryDelay < 0 then
    .error "invalid sqloutbox argument: retry delay must not be negative"
  else if hidle : orDefault options.idleDelay defaultIdleDelay < 0 then
    .error "invalid sqloutbox argument: idle delay must not be negative"
  else .ok {
    claimLimit := orDefault options.claimLimit defaultClaimLimit
    maxAttempt := orDefault options.maxAttempts defaultMaxAttempts
    retryDelay := orDefault options.retryDelay defaultRetryDelay
    idleDelay := orDefault options.idleDelay defaultIdleDelay
    claimLimit_pos := orDefault_pos defaultClaimLimit_pos hclaim
    maxAttempt_pos := orDefault_pos defaultMaxAttempts_pos hmax
    retryDelay_pos := orDefault_pos defaultRetryDelay_pos hretry
    idleDelay_pos := orDefault_pos defaultIdleDelay_pos hidle }

def Relay.default : Relay where
  claimLimit := defaultClaimLimit
  maxAttempt := defaultMaxAttempts
  retryDelay := defaultRetryDelay
  idleDelay := defaultIdleDelay
  claimLimit_pos := defaultClaimLimit_pos
  maxAttempt_pos := defaultMaxAttempts_pos
  retryDelay_pos := defaultRetryDelay_pos
  idleDelay_pos := defaultIdleDelay_pos

/-- **The defaults pass the checks**: options left at zero give the default relay. -/
theorem newRelay_zero : newRelay ⟨0, 0, 0, 0⟩ = .ok Relay.default := rfl

/-! ### Passes -/

structure RelayResult where
  claimed : ℕ
  published : ℕ
  failed : ℕ
  deadLettered : ℕ
  deriving DecidableEq, Repr

/-- The local variables of a pass: the time it was started, the records it has not taken
up, and the result so far. -/
structure RunOnce where
  now : ℤ
  rest : List Row
  result : RelayResult
  deriving DecidableEq, Repr

inductive Phase where
  | idle
  | loop (c : RunOnce)
  /-- Inside `Publish` for a record. -/
  | publishing (c : RunOnce) (record : Row)
  /-- About to mark a record, whose publication has failed or succeeded. -/
  | marking (c : RunOnce) (record : Row) (failed : Bool)
  deriving DecidableEq, Repr

/-- How a call of `Publish` returns. -/
inductive Outcome where
  | ok
  | error
  /-- With the error of the caller's context, which has ended: the pass ends and the
  record is not marked. -/
  | cancelled
  deriving DecidableEq, Repr

def Relay.failure (relay : Relay) (now : ℤ) (record : Row) : Failure where
  id := record.id
  attempt := record.attempts
  retryAt := some (now + relay.retryDelay)
  maxAttempts := relay.maxAttempt
  now := some now

/-- The call of the store with which a relay marks a record. -/
def Relay.mark (relay : Relay) (t : Table) (now : ℤ) (record : Row) (failed : Bool) (clock : ℤ) :
    Table × Except String Unit :=
  if failed then markFailed t (relay.failure now record) clock
  else markPublished t [(record.id, record.attempts)]

def Relay.count (relay : Relay) (result : RelayResult) (record : Row) (failed : Bool) :
    RelayResult :=
  if failed then
    if relay.maxAttempt ≤ record.attempts then
      { result with deadLettered := result.deadLettered + 1 }
    else { result with failed := result.failed + 1 }
  else { result with published := result.published + 1 }

def Relay.claimOptions (relay : Relay) (now : ℤ) : ClaimOptions where
  limit := relay.claimLimit
  now := some now
  leaseDuration := 0

/-! ### The system -/

structure Sys where
  table : Table
  relays : ℕ → Phase

def init : Sys where
  table := empty Row.id
  relays _ := .idle

def Sys.setPhase (y : Sys) (i : ℕ) (phase : Phase) : Sys :=
  { y with relays := update y.relays i phase }

theorem Sys.relays_setPhase_self (y : Sys) (i : ℕ) (phase : Phase) :
    (y.setPhase i phase).relays i = phase := update_self ..

theorem Sys.relays_setPhase_of_ne (y : Sys) {i j : ℕ} (hj : j ≠ i) (phase : Phase) :
    (y.setPhase i phase).relays j = y.relays j := update_of_ne hj ..

/-- One step of some relay, or an insert, with what the environment contributes. -/
inductive Label where
  | enqueue (id : ℤ) (aggregate : AggregateId) (revision recordedAt : ℤ)
  /-- A relay starts a pass: it reads the clock and claims. The rows come back in any
  order; `lost` says that they do not reach the relay. -/
  | claim (relay : ℕ) (now : ℤ) (locked : List ℤ) (records : List Row) (lost : Bool)
  /-- `Publish` is called for the next record. -/
  | publish (relay : ℕ)
  /-- `Publish` returns. -/
  | published (relay : ℕ) (outcome : Outcome)
  /-- The record is marked; `lost` says that the reply does not reach the relay. -/
  | mark (relay : ℕ) (clock : ℤ) (lost : Bool)
  | stop (relay : ℕ)
  deriving DecidableEq, Repr

/-- **One step of the system**, for relays with given parameters. -/
def step (relay : ℕ → Relay) (y : Sys) : Label → Option Sys
  | .enqueue id aggregate revision recordedAt =>
    match exec y.table (.enqueue id aggregate revision recordedAt) with
    | none => none
    | some t => some { y with table := t }
  | .claim i now locked records lost =>
    match y.relays i with
    | .idle =>
      match claim y.table ((relay i).claimOptions now) now locked with
      | .error _ => some y
      | .ok (t, rows) =>
        if records.Perm rows then
          some ({ y with table := t }.setPhase i
            (if lost then .idle else .loop ⟨now, records, ⟨records.length, 0, 0, 0⟩⟩))
        else none
    | _ => none
  | .publish i =>
    match y.relays i with
    | .loop ⟨now, record :: rest, result⟩ =>
      some (y.setPhase i (.publishing ⟨now, rest, result⟩ record))
    | _ => none
  | .published i outcome =>
    match y.relays i with
    | .publishing c record =>
      match outcome with
      | .ok => some (y.setPhase i (.marking c record false))
      | .error => some (y.setPhase i (.marking c record true))
      | .cancelled => some (y.setPhase i .idle)
    | _ => none
  | .mark i clock lost =>
    match y.relays i with
    | .marking c record failed =>
      match (relay i).mark y.table c.now record failed clock with
      | (t, .ok ()) =>
        some ({ y with table := t }.setPhase i (if lost then .idle else
          .loop { c with result := (relay i).count c.result record failed }))
      | (t, .error _) => some ({ y with table := t }.setPhase i .idle)
    | _ => none
  | .stop i => some (y.setPhase i .idle)

abbrev Ev : Type := Event Sys Label

/-! ### What a step can do -/

/-- `MarkPublished` of a single record. -/
theorem markPublished_singleton (t : Table) (id attempts : ℤ) :
    markPublished t [(id, attempts)] = markPublishedRecord t id attempts := by
  rw [markPublished]
  rcases markPublishedRecord t id attempts with ⟨t', _ | _⟩ <;> rfl

def Relay.markStatement (relay : Relay) (now : ℤ) (record : Row) (failed : Bool) (clock : ℤ) :
    Statement :=
  if failed then .markFailed (relay.failure now record) clock
  else .markPublished record.id record.attempts

theorem Relay.mark_markStatement (relay : Relay) (now : ℤ) (record : Row) (failed : Bool)
    (clock : ℤ) :
    (relay.markStatement now record failed clock).mark = some (record.id, record.attempts) := by
  cases failed <;> rfl

theorem Relay.exec_markStatement (relay : Relay) (t : Table) (now : ℤ) (record : Row)
    (failed : Bool) (clock : ℤ) :
    exec t (relay.markStatement now record failed clock) =
      some (relay.mark t now record failed clock).1 := by
  cases failed with
  | true => rfl
  | false =>
    change some (markPublishedRecord t record.id record.attempts).1 =
      some (markPublished t [(record.id, record.attempts)]).1
    rw [markPublished_singleton]

section Moves

variable {relay : ℕ → Relay} {y y' : Sys} {l : Label}

/-- **What a step can do**, with the statement that it issues. -/
inductive Move (relay : ℕ → Relay) (y : Sys) : Label → Sys → Prop
  | enqueue {id : ℤ} {aggregate : AggregateId} {revision recordedAt : ℤ} {t : Table} :
      exec y.table (.enqueue id aggregate revision recordedAt) = some t →
      Move relay y (.enqueue id aggregate revision recordedAt) { y with table := t }
  | refused {i : ℕ} {now : ℤ} {locked : List ℤ} {records : List Row} {lost : Bool} :
      returned y.table (.claim ((relay i).claimOptions now) now locked) = [] →
      Move relay y (.claim i now locked records lost) y
  | claim {i : ℕ} {now : ℤ} {locked : List ℤ} {records : List Row} {lost : Bool} {t : Table}
      {phase : Phase} : y.relays i = .idle →
      exec y.table (.claim ((relay i).claimOptions now) now locked) = some t →
      records.Perm (returned y.table (.claim ((relay i).claimOptions now) now locked)) →
      (phase = .idle ∨ ∃ result, phase = .loop ⟨now, records, result⟩) →
      Move relay y (.claim i now locked records lost) ({ y with table := t }.setPhase i phase)
  | publish {i : ℕ} {now : ℤ} {record : Row} {rest : List Row} {result : RelayResult} :
      y.relays i = .loop ⟨now, record :: rest, result⟩ →
      Move relay y (.publish i) (y.setPhase i (.publishing ⟨now, rest, result⟩ record))
  | published {i : ℕ} {outcome : Outcome} {c : RunOnce} {record : Row} {phase : Phase} :
      y.relays i = .publishing c record →
      (phase = .idle ∨ phase = .marking c record (decide (outcome ≠ .ok))) →
      Move relay y (.published i outcome) (y.setPhase i phase)
  | mark {i : ℕ} {clock : ℤ} {lost : Bool} {c : RunOnce} {record : Row} {failed : Bool}
      {t : Table} {phase : Phase} : y.relays i = .marking c record failed →
      exec y.table ((relay i).markStatement c.now record failed clock) = some t →
      (phase = .idle ∨ ∃ result, phase = .loop { c with result := result }) →
      Move relay y (.mark i clock lost) ({ y with table := t }.setPhase i phase)
  | stop {i : ℕ} : Move relay y (.stop i) (y.setPhase i .idle)

theorem move_of_step (hs : step relay y l = some y') : Move relay y l y' := by
  cases l with
  | enqueue id aggregate revision recordedAt =>
    simp only [step] at hs
    split at hs <;> cases hs
    next he => exact .enqueue he
  | claim i now locked records lost =>
    simp only [step] at hs
    split at hs <;> try cases hs
    next hidle =>
      split at hs
      next hc =>
        cases hs
        exact .refused (by simp only [returned, hc])
      next t rows hc =>
        obtain ⟨hperm, ⟨⟩⟩ := Option.ite_none_right_eq_some.mp hs
        have he : exec y.table (.claim ((relay i).claimOptions now) now locked) = some t := by
          simp only [exec, hc]
        have hrows : returned y.table (.claim ((relay i).claimOptions now) now locked) = rows := by
          simp only [returned, hc]
        split_ifs
        · exact .claim hidle he (hrows ▸ hperm) (.inl rfl)
        · exact .claim hidle he (hrows ▸ hperm) (.inr ⟨_, rfl⟩)
  | publish i =>
    simp only [step] at hs
    split at hs <;> cases hs
    next hphase => exact .publish hphase
  | published i outcome =>
    simp only [step] at hs
    split at hs <;> try cases hs
    next hphase =>
      cases outcome with
      | ok | error =>
        cases hs
        exact .published hphase (.inr rfl)
      | cancelled =>
        cases hs
        exact .published hphase (.inl rfl)
  | mark i clock lost =>
    simp only [step] at hs
    split at hs <;> try cases hs
    next c record failed hphase =>
      have he := (relay i).exec_markStatement y.table c.now record failed clock
      split at hs <;> cases hs
      next hm =>
        rw [hm] at he
        refine .mark hphase he ?_
        cases lost with
        | true => exact .inl rfl
        | false => exact .inr ⟨_, rfl⟩
      next hm =>
        rw [hm] at he
        exact .mark hphase he (.inl rfl)
  | stop i =>
    cases hs
    exact .stop

/-- **A step acts on the table through one statement, or not at all.** -/
theorem Move.table (hm : Move relay y l y') :
    y'.table = y.table ∨ ∃ s, exec y.table s = some y'.table ∧
      ∀ id a v at', s = .enqueue id a v at' → l = .enqueue id a v at' := by
  cases hm with
  | enqueue he =>
    refine .inr ⟨_, he, fun id a v at' hs => ?_⟩
    cases hs
    rfl
  | refused => exact .inl rfl
  | claim _ he => exact .inr ⟨_, he, nofun⟩
  | publish | published => exact .inl rfl
  | mark _ he =>
    refine .inr ⟨_, he, fun id a v at' hs => ?_⟩
    have hmark := Relay.mark_markStatement (relay _) _ _ _ _ |>.symm.trans (congrArg _ hs)
    exact nomatch hmark
  | stop => exact .inl rfl

end Moves

/-! ### The order of publication -/

/-- The records a pass has in hand: those for which it may still call `Publish`, or is
calling it. -/
def Phase.held : Phase → List Row
  | .idle => []
  | .loop c => c.rest
  | .publishing c record => record :: c.rest
  | .marking c _ _ => c.rest

/-- The record for which an event calls `Publish`. -/
def publishes (ev : Ev) : Option Row :=
  match ev.label with
  | .publish i =>
    match ev.before.relays i with
    | .loop c => c.rest.head?
    | _ => none
  | _ => none

/-- The aggregate and the revision of the record that a step enqueues. -/
def Label.enqueued : Label → Option (AggregateId × ℤ)
  | .enqueue _ aggregate revision _ => some (aggregate, revision)
  | _ => none

/-- A record is enqueued **in revision order**: all records of its aggregate that are
there have smaller revisions. -/
def InRevisionOrder (ev : Ev) : Prop :=
  ∀ new ∈ ev.label.enqueued, ∀ r ∈ ev.before.table.rows, r.aggregate = new.1 → r.revision < new.2
  deriving Decidable

/-- All records of an aggregate with smaller revisions are published or
dead-lettered. -/
def EarlierClosed (t : Table) (a : AggregateId) (v : ℤ) : Prop :=
  ∀ e ∈ t.rows, e.aggregate = a → e.revision < v → e.status.isOpen = false

/-- The record, as it is in the table now, and whatever its state is. -/
def Present (t : Table) (rec : Row) : Prop :=
  ∃ r, t.get rec.id = some r ∧ r.aggregate = rec.aggregate ∧ r.revision = rec.revision

section Order

variable {t t' : Table} {s : Statement} {rec : Row}

theorem present_of_mem (h : rec ∈ t.rows) : Present t rec :=
  ⟨rec, get_key h, rfl, rfl⟩

section

variable (he : exec t s = some t')
include he

theorem present_exec (h : Present t rec) : Present t' rec := by
  obtain ⟨r, hr, ha, hv⟩ := h
  obtain ⟨r', hr', hstep⟩ := exec_get he hr
  exact ⟨r', hr', hstep.aggregate_eq.trans ha, hstep.revision_eq.trans hv⟩

def OrderedInsert (t : Table) (s : Statement) : Prop :=
  ∀ id a v at', s = .enqueue id a v at' → ∀ r ∈ t.rows, r.aggregate = a → r.revision < v

/-- **A row below a record that is present was there before the statement.** -/
theorem earlier_row (hord : OrderedInsert t s) (h : Present t rec)
    {e' : Row} (he' : e' ∈ t'.rows) (ha : e'.aggregate = rec.aggregate)
    (hv : e'.revision < rec.revision) : ∃ e, t.get e'.id = some e ∧ RowStep t s e e' := by
  rcases exec_get_inv he (get_key he') with hold | ⟨-, a, v, at', -, rfl, hnew⟩
  · exact hold
  · obtain ⟨r, hr, hra, hrv⟩ := h
    rw [hnew] at ha hv
    have hlt := hord _ _ _ _ rfl r (get_eq_some.mp hr).1 (hra.trans ha.symm)
    rw [hrv] at hlt
    exact absurd hlt (not_lt.mpr (le_of_lt hv))

theorem earlierClosed_exec (hord : OrderedInsert t s)
    (h : Present t rec) (hclosed : EarlierClosed t rec.aggregate rec.revision) :
    EarlierClosed t' rec.aggregate rec.revision := by
  intro e' he' ha hv
  obtain ⟨e, hget, hstep⟩ := earlier_row he hord h he' ha hv
  have hec := hclosed e (get_eq_some.mp hget).1 (hstep.aggregate_eq ▸ ha) (hstep.revision_eq ▸ hv)
  rw [hstep.eq_of_closed hec]
  exact hec

/-- **What a claim returns has nothing open below it.** -/
theorem earlierClosed_of_returned (hret : rec ∈ returned t s) :
    Present t' rec ∧ EarlierClosed t' rec.aggregate rec.revision := by
  obtain ⟨r, leaseUntil, hget, rfl, hblocked, -⟩ := returned_spec he hret
  have hord : OrderedInsert t s := by
    rintro id a v at' rfl
    exact nomatch hret
  have hpres : Present t (r.claim leaseUntil) := ⟨r, hget, rfl, rfl⟩
  exact ⟨present_exec he hpres, earlierClosed_exec he hord hpres (blocked_eq_false_iff.mp hblocked)⟩

/-- **The order of a table**: what is claimed has nothing open below it, and a revision
occurs once. -/
structure TableOrdered (t : Table) : Prop where
  claimed : ∀ r ∈ t.rows, r.status = .claimed → EarlierClosed t r.aggregate r.revision
  distinct : ∀ r ∈ t.rows, ∀ r' ∈ t.rows, r.aggregate = r'.aggregate →
    r.revision = r'.revision → r = r'

omit he in
theorem tableOrdered_empty : TableOrdered (empty Row.id) where
  claimed _ h := nomatch h
  distinct _ h := nomatch h

/-- **Every statement keeps the order.** -/
theorem tableOrdered_exec (hord : OrderedInsert t s) (h : TableOrdered t) : TableOrdered t' where
  claimed := by
    intro r' hr' hclaimed
    rcases exec_get_inv he (get_key hr') with ⟨r, hr, hstep⟩ | ⟨-, a, v, at', -, -, hn⟩
    · obtain ⟨hmem, -⟩ := get_eq_some.mp hr
      rw [hstep.aggregate_eq, hstep.revision_eq]
      refine earlierClosed_exec he hord (present_of_mem hmem) ?_
      cases hstep with
      | same => exact h.claimed _ hmem hclaimed
      | claim _ hblocked => exact blocked_eq_false_iff.mp hblocked
      | publish hclaimed₀ | fail hclaimed₀ => exact h.claimed r hmem hclaimed₀
    · rw [hn] at hclaimed
      exact nomatch hclaimed
  distinct := by
    -- two rows of one revision are one row already, or one of them is new
    have hnew : ∀ r ∈ t'.rows, ∀ r' ∈ t'.rows, r.aggregate = r'.aggregate →
        r.revision = r'.revision → t.get r'.id = none → r.id = r'.id := by
      intro r hr r' hr' ha hv hnone
      rcases exec_get_inv he (get_key hr') with ⟨_, hsome, -⟩ | ⟨-, a, v, at', -, hs, hn⟩
      · rw [hnone] at hsome
        cases hsome
      · rcases exec_get_inv he (get_key hr) with ⟨r₀, hr₀, hstep⟩ | ⟨-, a₁, v₁, at₁, -, hs₁, -⟩
        · have hlt := hord _ _ _ _ hs r₀ (get_eq_some.mp hr₀).1
            (by rw [← hstep.aggregate_eq, ha, hn]; rfl)
          rw [← hstep.revision_eq, hv, hn] at hlt
          exact absurd hlt (lt_irrefl v)
        · rw [hs] at hs₁
          exact (Statement.enqueue.inj hs₁).1.symm
    intro r hr r' hr' ha hv
    obtain hnone | ⟨r₁, hr₁⟩ := Option.eq_none_or_eq_some (t.get r'.id)
    · exact t'.eq_of_key_eq hr hr' (hnew r hr r' hr' ha hv hnone)
    obtain hnone | ⟨r₀, hr₀⟩ := Option.eq_none_or_eq_some (t.get r.id)
    · exact t'.eq_of_key_eq hr hr' (hnew r' hr' r hr ha.symm hv.symm hnone).symm
    obtain ⟨r₀', hr₀', hstep₀⟩ := exec_get he hr₀
    obtain ⟨r₁', hr₁', hstep₁⟩ := exec_get he hr₁
    obtain rfl := Option.mem_unique hr₀' (get_key hr)
    obtain rfl := Option.mem_unique hr₁' (get_key hr')
    have heq := h.distinct r₀ (get_eq_some.mp hr₀).1 r₁
      (get_eq_some.mp hr₁).1 (by rw [← hstep₀.aggregate_eq, ha, hstep₁.aggregate_eq])
      (by rw [← hstep₀.revision_eq, hv, hstep₁.revision_eq])
    refine t'.eq_of_key_eq hr hr' ?_
    rw [hstep₀.id_eq, hstep₁.id_eq, heq]

end

theorem TableOrdered.claimed_unique (h : TableOrdered t) {r r' : Row} (hr : r ∈ t.rows)
    (hr' : r' ∈ t.rows) (hc : r.status = .claimed) (hc' : r'.status = .claimed)
    (ha : r.aggregate = r'.aggregate) : r = r' := by
  rcases lt_trichotomy r.revision r'.revision with hlt | heq | hgt
  · have hclosed := h.claimed r' hr' hc' r hr ha hlt
    rw [hc] at hclosed
    exact nomatch hclosed
  · exact h.distinct r hr r' hr' ha heq
  · have hclosed := h.claimed r hr hc r' hr' ha.symm hgt
    rw [hc'] at hclosed
    exact nomatch hclosed

end Order

section Moves

variable {relay : ℕ → Relay} {y y' : Sys} {l : Label}

theorem Sys.held_setPhase {i j : ℕ} {phase : Phase} {rec : Row}
    (h : rec ∈ ((y.setPhase i phase).relays j).held) :
    (j = i ∧ rec ∈ phase.held) ∨ rec ∈ (y.relays j).held := by
  by_cases hj : j = i
  · subst hj
    rw [Sys.relays_setPhase_self] at h
    exact .inl ⟨rfl, h⟩
  · rw [Sys.relays_setPhase_of_ne y hj] at h
    exact .inr h

theorem Sys.sublist_setPhase {i : ℕ} {phase : Phase}
    (hsub : phase.held.Sublist (y.relays i).held) (j : ℕ) :
    ((y.setPhase i phase).relays j).held.Sublist (y.relays j).held := by
  by_cases hj : j = i
  · subst hj
    rw [Sys.relays_setPhase_self]
    exact hsub
  · rw [Sys.relays_setPhase_of_ne y hj]

/-- **A record gets into the hands of a relay by a claim.** -/
theorem Move.held (hm : Move relay y l y') {j : ℕ} {rec : Row} (h : rec ∈ (y'.relays j).held) :
    rec ∈ (y.relays j).held ∨
      ∃ s, exec y.table s = some y'.table ∧ rec ∈ returned y.table s := by
  cases hm with
  | enqueue | refused => exact .inl h
  | claim _ he hperm hphase =>
    rcases Sys.held_setPhase h with ⟨rfl, hnew⟩ | hold
    · rcases hphase with rfl | ⟨result, rfl⟩
      · exact nomatch hnew
      · exact .inr ⟨_, he, hperm.subset hnew⟩
    · exact .inl hold
  | publish hphase =>
    refine .inl ((Sys.sublist_setPhase ?_ j).subset h)
    rw [hphase]
    exact .refl _
  | published hphase hnext =>
    refine .inl ((Sys.sublist_setPhase ?_ j).subset h)
    rw [hphase]
    rcases hnext with rfl | rfl
    · exact List.nil_sublist _
    · exact List.sublist_cons_self _ _
  | mark hphase _ hnext =>
    refine .inl ((Sys.sublist_setPhase ?_ j).subset h)
    rw [hphase]
    rcases hnext with rfl | ⟨result, rfl⟩
    · exact List.nil_sublist _
    · exact .refl _
  | stop =>
    refine .inl ((Sys.sublist_setPhase ?_ j).subset h)
    exact List.nil_sublist _

end Moves

/-- **The order of a run**: the table is in order, every record in a relay's hands has
nothing open below it, and so has had every record that `Publish` was called for. -/
structure InOrder (h : List Ev) (y : Sys) : Prop where
  table : TableOrdered y.table
  held : ∀ i, ∀ rec ∈ (y.relays i).held,
    Present y.table rec ∧ EarlierClosed y.table rec.aggregate rec.revision
  calls : ∀ ev ∈ h, ∀ rec, publishes ev = some rec → Present y.table rec ∧
    ∀ e ∈ y.table.rows, e.aggregate = rec.aggregate → e.revision < rec.revision →
      ∃ e', ev.before.table.get e.id = some e' ∧ e'.status.isOpen = false

theorem inOrder_init : InOrder [] init where
  table := tableOrdered_empty
  held _ _ h := nomatch h
  calls _ h := nomatch h

section Runs

variable {relay : ℕ → Relay} {h : List Ev} {y y' : Sys} {l : Label}

/-- The record `Publish` is called for is in the relay's hands. -/
theorem publishes_held {ev : Ev} {rec : Row} (hp : publishes ev = some rec) :
    ∃ i, rec ∈ (ev.before.relays i).held := by
  unfold publishes at hp
  split at hp
  next i _ =>
    split at hp
    next c hphase =>
      refine ⟨i, ?_⟩
      rw [hphase]
      exact List.mem_of_head? hp
    next => cases hp
  next => cases hp

/-- The call that is being made is in order, seen from the state before the step. -/
theorem InOrder.cons (hI : InOrder h y) : InOrder (⟨y, l, y'⟩ :: h) y where
  table := hI.table
  held := hI.held
  calls := by
    refine List.forall_mem_cons.mpr ⟨fun rec hp => ?_, hI.calls⟩
    obtain ⟨i, hheld⟩ := publishes_held hp
    obtain ⟨hpres, hclosed⟩ := hI.held i rec hheld
    exact ⟨hpres, fun e he ha hv => ⟨e, get_key he, hclosed e he ha hv⟩⟩

/-- **Every step keeps the order**, if records are enqueued in revision order. -/
theorem inOrder_step (hI : InOrder h y) (hs : step relay y l = some y')
    (hord : InRevisionOrder ⟨y, l, y'⟩) : InOrder (⟨y, l, y'⟩ :: h) y' := by
  have hm := move_of_step hs
  have hcalls := (hI.cons : InOrder (⟨y, l, y'⟩ :: h) y).calls
  rcases hm.table with hsame | ⟨s, he, hs'⟩
  · refine ⟨hsame ▸ hI.table, fun i rec hrec => ?_, hsame ▸ hcalls⟩
    rcases hm.held hrec with hold | ⟨s, he, hret⟩
    · exact hsame ▸ hI.held i rec hold
    · exact earlierClosed_of_returned he hret
  · have hins : OrderedInsert y.table s := fun id a v at' hsv =>
      hord (a, v) (congrArg Label.enqueued (hs' id a v at' hsv))
    refine ⟨tableOrdered_exec he hins hI.table, fun i rec hrec => ?_, fun ev hev rec hp => ?_⟩
    · rcases hm.held hrec with hold | ⟨s₁, he₁, hret⟩
      · obtain ⟨hpres, hclosed⟩ := hI.held i rec hold
        exact ⟨present_exec he hpres, earlierClosed_exec he hins hpres hclosed⟩
      · exact earlierClosed_of_returned he₁ hret
    · obtain ⟨hpres, hall⟩ := hcalls ev hev rec hp
      refine ⟨present_exec he hpres, fun e' he' ha hv => ?_⟩
      obtain ⟨e, hget, hstep⟩ := earlier_row he hins hpres he' ha hv
      obtain ⟨hmem, hid⟩ := get_eq_some.mp hget
      rw [← hid]
      exact hall e hmem (hstep.aggregate_eq ▸ ha) (hstep.revision_eq ▸ hv)

/-- **Records of an aggregate are published in revision order.** Any number of relays
claim, publish and mark in any interleaving, with leases that run out, relays that stop
and replies that are lost; the records of each aggregate are enqueued in revision order.
Then at every call of `Publish` for a record, each record of its aggregate with a smaller
revision that ever gets into the table is already there and is published or
dead-lettered; and at no time are two records of one aggregate claimed. -/
theorem published_in_revision_order (hr : Run (step relay) init h y)
    (hord : ∀ ev ∈ h, InRevisionOrder ev) :
    (∀ ev ∈ h, ∀ rec, publishes ev = some rec →
      ∀ e ∈ y.table.rows, e.aggregate = rec.aggregate → e.revision < rec.revision →
        ∃ e', ev.before.table.get e.id = some e' ∧
          (e'.status = .published ∨ e'.status = .deadLetter)) ∧
    (∀ r ∈ y.table.rows, ∀ r' ∈ y.table.rows, r.aggregate = r'.aggregate →
      r.status = .claimed → r'.status = .claimed → r = r') := by
  have hI : InOrder h y := hr.invariant_of (C := fun _ ev => InRevisionOrder ev)
    (always_iff_forall_mem.mpr hord) inOrder_init
    fun _ _ _ _ hI hs hc => inOrder_step hI hs hc
  refine ⟨fun ev hev rec hp e he ha hv => ?_, fun r hr r' hr' ha hc hc' => ?_⟩
  · obtain ⟨e', hget, hclosed⟩ := (hI.calls ev hev rec hp).2 e he ha hv
    refine ⟨e', hget, ?_⟩
    cases hstatus : e'.status with
    | pending | claimed => exact absurd hclosed (by rw [hstatus]; decide)
    | published => exact .inl rfl
    | deadLetter => exact .inr rfl
  · exact hI.table.claimed_unique hr hr' hc hc' ha

/-- Two relays and two revisions of one aggregate: while the first relay is publishing
revision 1 its lease runs out, the second relay claims and publishes it, and only then is
revision 2 claimed and published. -/
theorem published_in_revision_order_two : ∃ relay h y,
    Run (step relay) init h y ∧ (∀ ev ∈ h, InRevisionOrder ev) ∧
    (h.filterMap publishes).map Row.revision = [2, 1, 1] ∧
    (∀ ev ∈ h, ∀ rec, publishes ev = some rec →
      ∀ e ∈ y.table.rows, e.aggregate = rec.aggregate → e.revision < rec.revision →
        ∃ e', ev.before.table.get e.id = some e' ∧
          (e'.status = .published ∨ e'.status = .deadLetter)) ∧
    (∀ r ∈ y.table.rows, ∀ r' ∈ y.table.rows, r.aggregate = r'.aggregate →
      r.status = .claimed → r'.status = .claimed → r = r') := by
  obtain ⟨h, y, hr, hord, hcalls⟩ := exists_run (step fun _ => Relay.default) init
    [.enqueue 1 ⟨"order", "a"⟩ 1 0, .enqueue 2 ⟨"order", "a"⟩ 2 0,
      .claim 0 0 [] [⟨1, .claimed, ⟨"order", "a"⟩, 1, 1, 30 * second⟩] false, .publish 0,
      .claim 1 (30 * second) [] [⟨1, .claimed, ⟨"order", "a"⟩, 1, 2, 60 * second⟩] false,
      .publish 1, .published 1 .ok, .mark 1 0 false, .published 0 .ok, .mark 0 0 false,
      .claim 0 (31 * second) [] [⟨2, .claimed, ⟨"order", "a"⟩, 2, 1, 61 * second⟩] false,
      .publish 0]
    (fun h _ => (∀ ev ∈ h, InRevisionOrder ev) ∧
      (h.filterMap publishes).map Row.revision = [2, 1, 1]) (by decide +kernel)
  exact ⟨_, h, y, hr, hord, hcalls, published_in_revision_order hr hord⟩

end Runs

end Bluetape.Outbox
