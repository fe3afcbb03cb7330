import Bluetape.Go
import Bluetape.Leader.Lifecycle

/-!
# The PostgreSQL elector

Any number of electors, with distinct tokens, on one row of the lease table. The row has
an owner and a time `lease_until`, and all four statements compare that time with the
database's own clock: an elector acquires the row when it is free, has run out, or is
already its own; it renews only what has not run out; it deletes only what is its own.
`clock_timestamp()` advances within a statement, so a statement that both tests and sets
the lease has two readings of the clock.

Two levels have to fit together. On the database's side, whatever lease an elector was granted last
is the row, or has run out (`LeasesSafe`): so a grant at time `t` leaves no other elector with a
lease beyond `t`. On the elector's side, `resigning` counts the resigns under way and keeps
`cleanup` up for all of them, so no campaign begins while a resign is under way.

That is not enough: a `DELETE` whose context has ended may be executed later. The caller is told to
retry the `Resign`, the retry takes `cleanup` down, and the late `DELETE` removes the lease of the
next campaign (`late_delete_removes_lease`). As long as no campaign begins while a `DELETE` of its
elector is on its way, a delete always finds a lease of a campaign that started before its resign.
All this is `leader_election_safe`.

Times are in microseconds, the resolution of a timestamp. The row carries a note of the
campaign that acquired it, and the state a note of the last lease granted to each
elector; no statement reads them.
-/

namespace Bluetape.Leader.Sql

open Go Lts Function Option Elector

/-! ### The lease table -/

variable {ι : Type}

/-- The row of `bluetape_leader_leases` for the key. -/
structure Row (ι : Type) where
  /-- `owner_token`. -/
  owner : ι
  leaseUntil : ℤ
  campaign : ℕ
  deriving DecidableEq, Repr

/-- The database: the row, its clock, and a note of the leases. -/
structure Db (ι : Type) where
  row : Option (Row ι)
  clock : ℤ
  /-- The end of the lease last granted to an elector and not deleted. -/
  leases : ι → Option ℤ

/-- `durationMicros`: whole microseconds, rounded up. -/
def durationMicros (duration : ℤ) : ℤ :=
  if duration ≤ 0 then 0
  else if duration % microsecond = 0 then duration / microsecond
  else duration / microsecond + 1

section Statements

variable [DecidableEq ι] (db : Db ι) (i : ι)

/-- The `where` of `acquireQuery` on a row that is there: its lease has run out, or it is
the elector's own. -/
def acquirable (now : ℤ) (row : Row ι) : Bool :=
  decide (row.leaseUntil ≤ now) || decide (row.owner = i)

/-- `acquireQuery`, and whether it returns a row. It tests the lease at `test` and sets the
new one at `set`. -/
def acquireQuery (lease : ℤ) (campaign : ℕ) (test set : ℤ) : Bool × Db ι :=
  if db.row.all (acquirable i test) then
    (true, {
      row := some ⟨i, set + durationMicros lease, campaign⟩
      clock := set
      leases := update db.leases i (some (set + durationMicros lease)) })
  else (false, { db with clock := set })

/-- The `where` of `renewQuery`. -/
def renewable (now : ℤ) (row : Row ι) : Bool :=
  decide (row.owner = i) && decide (now < row.leaseUntil)

/-- `renewQuery`, and whether it returns a row. -/
def renewQuery (lease test set : ℤ) : Bool × Db ι :=
  match db.row with
  | some row =>
    if renewable i test row then
      (true, {
        row := some { row with leaseUntil := set + durationMicros lease }
        clock := set
        leases := update db.leases i (some (set + durationMicros lease)) })
    else (false, { db with clock := set })
  | none => (false, { db with clock := set })

/-- `deleteQuery`. -/
def deleteQuery : Db ι :=
  if db.row.any fun row => decide (row.owner = i) then
    { db with row := none, leases := update db.leases i none }
  else db

/-- `lookupQuery`: whether the active owner is the elector. -/
def lookupQuery (now : ℤ) : Bool :=
  db.row.any fun row => decide (row.owner = i) && decide (now < row.leaseUntil)

end Statements

/-! ### Electors on one row -/

/-- A statement that is on its way though its call has returned. Those of a `Resign` are kept
with its elector. -/
inductive Statement (ι : Type) where
  | acquire (i : ι) (campaign : ℕ)
  | renew (i : ι)
  deriving DecidableEq, Repr

/-- The elector that has sent it. -/
def Statement.sender : Statement ι → ι
  | .acquire i _ | .renew i => i

/-- **Electors with their database.** -/
structure Sys (ι : Type) where
  electors : ι → Elector
  db : Db ι
  late : List (Statement ι)

/-- New electors and no row. -/
def init : Sys ι where
  electors _ := .new
  db := ⟨none, 0, fun _ => none⟩
  late := []

/-- A step: of an elector alone, a statement with its result, the late execution of a statement,
or the passing of time. -/
inductive Label (ι : Type) where
  | act (i : ι) (a : Action)
  /-- A campaign acquires. `internalTimeout` says whose context is over, if the result does
  not arrive. -/
  | acquire (i : ι) (n : ℕ) (test set : ℤ) (fault : Fault) (internalTimeout : Bool)
  | lookup (i : ι) (n : ℕ) (now : ℤ) (failed : Bool)
  | renew (i : ι) (w : ℕ) (test set : ℤ) (fault : Fault)
  | delete (i : ι) (m : ℕ) (fault : Fault)
  | lateStatement (j : ℕ) (test set : ℤ)
  | lateDelete (i : ι) (j : ℕ)
  | tick (now : ℤ)
  deriving DecidableEq, Repr

/-- The result of `tryAcquire`, as `acquireAttempt` takes it. -/
def acquireReply (acquired : Bool) (internalTimeout : Bool) : Fault → AcquireReply
  | .none => if acquired then .granted else .denied
  | .lost | .dropped | .late => .failed internalTimeout

/-- The result of `renew`. -/
def renewReply (renewed : Bool) : Fault → RenewReply
  | .none => if renewed then .renewed else .notOwner
  | .lost | .dropped | .late => .failed

/-- The result of `lookupOwner`. -/
def lookupReply (own failed : Bool) : ProbeReply :=
  if failed then .failed else if own then .own else .other

variable [DecidableEq ι]

/-- A statement, executed; and whether it returns a row. -/
def Statement.execute (lease : ι → ℤ) (db : Db ι) (test set : ℤ) : Statement ι → Bool × Db ι
  | .acquire i campaign => acquireQuery db i (lease i) campaign test set
  | .renew i => renewQuery db i (lease i) test set

/-- An elector moves, and leaves the given database. -/
def Sys.advance (y : Sys ι) (i : ι) (a : Action) (db : Db ι) : Option (Sys ι) :=
  ((y.electors i).step .postgres a).map fun e =>
    { y with electors := update y.electors i e, db := db }

/-- **One step of electors with given leases on one row.** -/
def step (lease : ι → ℤ) (y : Sys ι) : Label ι → Option (Sys ι)
  | .act i a => if a.isLocal then y.advance i a y.db else none
  | .acquire i n test set fault internalTimeout =>
    match (y.electors i).campaigns[n]? with
    | some k =>
      if y.db.clock ≤ test ∧ test ≤ set then
        { y with late := fault.leaves (.acquire i k.number) y.late }.advance i
          (.acquired n (acquireReply (acquireQuery y.db i (lease i) k.number test set).1
            internalTimeout fault))
          (fault.effect y.db (acquireQuery y.db i (lease i) k.number test set).2)
      else none
    | none => none
  | .lookup i n now failed =>
    if y.db.clock ≤ now then
      y.advance i (.probed n (lookupReply (lookupQuery y.db i now) failed))
        { y.db with clock := now }
    else none
  | .renew i w test set fault =>
    if y.db.clock ≤ test ∧ test ≤ set then
      { y with late := fault.leaves (.renew i) y.late }.advance i
        (.renewed w (renewReply (renewQuery y.db i (lease i) test set).1 fault))
        (fault.effect y.db (renewQuery y.db i (lease i) test set).2)
    else none
  | .delete i m fault =>
    y.advance i (afterDelete m fault) (fault.effect y.db (deleteQuery y.db i))
  | .lateStatement j test set =>
    match y.late[j]? with
    | some statement =>
      if y.db.clock ≤ test ∧ test ≤ set then
        some { y with
          db := (statement.execute lease y.db test set).2
          late := y.late.eraseIdx j }
      else none
    | none => none
  | .lateDelete i j => y.advance i (.landed j) (deleteQuery y.db i)
  | .tick now => if y.db.clock ≤ now then some { y with db := { y.db with clock := now } } else none

/-- An event of a run. -/
abbrev Ev (ι : Type) : Type := Event (Sys ι) (Label ι)

/-! ### What is asked for -/

/-- The elector that an event tells it owns the lease, or would tell if the result
arrived, and the reading of the clock at which the lease was tested: an acquisition, within its
call or late, or the look-up of the owner after one whose outcome was unclear. -/
def granted (lease : ι → ℤ) (ev : Ev ι) : Option (ι × ℤ) :=
  match ev.label with
  | .acquire i n test set fault _ =>
    match (ev.before.electors i).campaigns[n]? with
    | some k =>
      if fault.executed ∧ (acquireQuery ev.before.db i (lease i) k.number test set).1 = true then
        some (i, test)
      else none
    | none => none
  | .lateStatement j test set =>
    match ev.before.late[j]? with
    | some (.acquire i campaign) =>
      if (acquireQuery ev.before.db i (lease i) campaign test set).1 = true then some (i, test)
      else none
    | _ => none
  | .lookup i _ now failed =>
    if failed = false ∧ lookupQuery ev.before.db i now = true then some (i, now) else none
  | _ => none

/-- The elector and the resign, by number, whose delete an event executes. -/
def executed (ev : Ev ι) : Option (ι × ℕ) :=
  match ev.label with
  | .delete i m fault =>
    if fault.executed then ((ev.before.electors i).resigns[m]?).map fun r => (i, r.number) else none
  | .lateDelete i j => ((ev.before.electors i).late[j]?).map fun r => (i, r)
  | _ => none

/-- The resign and the campaign, by number, when an event is a delete that is executed on
the row of its elector. -/
def removed (ev : Ev ι) : Option (ℕ × ℕ) :=
  match executed ev, ev.before.db.row with
  | some (i, resign), some row => if row.owner = i then some (resign, row.campaign) else none
  | _, _ => none

/-- The resigns whose `DELETE` is on its way when a campaign of their elector begins. -/
def overtaken (ev : Ev ι) : List ℕ :=
  match ev.label with
  | .act i .beginCampaign => (ev.before.electors i).late
  | _ => []

/-- A campaign begins while a `DELETE` of its elector is on its way that the `Resign` has given
up on. -/
def Overtakes (ev : Ev ι) : Prop := overtaken ev ≠ [] deriving Decidable

/-! ### What a step does to the row -/

/-- **What a statement of an elector can do**: nothing, grant the row to one of certain
campaigns, extend the lease, or delete the row. -/
inductive DbMove (i : ι) (P : ℕ → Prop) (db db' : Db ι) : Prop
  | keep : db.clock ≤ db'.clock → db'.row = db.row → db'.leases = db.leases → DbMove i P db db'
  | grant {campaign : ℕ} {expiry : ℤ} : P campaign →
      (∀ row, db.row = some row → row.owner ≠ i → row.leaseUntil ≤ db'.clock) →
      db.clock ≤ db'.clock → db'.row = some ⟨i, expiry, campaign⟩ →
      db'.leases = update db.leases i (some expiry) → DbMove i P db db'
  | renew {row : Row ι} {expiry : ℤ} : db.row = some row → row.owner = i →
      db.clock ≤ db'.clock → db'.row = some { row with leaseUntil := expiry } →
      db'.leases = update db.leases i (some expiry) → DbMove i P db db'
  | delete {row : Row ι} : db.row = some row → row.owner = i → db.clock ≤ db'.clock →
      db'.row = none → db'.leases = update db.leases i none → DbMove i P db db'

section Steps

variable {db db' : Db ι} {i : ι} {P Q : ℕ → Prop} {lease : ι → ℤ} {y y' : Sys ι} {l : Label ι}

theorem DbMove.mono (hmove : DbMove i P db db') (hPQ : ∀ c, P c → Q c) : DbMove i Q db db' := by
  cases hmove with
  | keep hclock hrow hleases => exact .keep hclock hrow hleases
  | grant hP hfree hclock hrow hleases => exact .grant (hPQ _ hP) hfree hclock hrow hleases
  | renew hin hown hclock hrow hleases => exact .renew hin hown hclock hrow hleases
  | delete hin hown hclock hrow hleases => exact .delete hin hown hclock hrow hleases

theorem leaseUntil_le_of_acquirable {now : ℤ} {row : Row ι} (hrow : db.row = some row)
    (hacq : db.row.all (acquirable i now) = true) (hne : row.owner ≠ i) :
    row.leaseUntil ≤ now := by
  rw [hrow, Option.all_some, acquirable, Bool.or_eq_true, decide_eq_true_eq,
    decide_eq_true_eq] at hacq
  exact hacq.resolve_right hne

theorem dbMove_acquireQuery {lease : ℤ} {campaign : ℕ} {test set : ℤ} (hP : P campaign)
    (htest : db.clock ≤ test) (hset : test ≤ set) :
    DbMove i P db (acquireQuery db i lease campaign test set).2 := by
  unfold acquireQuery
  split_ifs with hacq
  · refine .grant hP (fun row hrow hne => ?_) (htest.trans hset) rfl rfl
    exact (leaseUntil_le_of_acquirable hrow hacq hne).trans hset
  · exact .keep (htest.trans hset) rfl rfl

theorem dbMove_renewQuery {lease test set : ℤ} (htest : db.clock ≤ test) (hset : test ≤ set) :
    DbMove i P db (renewQuery db i lease test set).2 := by
  unfold renewQuery
  split
  next row hrow =>
    split_ifs with hren
    · rw [renewable, Bool.and_eq_true, decide_eq_true_eq] at hren
      exact .renew hrow hren.1 (htest.trans hset) rfl rfl
    · exact .keep (htest.trans hset) rfl rfl
  next => exact .keep (htest.trans hset) rfl rfl

theorem dbMove_deleteQuery : DbMove i P db (deleteQuery db i) := by
  unfold deleteQuery
  split_ifs with hown
  · obtain hnone | ⟨row, hrow⟩ := Option.eq_none_or_eq_some db.row
    · rw [hnone] at hown
      cases hown
    · rw [hrow, Option.any_some, decide_eq_true_eq] at hown
      exact .delete hrow hown (le_refl _) rfl rfl
  · exact .keep (le_refl _) rfl rfl

theorem dbMove_execute {statement : Statement ι} {test set : ℤ} (htest : db.clock ≤ test)
    (hset : test ≤ set) :
    DbMove statement.sender (fun c => statement = .acquire statement.sender c) db
      (statement.execute lease db test set).2 := by
  cases statement with
  | acquire i campaign => exact dbMove_acquireQuery rfl htest hset
  | renew i => exact dbMove_renewQuery htest hset

theorem DbMove.effect (hmove : DbMove i P db db') (fault : Fault) :
    DbMove i P db (fault.effect db db') := by
  unfold Fault.effect
  split_ifs
  · exact hmove
  · exact .keep (le_refl _) rfl rfl

theorem Sys.advance_eq_some {a : Action} (hs : y.advance i a db = some y') :
    ∃ e, (y.electors i).step .postgres a = some e ∧
      y'.electors = update y.electors i e ∧ y'.db = db ∧ y'.late = y.late := by
  obtain ⟨e, he, rfl⟩ := map_eq_some_iff.mp hs
  exact ⟨e, he, rfl, rfl, rfl⟩

/-- The campaigns of an elector that an action acquires for. -/
def AcquiresFor (e : Elector) (a : Action) (campaign : ℕ) : Prop :=
  ∃ n k reply, a = .acquired n reply ∧ e.campaigns[n]? = some k ∧ k.number = campaign

/-- **What a step can do**: time passes; an elector moves and issues one statement, which may be
left on its way; or a statement on its way is executed. -/
inductive Did (y : Sys ι) : Label ι → Sys ι → Prop
  | passed {now : ℤ} : y.db.clock ≤ now →
      Did y (.tick now) { y with db := { y.db with clock := now } }
  | moved {l : Label ι} {y' : Sys ι} {i : ι} {a : Action} {e : Elector} :
      (y.electors i).step .postgres a = some e → y'.electors = update y.electors i e →
      DbMove i (AcquiresFor (y.electors i) a) y.db y'.db →
      (∀ j c, .acquire j c ∈ y'.late →
        .acquire j c ∈ y.late ∨ j = i ∧ AcquiresFor (y.electors i) a c) →
      (a = .beginCampaign → l = .act i .beginCampaign) → Did y l y'
  | landed {l : Label ι} {y' : Sys ι} {i : ι} : y'.electors = y.electors →
      DbMove i (fun c => .acquire i c ∈ y.late) y.db y'.db → (∀ s ∈ y'.late, s ∈ y.late) →
      Did y l y'

/-- **A step, inverted.** -/
theorem did_of_step (hs : step lease y l = some y') : Did y l y' := by
  cases l with
  | act i a =>
    simp only [step] at hs
    split_ifs at hs
    obtain ⟨e, he, helectors, hdb, hlate⟩ := Sys.advance_eq_some hs
    refine .moved he helectors (hdb ▸ .keep (le_refl _) rfl rfl) (fun j c hc => ?_) ?_
    · exact .inl (hlate ▸ hc)
    · rintro rfl
      rfl
  | acquire i n test set fault internalTimeout =>
    simp only [step] at hs
    split at hs
    next k hk =>
      split_ifs at hs with hclock
      obtain ⟨e, he, helectors, hdb, hlate⟩ := Sys.advance_eq_some hs
      refine .moved he helectors ?_ (fun j c hc => ?_) nofun
      · rw [hdb]
        exact (dbMove_acquireQuery ⟨n, k, _, rfl, hk, rfl⟩ hclock.1 hclock.2).effect _
      · rw [hlate] at hc
        rcases Fault.mem_leaves hc with hold | hnew
        · exact .inl hold
        · cases hnew
          exact .inr ⟨rfl, n, k, _, rfl, hk, rfl⟩
    next => cases hs
  | lookup i n now failed =>
    simp only [step] at hs
    split_ifs at hs with hclock
    obtain ⟨e, he, helectors, hdb, hlate⟩ := Sys.advance_eq_some hs
    exact .moved he helectors (hdb ▸ .keep hclock rfl rfl) (fun j c hc => .inl (hlate ▸ hc)) nofun
  | renew i w test set fault =>
    simp only [step] at hs
    split_ifs at hs with hclock
    obtain ⟨e, he, helectors, hdb, hlate⟩ := Sys.advance_eq_some hs
    refine .moved he helectors ?_ (fun j c hc => ?_) nofun
    · rw [hdb]
      exact (dbMove_renewQuery hclock.1 hclock.2).effect _
    · rw [hlate] at hc
      exact .inl ((Fault.mem_leaves hc).resolve_right nofun)
  | delete i m fault =>
    obtain ⟨e, he, helectors, hdb, hlate⟩ := Sys.advance_eq_some hs
    refine .moved he helectors ?_ (fun j c hc => .inl (hlate ▸ hc)) ?_
    · rw [hdb]
      exact dbMove_deleteQuery.effect _
    · cases fault <;> exact nofun
  | lateStatement j test set =>
    simp only [step] at hs
    split at hs
    next statement hstatement =>
      split_ifs at hs with hclock
      cases hs
      refine .landed rfl ((dbMove_execute hclock.1 hclock.2).mono fun c hc => ?_)
        fun s hs => List.mem_of_mem_eraseIdx hs
      rw [← hc]
      exact List.mem_of_getElem? hstatement
    next => cases hs
  | lateDelete i j =>
    obtain ⟨e, he, helectors, hdb, hlate⟩ := Sys.advance_eq_some hs
    exact .moved he helectors (hdb ▸ dbMove_deleteQuery) (fun j c hc => .inl (hlate ▸ hc)) nofun
  | tick now =>
    simp only [step] at hs
    split_ifs at hs with hclock
    cases hs
    exact .passed hclock

/-! ### The invariant -/

/-- **What an elector was granted last is the row, or has run out.** -/
def LeasesSafe (db : Db ι) : Prop :=
  ∀ j expiry, db.leases j = some expiry →
    (∃ row, db.row = some row ∧ row.owner = j ∧ row.leaseUntil = expiry) ∨ expiry ≤ db.clock

omit [DecidableEq ι] in
theorem LeasesSafe.keep (h : LeasesSafe db) (hclock : db.clock ≤ db'.clock)
    (hrow : db'.row = db.row) (hleases : db'.leases = db.leases) : LeasesSafe db' := by
  intro j expiry hj
  rw [hleases] at hj
  rcases h j expiry hj with hin | hout
  · exact .inl (hrow ▸ hin)
  · exact .inr (hout.trans hclock)

/-- **Every statement keeps the leases safe.** -/
theorem leasesSafe_dbMove (hmove : DbMove i P db db') (h : LeasesSafe db) : LeasesSafe db' := by
  cases hmove with
  | keep hclock hrow hleases => exact h.keep hclock hrow hleases
  | @grant campaign expiry _ hfree hclock hrow hleases =>
    intro j u hj
    rw [hleases] at hj
    rcases update_eq_some hj with ⟨rfl, rfl⟩ | ⟨hji, hj'⟩
    · exact .inl ⟨_, hrow, rfl, rfl⟩
    · rcases h j u hj' with ⟨row, hin, rfl, rfl⟩ | hout
      · exact .inr (hfree row hin hji)
      · exact .inr (hout.trans hclock)
  | @renew row expiry hin hown hclock hrow hleases =>
    intro j u hj
    rw [hleases] at hj
    rcases update_eq_some hj with ⟨rfl, rfl⟩ | ⟨hji, hj'⟩
    · exact .inl ⟨_, hrow, hown, rfl⟩
    · rcases h j u hj' with ⟨row', hin', rfl, -⟩ | hout
      · obtain rfl := mem_unique hin hin'
        exact absurd hown hji
      · exact .inr (hout.trans hclock)
  | @delete row hin hown hclock hrow hleases =>
    intro j u hj
    rw [hleases] at hj
    obtain ⟨hji, hj'⟩ := update_none_eq_some hj
    rcases h j u hj' with ⟨row', hin', rfl, -⟩ | hout
    · obtain rfl := mem_unique hin hin'
      exact absurd hown hji
    · exact .inr (hout.trans hclock)

/-- **Every step keeps the leases safe.** -/
theorem leasesSafe_step (h : LeasesSafe y.db) (hs : step lease y l = some y') :
    LeasesSafe y'.db := by
  have hdid := did_of_step hs
  cases hdid with
  | passed hclock => exact h.keep hclock rfl rfl
  | moved _ _ hmove => exact leasesSafe_dbMove hmove h
  | landed _ hmove => exact leasesSafe_dbMove hmove h

theorem not_exceeds_of_acquireQuery {lease test set : ℤ} {campaign : ℕ} (h : LeasesSafe db)
    (htest : db.clock ≤ test) (hgranted : (acquireQuery db i lease campaign test set).1 = true)
    {j : ι} (hj : j ≠ i) {expiry : ℤ} (hlease : db.leases j = some expiry) : expiry ≤ test := by
  rcases h j expiry hlease with ⟨row, hrow, rfl, rfl⟩ | hout
  · refine leaseUntil_le_of_acquirable hrow ?_ hj
    by_contra hacq
    rw [acquireQuery, if_neg hacq] at hgranted
    exact nomatch hgranted
  · exact hout.trans htest

/-- **A grant leaves no other elector with a lease.** -/
theorem granted_exclusive (h : LeasesSafe y.db) (hs : step lease y l = some y') {t : ℤ}
    (hg : granted lease ⟨y, l, y'⟩ = some (i, t)) {j : ι} (hj : j ≠ i) {expiry : ℤ}
    (hlease : y.db.leases j = some expiry) : expiry ≤ t := by
  cases l with
  | acquire i' n test set fault internalTimeout =>
    simp only [granted, step] at hg hs
    split at hg
    next k hk =>
      simp only [hk] at hs
      split_ifs at hg hs with hgranted hclock
      cases hg
      exact not_exceeds_of_acquireQuery h hclock.1 hgranted.2 hj hlease
    next => cases hg
  | lateStatement k test set =>
    simp only [granted, step] at hg hs
    split at hg
    next i' campaign hlate =>
      simp only [hlate] at hs
      split_ifs at hg hs with hgranted hclock
      cases hg
      exact not_exceeds_of_acquireQuery h hclock.1 hgranted hj hlease
    next => cases hg
  | lookup i' n now failed =>
    simp only [granted, step] at hg hs
    split_ifs at hg hs with hown hclock
    cases hg
    rcases h j expiry hlease with ⟨row, hrow, rfl, -⟩ | hout
    · -- the row is the elector's own, so it is not the other one's
      have hfound := hown.2
      rw [lookupQuery, hrow, Option.any_some, Bool.and_eq_true, decide_eq_true_eq] at hfound
      exact absurd hfound.1 hj
    · exact hout.trans hclock
  | _ => cases hg

/-- **The invariant of the electors**, as long as no delete on its way is overtaken: campaigns and
resigns are apart, and the campaign of the row, like every campaign whose acquisition is on its
way, precedes the pending resigns of its elector. -/
structure Ordered (y : Sys ι) : Prop where
  inv : ∀ i, (y.electors i).Inv
  apart : ∀ i, (y.electors i).Apart
  counted : ∀ i, (y.electors i).Counted
  precedes : ∀ row, y.db.row = some row → (y.electors row.owner).Precedes row.campaign
  late : ∀ i c, .acquire i c ∈ y.late → (y.electors i).Precedes c

omit [DecidableEq ι] in
theorem ordered_init : Ordered (init : Sys ι) where
  inv _ := inv_new
  apart _ := apart_new
  counted _ := counted_new
  precedes _ h := nomatch h
  late _ _ h := nomatch h

theorem forall_electors {Q : Elector → Prop} {e : Elector} (h : ∀ j, Q (y.electors j)) (he : Q e)
    (helectors : y'.electors = update y.electors i e) : ∀ j, Q (y'.electors j) := by
  intro j
  rw [helectors]
  by_cases hj : j = i
  · subst hj
    rw [update_self]
    exact he
  · rw [update_of_ne hj]
    exact h j

/-- A statement that acquires for campaigns in their place leaves a row in its place. -/
theorem precedes_dbMove {electors : ι → Elector} (hmove : DbMove i P db db')
    (hP : ∀ c, P c → (electors i).Precedes c)
    (h : ∀ row, db.row = some row → (electors row.owner).Precedes row.campaign) :
    ∀ row, db'.row = some row → (electors row.owner).Precedes row.campaign := by
  intro row hin
  cases hmove with
  | keep _ hrow => exact h row (hrow ▸ hin)
  | grant hfor _ _ hrow =>
    obtain rfl := mem_unique hrow hin
    exact hP _ hfor
  | renew hwas _ _ hrow =>
    obtain rfl := mem_unique hrow hin
    have hprec := h _ hwas
    exact hprec
  | delete _ _ _ hrow => exact nomatch hrow.symm.trans hin

/-- **Every step that does not overtake a late delete keeps the order.** -/
theorem ordered_step (hO : Ordered y) (hs : step lease y l = some y')
    (hover : ¬Overtakes ⟨y, l, y'⟩) : Ordered y' := by
  have hdid := did_of_step hs
  cases hdid with
  | passed => exact ⟨hO.inv, hO.apart, hO.counted, hO.precedes, hO.late⟩
  | @landed _ _ i helectors hmove hlate =>
    have hprec := precedes_dbMove hmove (hO.late i) hO.precedes
    exact ⟨helectors ▸ hO.inv, helectors ▸ hO.apart, helectors ▸ hO.counted, helectors ▸ hprec,
      fun j c hc => helectors ▸ hO.late j c (hlate _ hc)⟩
  | @moved _ _ i a e he helectors hmove hlate hbegin =>
    have hapart : ¬Elector.Overtakes (y.electors i) a := by
      intro ho
      obtain rfl := hbegin ho.1
      exact hover (late_of_overtakes (hO.counted i) he ho)
    -- what was in its place stays there
    have hkept : ∀ j c, (y.electors j).Precedes c → (y'.electors j).Precedes c := by
      intro j c hprec
      rw [helectors]
      by_cases hj : j = i
      · subst hj
        rw [update_self]
        exact precedes_step he hprec
      · rw [update_of_ne hj]
        exact hprec
    have hnew : ∀ c, AcquiresFor (y.electors i) a c → (y'.electors i).Precedes c := by
      rintro c ⟨n, k, reply, rfl, hk, rfl⟩
      rw [helectors, update_self]
      exact precedes_of_acquired (hO.inv i) (hO.apart i) he hk
    refine ⟨forall_electors hO.inv (inv_step (hO.inv i) he) helectors,
      forall_electors hO.apart (apart_step (hO.inv i) (hO.apart i) he hapart) helectors,
      forall_electors hO.counted (counted_step (hO.inv i) (hO.counted i) he) helectors,
      precedes_dbMove hmove hnew fun row hrow => hkept _ _ (hO.precedes row hrow),
      fun j c hc => ?_⟩
    rcases hlate j c hc with hold | ⟨rfl, hfor⟩
    · exact hkept j c (hO.late j c hold)
    · exact hnew c hfor

/-- **What a delete executes is pending.** -/
theorem pending_of_executed (hs : step lease y l = some y') {r : ℕ}
    (hexec : executed ⟨y, l, y'⟩ = some (i, r)) : (y.electors i).Pending r := by
  cases l with
  | delete i' m fault =>
    obtain ⟨e, he, -⟩ := Sys.advance_eq_some hs
    obtain ⟨r', hr', hpending⟩ := pending_of_deleted he
    simp only [executed] at hexec
    split_ifs at hexec
    rw [hr'] at hexec
    cases hexec
    exact hpending
  | lateDelete i' j =>
    obtain ⟨r', hr', heq⟩ := map_eq_some_iff.mp hexec
    cases heq
    exact .inr (List.mem_of_getElem? hr')
  | _ => cases hexec

/-- **A delete finds no later lease.** -/
theorem removed_not_later (hO : Ordered y) (hs : step lease y l = some y') {r c : ℕ}
    (hrem : removed ⟨y, l, y'⟩ = some (r, c)) : ¬r < c := by
  simp only [removed] at hrem
  split at hrem
  next i resign row hexec hrow =>
    split_ifs at hrem with hown
    cases hrem
    have hprec := hO.precedes row hrow
    rw [hown] at hprec
    exact (hprec.2 _ (pending_of_executed hs hexec)).asymm
  next => cases hrem

/-- **When PostgreSQL leader election is safe.** In every run of any number of electors with
any number of concurrent campaigns and resigns and their workers, over a clock that does
not go back: whenever a statement tells an elector at time `t` that it owns the lease, no
other elector has a lease, granted and not deleted, that ends after `t`. And if no campaign begins
while a `DELETE` of its elector is on its way that a resign has given up on, no resign
deletes a lease that was acquired by a campaign of its elector which began after the
resign had started. -/
theorem leader_election_safe {h : List (Ev ι)} (hr : Run (step lease) init h y) :
    (∀ ev ∈ h, ∀ i t, granted lease ev = some (i, t) →
      ∀ j, j ≠ i → ∀ expiry, ev.before.db.leases j = some expiry → expiry ≤ t) ∧
    ((∀ ev ∈ h, ¬Overtakes ev) → ∀ ev ∈ h, ∀ r c, removed ev = some (r, c) → ¬r < c) := by
  constructor
  · refine hr.forall_mem (I := fun y => LeasesSafe y.db) (fun _ _ h => nomatch h)
      (fun _ _ _ h hs => leasesSafe_step h hs) ?_
    intro y l y' h hs i t hg j hj expiry hlease
    exact granted_exclusive h hs hg hj hlease
  · intro hnone
    have hguard : Always (fun _ ev => ¬Overtakes ev) h := always_iff_forall_mem.mpr hnone
    have hI : Ordered y ∧ ∀ ev ∈ h, ∀ r c, removed ev = some (r, c) → ¬r < c :=
      hr.invariant_of
        (P := fun h y => Ordered y ∧ ∀ ev ∈ h, ∀ r c, removed ev = some (r, c) → ¬r < c) hguard
        ⟨ordered_init, fun _ h => (nomatch h)⟩
        fun h y l y' hI hs hover => ⟨ordered_step hI.1 hs hover,
          List.forall_mem_cons.mpr ⟨fun r c => removed_not_later hI.1 hs, hI.2⟩⟩
    exact hI.2

end Steps

/-- Two electors with leases of one second. The second is denied the lease of the first,
takes it over when it has run out, and gives it up by two overlapping resigns. The first of these
gives up on its `DELETE`, which is executed before the second has finished; the campaign that
would begin between them is kept out, and begins when both are over. -/
theorem leader_election_safe_takeover : ∃ (h : List (Ev Bool)) (y : Sys Bool),
    Run (step fun _ => second) init h y ∧ (∀ ev ∈ h, ¬Overtakes ev) ∧
    h.filterMap (granted fun _ => second) = [(true, 3000000), (true, 2000000), (false, 0)] ∧
    h.filterMap removed = [(2, 0)] ∧
    (∀ ev ∈ h, ∀ i t, granted (fun _ => second) ev = some (i, t) →
      ∀ j, j ≠ i → ∀ expiry, ev.before.db.leases j = some expiry → expiry ≤ t) ∧
    (∀ ev ∈ h, ∀ r c, removed ev = some (r, c) → ¬r < c) := by
  obtain ⟨h, y, hr, hnone, hgranted, hremoved⟩ := exists_run (step fun _ : Bool => second) init
    [.act false .beginCampaign, .acquire false 0 0 0 .none false, .act false (.startRenewal 0),
      .act false (.endCampaign 0), .act true .beginCampaign,
      .acquire true 0 500000 500000 .none false, .renew false 0 900000 900000 .none,
      .acquire true 0 2000000 2000001 .none false, .act true (.startRenewal 0),
      .act true (.endCampaign 0), .act true .clearOwnership, .act true .clearOwnership,
      .act true (.cancel 0), .act true (.cancel 1), .act true (.quit 0), .act true (.join 0),
      .act true (.join 1), .delete true 1 .late, .act true (.finishResign 1), .lateDelete true 0,
      .delete true 0 .none, .act true (.finishResign 0), .act true .beginCampaign,
      .acquire true 0 3000000 3000000 .none false]
    (fun h _ => (∀ ev ∈ h, ¬Overtakes ev) ∧ h.filterMap (granted fun _ => second) =
        [(true, 3000000), (true, 2000000), (false, 0)] ∧
      h.filterMap removed = [(2, 0)]) (by decide +kernel)
  obtain ⟨hsafe, hspares⟩ := leader_election_safe hr
  exact ⟨h, y, hr, hnone, hgranted, hremoved, hsafe, hspares hnone⟩

/-- **A late `DELETE` removes a later lease.** A leader resigns, and the context of the `Resign`
ends while its `DELETE` is on its way. The caller retries, as it is told to; the retry deletes the
row and takes `cleanup` down. A campaign begins and acquires the row; and then the first `DELETE`
is executed. The elector goes on as a leader without a lease. -/
theorem late_delete_removes_lease : ∃ (h : List (Ev Unit)) (y : Sys Unit),
    Run (step fun _ => second) init h y ∧ (∃ ev ∈ h, removed ev = some (1, 3)) ∧
    (y.electors ()).flags.owned = true ∧ y.db.row = none := by
  exact exists_run (step fun _ : Unit => second) init
    [.act () .beginCampaign, .acquire () 0 0 0 .none false, .act () (.startRenewal 0),
      .act () (.endCampaign 0), .act () .clearOwnership, .act () (.cancel 0), .act () (.quit 0),
      .act () (.join 0), .delete () 0 .late, .act () (.finishResign 0), .act () .clearOwnership,
      .act () (.cancel 0), .act () (.join 0), .delete () 0 .none, .act () (.finishResign 0),
      .act () .beginCampaign, .acquire () 0 1 1 .none false, .act () (.startRenewal 0),
      .act () (.endCampaign 0), .lateDelete () 0]
    (fun h y => (∃ ev ∈ h, removed ev = some (1, 3)) ∧ (y.electors ()).flags.owned = true ∧
      y.db.row = none) (by decide +kernel)

end Bluetape.Leader.Sql
