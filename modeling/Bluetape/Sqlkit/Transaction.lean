import Mathlib.Data.List.Basic

/-!
# Transactions

`WithTx` begins a transaction, calls a function with it, and commits it or rolls it back. What
the database and the function do is open: every outcome of the calls is possible, and the function
may finish the transaction itself, directly or by ending the context that it belongs to.

The finishing calls are statements that follow the call of the function, and nothing is deferred. So
a function that panics leaves its transaction as it is (`panic_leaves_transaction`): nobody has
finished it, and its connection does not go back to the pool. This is the only way
(`withTx_kept_iff`) in which `WithTx` does not do what is asked of it (`Kept`).
-/

namespace Bluetape.Sqlkit

variable {ε : Type}

/-- A call that finishes a transaction. -/
inductive Finish where
  | commit
  | rollback
  deriving DecidableEq, Repr

inductive Outcome (ε : Type) where
  | returns (err : Option ε)
  | panics

/-- What a function does: how it finishes the transaction, itself or by the end of the context,
and how it ends. -/
structure TxFunc (ε : Type) where
  finishes : List Finish
  outcome : Outcome ε

/-- The errors of the calls of a database and of its transaction. -/
structure Beginner (ε : Type) where
  beginTx : Option ε
  commit : Option ε
  rollback : Option ε

inductive TxError (ε : Type) where
  /-- “db is nil” -/
  | dbNil
  /-- “transaction function is nil” -/
  | functionNil
  /-- “begin transaction: …” -/
  | begin (err : ε)
  /-- “transaction function: …” -/
  | function (err : ε)
  /-- “transaction function: …”, and “rollback transaction: …” -/
  | functionAndRollback (err rollbackErr : ε)
  /-- “commit transaction: …” -/
  | commit (err : ε)

/-- How `WithTx` is left, whether it has begun a transaction, and the calls that finish it: those
from elsewhere, and its own. -/
structure Exit (ε : Type) where
  left : Outcome (TxError ε)
  began : Bool
  others : List Finish
  own : List Finish

/-- `isTxDone` is `errors.Is(err, sql.ErrTxDone)`. -/
def withTx (isTxDone : ε → Bool) (db : Option (Beginner ε)) (fn : Option (TxFunc ε)) : Exit ε :=
  match db, fn with
  | none, _ => ⟨.returns (some .dbNil), false, [], []⟩
  | some _, none => ⟨.returns (some .functionNil), false, [], []⟩
  | some db, some fn =>
    match db.beginTx with
    | some err => ⟨.returns (some (.begin err)), false, [], []⟩
    | none =>
      match fn.outcome with
      | .panics => ⟨.panics, true, fn.finishes, []⟩
      | .returns (some err) =>
        match db.rollback with
        | some rollbackErr =>
          if isTxDone rollbackErr then
            ⟨.returns (some (.function err)), true, fn.finishes, [.rollback]⟩
          else
            ⟨.returns (some (.functionAndRollback err rollbackErr)), true, fn.finishes, [.rollback]⟩
        | none => ⟨.returns (some (.function err)), true, fn.finishes, [.rollback]⟩
      | .returns none =>
        match db.commit with
        | some err => ⟨.returns (some (.commit err)), true, fn.finishes, [.commit]⟩
        | none => ⟨.returns none, true, fn.finishes, [.commit]⟩

/-- **What is asked of `WithTx`**: a transaction that was begun is finished, it commits once at
most, and only after the function has returned without an error, and it returns without one only if
the commit did. -/
structure Kept (db : Option (Beginner ε)) (fn : Option (TxFunc ε)) (e : Exit ε) : Prop where
  finished : e.began = true → e.others ++ e.own ≠ []
  once : e.own.count .commit ≤ 1
  returned : .commit ∈ e.own → ∃ f, fn = some f ∧ f.outcome = .returns none
  committed : e.left = .returns none → .commit ∈ e.own ∧ ∃ d, db = some d ∧ d.commit = none

/-- There is a transaction, and the function panics and has not finished it. -/
def Abandons (db : Option (Beginner ε)) (fn : Option (TxFunc ε)) : Prop :=
  ∃ d f, db = some d ∧ d.beginTx = none ∧ fn = some f ∧ f.outcome = .panics ∧ f.finishes = []

/-- **`WithTx` does what is asked exactly if the function does not abandon its transaction.** -/
theorem withTx_kept_iff (isTxDone : ε → Bool) (db : Option (Beginner ε))
    (fn : Option (TxFunc ε)) : Kept db fn (withTx isTxDone db fn) ↔ ¬Abandons db fn := by
  constructor
  · rintro hkept ⟨d, f, rfl, hbegin, rfl, hpanics, hfinishes⟩
    have hfinished := hkept.finished
    simp [withTx, hbegin, hpanics, hfinishes] at hfinished
  · intro hnot
    unfold withTx
    split
    · exact ⟨nofun, Nat.zero_le 1, nofun, nofun⟩
    · exact ⟨nofun, Nat.zero_le 1, nofun, nofun⟩
    next d f =>
      split
      · exact ⟨nofun, Nat.zero_le 1, nofun, nofun⟩
      next hbegin =>
        cases houtcome : f.outcome with
        | panics =>
          refine ⟨fun _ hnil => hnot ⟨d, f, rfl, hbegin, rfl, houtcome, ?_⟩, Nat.zero_le 1, nofun,
            nofun⟩
          exact (List.append_eq_nil_iff.mp hnil).1
        | returns err =>
          cases err with
          | some err =>
            dsimp only
            split <;> try split
            all_goals exact ⟨fun _ => by simp, Nat.zero_le 1, by simp, nofun⟩
          | none =>
            dsimp only
            split
            · exact ⟨fun _ => by simp, Nat.le_refl 1, fun _ => ⟨f, rfl, houtcome⟩, nofun⟩
            next hcommit =>
              exact ⟨fun _ => by simp, Nat.le_refl 1, fun _ => ⟨f, rfl, houtcome⟩,
                fun _ => ⟨List.mem_singleton_self _, d, rfl, hcommit⟩⟩

/-- **A panic leaves a transaction that nobody has finished.** -/
theorem panic_leaves_transaction :
    (withTx (fun _ : Unit => false) (some ⟨none, none, none⟩) (some ⟨[], .panics⟩)).began = true ∧
    (withTx (fun _ : Unit => false) (some ⟨none, none, none⟩) (some ⟨[], .panics⟩)).others = [] ∧
    (withTx (fun _ : Unit => false) (some ⟨none, none, none⟩) (some ⟨[], .panics⟩)).own = [] :=
  ⟨rfl, rfl, rfl⟩

end Bluetape.Sqlkit
