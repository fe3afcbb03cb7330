import Mathlib.Data.Int.Notation
import Mathlib.Data.List.Basic

/-!
# Statement builders

`SelectBuilder`, `UpdateBuilder` and `DeleteBuilder` collect what a statement is made of and
write it in one go. Identifiers are checked and quoted. The fragments that are given to `Where`
are the caller's own text: `Build` numbers their placeholders, through all of them and after
those of the values that are set, and joins them with ` and `.

Text is a list of runes (`Text`); a fragment that is no valid UTF-8 is not modelled. Values are of
any type.
-/

namespace Bluetape.Sqlkit

/-- A text. -/
abbrev Text := List Char

/-- `strings.Join`. -/
def join (sep : Text) : List Text → Text
  | [] => []
  | [t] => t
  | t :: u :: rest => t ++ sep ++ join sep (u :: rest)

/-- `strconv.Itoa`, of a number that is not negative. -/
def itoa (n : ℕ) : Text := Nat.toDigits 10 n

/-- The errors of `Build`, all of them `ErrInvalidArgument` with a text. -/
inductive BuildError where
  /-- “identifier is empty” -/
  | identifierEmpty
  /-- “invalid identifier …” -/
  | invalidIdentifier (identifier : Text)
  /-- “limit must not be negative” -/
  | limitNegative
  /-- “update requires at least one set” -/
  | updateRequiresSet
  /-- “update requires where” -/
  | updateRequiresWhere
  /-- “delete requires where” -/
  | deleteRequiresWhere
  /-- “where fragment is empty” -/
  | fragmentEmpty
  /-- “placeholder count … does not match args count …” -/
  | placeholderCount (placeholders args : ℕ)
  deriving DecidableEq, Repr

/-! ### Identifiers -/

/-- A letter or an underscore. -/
def isIdentifierStart (r : Char) : Bool :=
  decide (r = '_') || (decide ('A' ≤ r) && decide (r ≤ 'Z')) ||
    (decide ('a' ≤ r) && decide (r ≤ 'z'))

/-- Or a digit. -/
def isIdentifierPart (r : Char) : Bool :=
  isIdentifierStart r || (decide ('0' ≤ r) && decide (r ≤ '9'))

/-- A name without dots. -/
def isIdentifierSegment : Text → Bool
  | [] => false
  | r :: rs => isIdentifierStart r && rs.all isIdentifierPart

/-- The quotation mark. -/
def quote : Char := '\x22'

/-- Each part in quotation marks. -/
def quoteIdentifier (identifier : Text) : Except BuildError Text :=
  if identifier = [] then .error .identifierEmpty
  else if (identifier.splitOn '.').all isIdentifierSegment then
    .ok (join ['.'] ((identifier.splitOn '.').map fun segment => quote :: segment ++ [quote]))
  else .error (.invalidIdentifier identifier)

/-- All of them. -/
def quoteIdentifiers (identifiers : List Text) : Except BuildError (List Text) :=
  identifiers.mapM quoteIdentifier

/-! ### Where -/

variable {α : Type}

/-- A fragment and its arguments. -/
structure WhereClause (α : Type) where
  fragment : Text
  args : List α
  deriving DecidableEq, Repr

/-- The loop of `rewritePlaceholders`: every `?` becomes `$` and the next number. -/
def number (next : ℕ) : Text → Text × ℕ
  | [] => ([], next)
  | r :: rs =>
    if r = '?' then ('$' :: itoa next ++ (number (next + 1) rs).1, (number (next + 1) rs).2)
    else (r :: (number next rs).1, (number next rs).2)

/-- `rewritePlaceholders`: the text, the arguments and the next number. -/
def rewritePlaceholders (fragment : Text) (start : ℕ) (args : List α) :
    Except BuildError (Text × List α × ℕ) :=
  if fragment = [] then .error .fragmentEmpty
  else if fragment.count '?' ≠ args.length then
    .error (.placeholderCount (fragment.count '?') args.length)
  else .ok ((number start fragment).1, args, (number start fragment).2)

/-- The loop of `appendWhere`: the texts and the arguments. -/
def rewriteClauses (next : ℕ) : List (WhereClause α) → Except BuildError (List Text × List α)
  | [] => .ok ([], [])
  | c :: cs => do
    let (fragment, args, next) ← rewritePlaceholders c.fragment next c.args
    let (fragments, rest) ← rewriteClauses next cs
    return (fragment :: fragments, args ++ rest)

/-- The clauses after the text. -/
def appendWhere (sql : Text) (start : ℕ) (clauses : List (WhereClause α)) :
    Except BuildError (Text × List α) :=
  if clauses.isEmpty then .ok (sql, [])
  else do
    let (fragments, args) ← rewriteClauses start clauses
    return (sql ++ " where ".toList ++ join " and ".toList fragments, args)

/-! ### The builders -/

/-- What is built. -/
structure Statement (α : Type) where
  sql : Text
  args : List α
  deriving DecidableEq, Repr

/-- A `select`. -/
structure SelectBuilder (α : Type) where
  table : Text
  columns : List Text
  clauses : List (WhereClause α)
  orderBy : List Text
  limit : Option ℤ

/-- An `update`. -/
structure UpdateBuilder (α : Type) where
  table : Text
  sets : List (Text × α)
  clauses : List (WhereClause α)

/-- A `delete`. -/
structure DeleteBuilder (α : Type) where
  table : Text
  clauses : List (WhereClause α)

namespace SelectBuilder

/-- What is written before `Where`. -/
def head (b : SelectBuilder α) : Except BuildError Text := do
  let table ← quoteIdentifier b.table
  let columns ← if b.columns.isEmpty then .ok [['*']] else quoteIdentifiers b.columns
  return "select ".toList ++ join ", ".toList columns ++ " from ".toList ++ table

/-- The `order by`. -/
def orderText (b : SelectBuilder α) : Except BuildError Text :=
  if b.orderBy.isEmpty then .ok []
  else do
    let orderBy ← quoteIdentifiers b.orderBy
    return " order by ".toList ++ join ", ".toList orderBy

/-- The `limit`. -/
def limitText (b : SelectBuilder α) : Except BuildError Text :=
  match b.limit with
  | none => .ok []
  | some limit =>
    if limit < 0 then .error .limitNegative else .ok (" limit ".toList ++ itoa limit.toNat)

/-- What follows the clauses. -/
def tail (b : SelectBuilder α) : Except BuildError Text := do
  let orderBy ← b.orderText
  let limit ← b.limitText
  return orderBy ++ limit

/-- **`Build` of a `select`.** -/
def build (b : SelectBuilder α) : Except BuildError (Statement α) := do
  let sql ← b.head
  let (sql, args) ← appendWhere sql 1 b.clauses
  let tail ← b.tail
  return ⟨sql ++ tail, args⟩

end SelectBuilder

namespace UpdateBuilder

/-- The columns, numbered. -/
def setTexts (next : ℕ) : List (Text × α) → Except BuildError (List Text)
  | [] => .ok []
  | (column, _) :: sets => do
    let column ← quoteIdentifier column
    let rest ← setTexts (next + 1) sets
    return (column ++ " = $".toList ++ itoa next) :: rest

/-- What is written before `Where`. -/
def head (b : UpdateBuilder α) : Except BuildError Text := do
  let table ← quoteIdentifier b.table
  if b.sets.isEmpty then .error .updateRequiresSet
  else if b.clauses.isEmpty then .error .updateRequiresWhere
  else
    let sets ← setTexts 1 b.sets
    return "update ".toList ++ table ++ " set ".toList ++ join ", ".toList sets

/-- **`Build` of an `update`.** -/
def build (b : UpdateBuilder α) : Except BuildError (Statement α) := do
  let sql ← b.head
  let (sql, args) ← appendWhere sql (b.sets.length + 1) b.clauses
  return ⟨sql, b.sets.map Prod.snd ++ args⟩

end UpdateBuilder

namespace DeleteBuilder

/-- What is written before `Where`. -/
def head (b : DeleteBuilder α) : Except BuildError Text := do
  let table ← quoteIdentifier b.table
  if b.clauses.isEmpty then .error .deleteRequiresWhere
  else return "delete from ".toList ++ table

/-- **`Build` of a `delete`.** -/
def build (b : DeleteBuilder α) : Except BuildError (Statement α) := do
  let sql ← b.head
  let (sql, args) ← appendWhere sql 1 b.clauses
  return ⟨sql, args⟩

end DeleteBuilder

/-- A builder that has `Where`. -/
inductive Builder (α : Type) where
  | select (b : SelectBuilder α)
  | update (b : UpdateBuilder α)
  | delete (b : DeleteBuilder α)

namespace Builder

/-- The clauses. -/
def clauses : Builder α → List (WhereClause α)
  | .select b => b.clauses
  | .update b => b.clauses
  | .delete b => b.clauses

/-- The number of the first placeholder of `Where`. -/
def start : Builder α → ℕ
  | .select _ => 1
  | .update b => b.sets.length + 1
  | .delete _ => 1

/-- What is written before `Where`. -/
def head : Builder α → Except BuildError Text
  | .select b => b.head
  | .update b => b.head
  | .delete b => b.head

/-- What follows them. -/
def tail : Builder α → Except BuildError Text
  | .select b => b.tail
  | .update _ => .ok []
  | .delete _ => .ok []

/-- **`Build`.** -/
def build : Builder α → Except BuildError (Statement α)
  | .select b => b.build
  | .update b => b.build
  | .delete b => b.build

end Builder

/-! ### What a statement is made of -/

/-- The fragments, numbered. -/
def fragments (next : ℕ) : List (WhereClause α) → List Text
  | [] => []
  | c :: cs => (number next c.fragment).1 :: fragments (number next c.fragment).2 cs

/-- The number after them. -/
def nextOf (next : ℕ) : List (WhereClause α) → ℕ
  | [] => next
  | c :: cs => nextOf (number next c.fragment).2 cs

theorem fragments_append (next : ℕ) (cs ds : List (WhereClause α)) :
    fragments next (cs ++ ds) = fragments next cs ++ fragments (nextOf next cs) ds := by
  induction cs generalizing next with
  | nil => rfl
  | cons c cs ih => rw [List.cons_append, fragments, ih, fragments, nextOf, List.cons_append]

theorem length_fragments (next : ℕ) (cs : List (WhereClause α)) :
    (fragments next cs).length = cs.length := by
  induction cs generalizing next with
  | nil => rfl
  | cons c cs ih => rw [fragments, List.length_cons, List.length_cons, ih]

/-- The condition after `where`. -/
def condition (next : ℕ) (cs : List (WhereClause α)) : Text :=
  join " and ".toList (fragments next cs)

theorem bind_eq_ok {β γ : Type} {x : Except BuildError β} {f : β → Except BuildError γ} {c : γ}
    (h : x >>= f = .ok c) : ∃ b, x = .ok b ∧ f b = .ok c := by
  cases x with
  | error e => exact nomatch h
  | ok b => exact ⟨b, rfl, h⟩

theorem rewritePlaceholders_eq_ok {fragment : Text} {start : ℕ} {args : List α}
    {r : Text × List α × ℕ} (h : rewritePlaceholders fragment start args = .ok r) :
    r = ((number start fragment).1, args, (number start fragment).2) := by
  unfold rewritePlaceholders at h
  split_ifs at h
  exact (Except.ok.inj h).symm

theorem rewriteClauses_eq_ok {next : ℕ} {cs : List (WhereClause α)} {r : List Text × List α}
    (h : rewriteClauses next cs = .ok r) : r.1 = fragments next cs := by
  induction cs generalizing next r with
  | nil =>
    cases h
    rfl
  | cons c cs ih =>
    obtain ⟨r₁, h₁, hrest⟩ := bind_eq_ok h
    obtain rfl := rewritePlaceholders_eq_ok h₁
    obtain ⟨r₂, h₂, ⟨⟩⟩ := bind_eq_ok hrest
    rw [fragments, ← ih h₂]

theorem appendWhere_eq_ok {sql : Text} {start : ℕ} {cs : List (WhereClause α)} (hne : cs ≠ [])
    {r : Text × List α} (h : appendWhere sql start cs = .ok r) :
    r.1 = sql ++ " where ".toList ++ condition start cs := by
  unfold appendWhere at h
  rw [if_neg (by simpa using hne)] at h
  obtain ⟨r₁, h₁, ⟨⟩⟩ := bind_eq_ok h
  rw [condition, ← rewriteClauses_eq_ok h₁]

/-- **What a statement is made of**: what comes before `where`, the condition, and what comes
after it. -/
theorem Builder.build_eq_ok {b : Builder α} (hne : b.clauses ≠ []) {stmt : Statement α}
    (h : b.build = .ok stmt) : ∃ head tail, b.head = .ok head ∧ b.tail = .ok tail ∧
      stmt.sql = head ++ " where ".toList ++ condition b.start b.clauses ++ tail := by
  cases b with
  | select b =>
    obtain ⟨head, hhead, h⟩ := bind_eq_ok h
    obtain ⟨r, hwhere, h⟩ := bind_eq_ok h
    obtain ⟨tail, htail, ⟨⟩⟩ := bind_eq_ok h
    refine ⟨head, tail, hhead, htail, ?_⟩
    rw [appendWhere_eq_ok hne hwhere]
    rfl
  | update b | delete b =>
    obtain ⟨head, hhead, h⟩ := bind_eq_ok h
    obtain ⟨r, hwhere, ⟨⟩⟩ := bind_eq_ok h
    refine ⟨head, [], hhead, rfl, ?_⟩
    rw [appendWhere_eq_ok hne hwhere, List.append_nil]
    rfl

end Bluetape.Sqlkit
