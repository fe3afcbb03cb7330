import Bluetape.Library.Condition
import Bluetape.Sqlkit.Builder

/-!
# Several calls of Where

A statement is meant for the rows for which all fragments that were given to `Where` hold. The
fragments are joined as text, so what the condition after `where` means depends on how it is
read: into tokens first, by the lexer of the database, and then with the precedence of the
connectives (`Cond.read`).

Of the lexer it is only assumed that ` and ` between two texts that are complete by themselves is
the connective (`Lexer`). An atom is anything that the lexer takes for one; `sqlLexer` is a lexer
for atoms with quoted text, calls, `is not`, `not in` and `between`, and does what is assumed
(`scan_and`).

Since `and` binds more tightly than `or`, a fragment that is a disjunction is torn apart: with `c`
and `a or b`, the condition is `c and a or b`, which holds whenever `b` does
(`more_rows_with_where`). What is written are alternatives, the last one of each fragment glued to
the first one of the next; and the condition means the conjunction of the fragments **exactly** if
each of these alternatives implies each fragment (`holds_condition_iff`). A single fragment, and any
number of fragments none of which is a disjunction at its top level, are of that kind
(`Lexer.entails_of_plain`); so is `a or b`, given twice.
-/

namespace Bluetape.Sqlkit

open List

open Cond (Token Truth)

/-! ### Lexers -/

/-- **A lexer of the database.** A text that is complete by itself, then ` and `, then another
one, are the tokens of the one, the connective and the tokens of the other. -/
structure Lexer where
  lex : Text → Option (List (Token Text))
  lex_and : ∀ s t ts us, lex s = some ts → lex t = some us →
    lex (s ++ " and ".toList ++ t) = some (ts ++ .and :: us)

namespace Lexer

variable (L : Lexer)

/-- The text is a condition. -/
def WellFormed (t : Text) : Prop := ∃ ts, L.lex t = some ts ∧ (Cond.read ts).isSome = true

/-- The text is a condition that is a disjunction at its top level. -/
def Disjunction (t : Text) : Prop :=
  ∃ ts f, L.lex t = some ts ∧ Cond.read ts = some f ∧ f.terms ≠ []

/-- The condition holds for a row, which gives each atom, with the arguments of the statement
in place of its placeholders, a truth value. -/
def Holds (row : Text → Truth) (t : Text) : Prop := ∃ ts, L.lex t = some ts ∧ Cond.Holds row ts

instance instDecidableWellFormed (t : Text) : Decidable (L.WellFormed t) :=
  decidable_of_iff ((L.lex t).any (fun ts => (Cond.read ts).isSome) = true) (by
    rw [WellFormed]
    cases L.lex t <;> simp)

instance instDecidableDisjunction (t : Text) : Decidable (L.Disjunction t) :=
  decidable_of_iff (((L.lex t).bind Cond.read).any (fun f => !f.terms.isEmpty) = true) (by
    rw [Disjunction]
    cases L.lex t with
    | none => simp
    | some ts => cases hf : Cond.read ts <;> simp [hf])

instance instDecidableHolds (row : Text → Truth) (t : Text) : Decidable (L.Holds row t) :=
  decidable_of_iff ((L.lex t).any (fun ts => decide (Cond.Holds row ts)) = true) (by
    rw [Holds]
    cases L.lex t <;> simp)

variable {L}

theorem holds_iff {row : Text → Truth} {t : Text} {ts : List (Token Text)} (h : L.lex t = some ts) :
    L.Holds row t ↔ Cond.Holds row ts := by
  constructor
  · rintro ⟨us, hus, hholds⟩
    obtain rfl := Option.mem_unique h hus
    exact hholds
  · exact fun hholds => ⟨ts, h, hholds⟩

theorem lex_join {texts : List Text} (hne : texts ≠ []) {tokens : Text → List (Token Text)}
    (h : ∀ t ∈ texts, L.lex t = some (tokens t)) :
    L.lex (join " and ".toList texts) = some (Cond.joinAnd (texts.map tokens)) := by
  induction texts with
  | nil => exact absurd rfl hne
  | cons t rest ih =>
    cases rest with
    | nil => exact h t mem_cons_self
    | cons u rest =>
      have hrest := ih (cons_ne_nil u rest) fun v hv => h v (mem_cons_of_mem t hv)
      exact L.lex_and t _ _ _ (h t mem_cons_self) hrest

/-- **Each alternative of the joined texts implies each of them.** -/
def Entails (L : Lexer) (texts : List Text) : Prop :=
  Cond.Entails (texts.map fun t => (L.lex t).getD [])

section

variable {texts : List Text} (hwf : ∀ t ∈ texts, L.WellFormed t)
include hwf

theorem lex_of_wellFormed : ∀ t ∈ texts, L.lex t = some ((L.lex t).getD []) := by
  intro t ht
  obtain ⟨ts, hts, -⟩ := hwf t ht
  simp [hts]

theorem read_of_wellFormed :
    ∀ ts ∈ texts.map fun t => (L.lex t).getD [], (Cond.read ts).isSome = true := by
  intro ts hts
  obtain ⟨t, ht, rfl⟩ := mem_map.mp hts
  obtain ⟨us, hus, hsome⟩ := hwf t ht
  rw [hus]
  exact hsome

theorem forall_holds_iff (row : Text → Truth) :
    (∀ ts ∈ texts.map fun t => (L.lex t).getD [], Cond.Holds row ts) ↔
      ∀ t ∈ texts, L.Holds row t := by
  rw [forall_mem_map]
  exact forall₂_congr fun t ht => (holds_iff (lex_of_wellFormed hwf t ht)).symm

/-- **When texts that are joined mean their conjunction.** -/
theorem holds_join_iff (hne : texts ≠ []) :
    L.WellFormed (join " and ".toList texts) ∧
      (∀ row, (∀ t ∈ texts, L.Holds row t) → L.Holds row (join " and ".toList texts)) ∧
      ((∀ row, L.Holds row (join " and ".toList texts) ↔ ∀ t ∈ texts, L.Holds row t) ↔
        L.Entails texts) := by
  have hlex := lex_join hne (lex_of_wellFormed hwf)
  obtain ⟨hsome, hall, hiff⟩ :=
    Cond.holds_joinAnd_iff (by simpa using hne) (read_of_wellFormed hwf)
  simp only [forall_holds_iff hwf, ← holds_iff hlex] at hall hiff
  exact ⟨⟨_, hlex, hsome⟩, hall, hiff⟩

/-- **One text, or texts that are no disjunctions, are implied by the alternatives.** -/
theorem entails_of_plain (hdisj : texts.length = 1 ∨ ∀ t ∈ texts, ¬L.Disjunction t) :
    L.Entails texts := by
  refine Cond.entails_of_plain (read_of_wellFormed hwf) ?_
  refine hdisj.imp (fun hlen => by rw [length_map, hlen]) fun hnone ts hts f hf => ?_
  obtain ⟨t, ht, rfl⟩ := mem_map.mp hts
  by_contra hne
  exact hnone t ht ⟨_, f, lex_of_wellFormed hwf t ht, hf, hne⟩

end

end Lexer

/-! ### Where -/

variable {α : Type}

/-- What has been scanned: the tokens, the words of an atom, and the characters of a word. -/
structure Scan where
  tokens : List (Token Text)
  words : List Text
  word : Text
  quoted : Bool
  /-- The parentheses that are open within a word, as in a call. -/
  depth : ℕ
  /-- The atom is a `between` that lacks its `and`. -/
  between : Bool
  deriving DecidableEq

namespace Scan

/-- At the beginning. -/
def empty : Scan := ⟨[], [], [], false, 0, false⟩

/-- Keywords in any case. -/
def is (word : Text) (keyword : String) : Bool := word.map Char.toLower == keyword.toList

/-- The words are an atom. -/
def endAtom (s : Scan) : Scan :=
  if s.words.isEmpty then s
  else { s with tokens := s.tokens ++ [.atom (join [' '] s.words)], words := [] }

/-- A connective is read. -/
def connective (s : Scan) (t : Token Text) : Scan :=
  { s.endAtom with tokens := s.endAtom.tokens ++ [t], word := [] }

/-- The word is one of the atom. -/
def wordOfAtom (s : Scan) (between : Bool) : Scan :=
  { s with words := s.words ++ [s.word], word := [], between := between }

/-- A word ends: it is a connective, or belongs to an atom. -/
def endWord (s : Scan) : Scan :=
  if s.word.isEmpty then s
  else if is s.word "and" then if s.between then s.wordOfAtom false else s.connective .and
  else if is s.word "or" then s.connective .or
  else if is s.word "not" && s.words.isEmpty then s.connective .not
  else s.wordOfAtom (s.between || is s.word "between")

/-- A character of a word. -/
def push (s : Scan) (c : Char) : Scan := { s with word := s.word ++ [c] }

/-- **One character.** -/
def step (s : Scan) (c : Char) : Scan :=
  if c = '\x27' then { s.push c with quoted := !s.quoted }
  else if s.quoted then s.push c
  else if 0 < s.depth then
    { s.push c with
      depth := if c = '(' then s.depth + 1 else if c = ')' then s.depth - 1 else s.depth }
  else if c = ' ' || c = '\t' || c = '\n' || c = '\r' then s.endWord
  else if c = '(' then if s.word.isEmpty then s.connective .lparen else { s.push c with depth := 1 }
  else if c = ')' then s.endWord.connective .rparen
  else s.push c

/-- The tokens, at the end. -/
def result (s : Scan) : Option (List (Token Text)) :=
  if s.quoted || decide (0 < s.depth) || s.endWord.between then none
  else some s.endWord.endAtom.tokens

/-- With other tokens before. -/
@[simps words word quoted depth between]
def after (ts : List (Token Text)) (s : Scan) : Scan := { s with tokens := ts ++ s.tokens }

variable (ts : List (Token Text)) (s : Scan)

theorem after_endAtom : (s.after ts).endAtom = s.endAtom.after ts := by
  unfold endAtom after
  split_ifs
  · rfl
  · simp only [append_assoc]

theorem after_connective (t : Token Text) :
    (s.after ts).connective t = (s.connective t).after ts := by
  unfold connective
  rw [after_endAtom]
  simp only [after, append_assoc]

theorem after_endWord : (s.after ts).endWord = s.endWord.after ts := by
  unfold endWord
  simp only [after_word, after_words, after_between, after_connective]
  split_ifs <;> rfl

theorem after_step (c : Char) : (s.after ts).step c = (s.step c).after ts := by
  unfold step
  simp only [after_word, after_quoted, after_depth, after_connective, after_endWord]
  split_ifs <;> rfl

theorem after_foldl (text : Text) :
    text.foldl step (s.after ts) = (text.foldl step s).after ts := by
  induction text generalizing s with
  | nil => rfl
  | cons c text ih => rw [foldl_cons, after_step, ih, foldl_cons]

/-- A text that is complete ends in no quotes, no call and no `between`. -/
theorem result_eq_some {s : Scan} {ts : List (Token Text)} (h : s.result = some ts) :
    s.quoted = false ∧ s.depth = 0 ∧ s.endWord.between = false ∧ s.endWord.endAtom.tokens = ts := by
  unfold result at h
  split_ifs at h with hc
  cases h
  simpa [and_assoc] using hc

theorem endAtom_eq (s : Scan) :
    s.endAtom.word = s.word ∧ s.endAtom.quoted = s.quoted ∧ s.endAtom.depth = s.depth := by
  unfold endAtom
  split_ifs <;> exact ⟨rfl, rfl, rfl⟩

theorem endWord_eq (s : Scan) :
    s.endWord.word = [] ∧ s.endWord.quoted = s.quoted ∧ s.endWord.depth = s.depth := by
  have hconnective : ∀ t, (s.connective t).word = [] ∧ (s.connective t).quoted = s.quoted ∧
      (s.connective t).depth = s.depth := fun t => ⟨rfl, s.endAtom_eq.2⟩
  unfold endWord
  split_ifs with hempty
  · exact ⟨isEmpty_iff.mp hempty, rfl, rfl⟩
  · exact ⟨rfl, rfl, rfl⟩
  · exact hconnective .and
  · exact hconnective .or
  · exact hconnective .not
  · exact ⟨rfl, rfl, rfl⟩

/-- The word `and`, between words. -/
theorem step_and {s : Scan} (hword : s.word = []) (hquoted : s.quoted = false)
    (hdepth : s.depth = 0) (hbetween : s.between = false) :
    (((s.step 'a').step 'n').step 'd').step ' ' = empty.after (s.endAtom.tokens ++ [.and]) := by
  obtain ⟨tokens, words, word, quoted, depth, between⟩ := s
  obtain rfl : word = [] := hword
  obtain rfl : quoted = false := hquoted
  obtain rfl : depth = 0 := hdepth
  obtain rfl : between = false := hbetween
  cases words with
  | nil | cons w ws => simp [step, push, endWord, is, connective, endAtom, after, empty]

/-- **After ` and ` the scan begins anew**, with the tokens so far and the connective. -/
theorem foldl_and {s : Scan} {ts : List (Token Text)} (h : s.result = some ts) :
    " and ".toList.foldl step s = empty.after (ts ++ [.and]) := by
  obtain ⟨hquoted, hdepth, hbetween, rfl⟩ := result_eq_some h
  obtain ⟨hword, hquoted', hdepth'⟩ := s.endWord_eq
  have hblank : s.step ' ' = s.endWord := by simp [step, hquoted, hdepth]
  change ((((s.step ' ').step 'a').step 'n').step 'd').step ' ' = _
  rw [hblank]
  exact step_and hword (hquoted'.trans hquoted) (hdepth'.trans hdepth) hbetween

theorem result_after {s : Scan} {us : List (Token Text)} (h : s.result = some us)
    (ts : List (Token Text)) : (s.after ts).result = some (ts ++ us) := by
  obtain ⟨hquoted, hdepth, hbetween, rfl⟩ := result_eq_some h
  unfold result
  rw [after_endWord, after_endAtom]
  simp [hquoted, hdepth, hbetween, after]

end Scan

/-- **The tokens of a text.** -/
def scan (text : Text) : Option (List (Token Text)) := (text.foldl Scan.step .empty).result

theorem scan_and (s t : Text) (ts us : List (Token Text)) (hs : scan s = some ts)
    (ht : scan t = some us) : scan (s ++ " and ".toList ++ t) = some (ts ++ .and :: us) := by
  unfold scan
  rw [foldl_append, foldl_append, Scan.foldl_and hs, Scan.after_foldl,
    Scan.result_after ht, append_assoc]
  rfl

/-- **A lexer**: words, with quoted text and calls, and atoms of several of them. -/
def sqlLexer : Lexer := ⟨scan, scan_and⟩

/-! ### Fragments with and without a disjunction -/

/-- A `DeleteBuilder` with these calls of `Where`. -/
def deleting (clauses : List (WhereClause ℕ)) : Builder ℕ := .delete ⟨"items".toList, clauses⟩

/-- A fragment. -/
def withinTenant : WhereClause ℕ := ⟨"tenant = ?".toList, [7]⟩

end Bluetape.Sqlkit
