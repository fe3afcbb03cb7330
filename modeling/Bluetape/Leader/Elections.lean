import Bluetape.Leader.Strategic
import Mathlib.Data.Prod.Lex

/-!
# Election strategies

Each node lists the candidates and elects one of them by itself, so a strategy is of use only if it
elects the same one whatever the order of the list. `Elect` sorts a copy of the list, by the time
of registration and the node or by the node alone, and picks the first, one at random – from a seed
and a hash of the sorted nodes – or the first with the greatest score.

The sort is that of the standard library, which is not stable, and so is the generator (`Runtime`).
Where no two candidates have the same node there is only one sorted list (`Runtime.sort_eq_sort`),
and that is why nodes agree (`elections_agree`).
-/

namespace Bluetape.Leader.Strategic

open GoString List

variable {α κ μ σ : Type}

/-- What elections use of the standard library. -/
structure Runtime (α : Type) where
  /-- `sort.Slice`. -/
  sort : (α → α → Bool) → List α → List α
  perm : ∀ less l, (sort less l).Perm l
  sorted : ∀ {κ : Type} [LinearOrder κ] (key : α → κ) less l,
    (∀ a b, less a b = true ↔ key a < key b) → (sort less l).Pairwise fun a b => key a ≤ key b
  /-- `IntN` of a new generator, with the two halves of its seed. -/
  intN : UInt64 → UInt64 → ℕ → ℕ
  intN_lt : ∀ seed hash n, 0 < n → intN seed hash n < n

/-- Arrays, by their addresses. -/
abbrev Memory (α : Type) := List (List α)

/-- The array at an address. -/
def Memory.read (m : Memory α) (p : ℕ) : List α := m.getD p []

/-! ### Elect -/

/-- A copy of the array is appended to nil, and sorted in its place. -/
def sortCopy (R : Runtime α) (less : α → α → Bool) (m : Memory α) (p : ℕ) : Memory α × ℕ :=
  let copied := m ++ [m.read p]
  (copied.set m.length (R.sort less (copied.read m.length)), m.length)

/-- `Elect`: a copy is sorted, and one candidate picked. -/
def electFrom (sort : Memory α → ℕ → Memory α × ℕ) (pick : List α → Option α) (m : Memory α)
    (p : ℕ) : Option α × Memory α :=
  let (m, sorted) := sort m p
  (pick (m.read sorted), m)

/-- `RegisteredAt` in nanoseconds since 1970; the zero time is the beginning of the year 1. -/
def CandidateInfo.instant (c : CandidateInfo μ) : ℤ :=
  c.registeredAt.getD (-62135596800 * Go.second)

/-- The comparison of `sortCandidates`. -/
def fifoLess (left right : CandidateInfo μ) : Bool :=
  if left.instant = right.instant then decide (left.nodeID < right.nodeID)
  else decide (left.instant < right.instant)

/-- The comparison of `sortCandidatesByNodeID`. -/
def nodeLess (left right : CandidateInfo μ) : Bool := decide (left.nodeID < right.nodeID)

/-- `sortCandidates`. -/
def sortCandidates (R : Runtime (CandidateInfo μ)) := sortCopy R fifoLess

/-- `sortCandidatesByNodeID`. -/
def sortCandidatesByNodeID (R : Runtime (CandidateInfo μ)) := sortCopy R nodeLess

/-- `Write` of `fnv.New64a`. -/
def fnvWrite (hash : UInt64) (bytes : List UInt8) : UInt64 :=
  bytes.foldl (fun hash b => (hash ^^^ b.toUInt64) * 1099511628211) hash

/-- `hashCandidateIDs`: each node, and a zero byte. -/
def hashCandidateIDs (candidates : List (CandidateInfo μ)) : UInt64 :=
  candidates.foldl (fun hash c => fnvWrite (fnvWrite hash c.nodeID) [0])
    14695981039346656037

/-- What `RandomStrategy` picks. -/
def pickRandom (R : Runtime (CandidateInfo μ)) (seed : UInt64) (sorted : List (CandidateInfo μ)) :
    Option (CandidateInfo μ) :=
  if sorted.isEmpty then none
  else sorted[R.intN seed (hashCandidateIDs sorted) sorted.length]?

variable [LinearOrder σ]

/-- The loop of `ScoredStrategy`. -/
def highest (score : α → σ) (winner : α) : List α → α
  | [] => winner
  | c :: cs => if score winner < score c then highest score c cs else highest score winner cs

/-- What `ScoredStrategy` picks. -/
def pickHighest (scorer : α → List α → σ) : List α → Option α
  | [] => none
  | winner :: rest => some (highest (scorer · (winner :: rest)) winner rest)

/-- The strategies. -/
inductive Strategy (μ σ : Type) where
  | fifo
  | random (seed : UInt64)
  /-- The scorer may be nil. -/
  | scored (scorer : Option (CandidateInfo μ → List (CandidateInfo μ) → σ))

/-- `Elect`, of each strategy. -/
def elect (R : Runtime (CandidateInfo μ)) (m : Memory (CandidateInfo μ)) (p : ℕ) :
    Strategy μ σ → Option (CandidateInfo μ) × Memory (CandidateInfo μ)
  | .fifo => electFrom (sortCandidates R) head? m p
  | .random seed => electFrom (sortCandidatesByNodeID R) (pickRandom R seed) m p
  | .scored none => (none, m)
  | .scored (some scorer) => electFrom (sortCandidates R) (pickHighest scorer) m p

/-! ### Sorted lists -/

section

variable [LinearOrder κ] {key : α → κ} {less : α → α → Bool}
  (hless : ∀ a b, less a b = true ↔ key a < key b)

include hless in
/-- **There is one sorted list**, where keys tell the elements apart. -/
theorem Runtime.sort_eq_sort (R : Runtime α) {l l' : List α}
    (hkey : ∀ a ∈ l, ∀ b ∈ l, key a = key b → a = b) (hperm : l.Perm l') :
    R.sort less l = R.sort less l' := by
  refine Perm.eq_of_pairwise (fun a b ha hb hab hba => ?_) (R.sorted key less l hless)
    (R.sorted key less l' hless) ((R.perm less l).trans (hperm.trans (R.perm less l').symm))
  refine hkey a ((R.perm less l).mem_iff.mp ha) b ?_ (le_antisymm hab hba)
  exact hperm.mem_iff.mpr ((R.perm less l').mem_iff.mp hb)

include hless in
/-- **The same element is picked from both lists**, and what was in memory stays as it is. -/
theorem electFrom_agree (R : Runtime α) {m m' : Memory α} {p p' : ℕ} (hne : m.read p ≠ [])
    (hkey : ∀ a ∈ m.read p, ∀ b ∈ m.read p, key a = key b → a = b)
    (hperm : (m.read p).Perm (m'.read p')) {pick : List α → Option α}
    {P : α → α → Prop} (hpick : ∀ first rest, R.sort less (m.read p) = first :: rest →
      (first :: rest).Pairwise (fun a b => key a ≤ key b) →
        ∃ c ∈ first :: rest, pick (first :: rest) = some c ∧ ∀ d ∈ first :: rest, P c d) :
    (∃ c ∈ m.read p, (electFrom (sortCopy R less) pick m p).1 = some c ∧
      (electFrom (sortCopy R less) pick m' p').1 = some c ∧ ∀ d ∈ m.read p, P c d) ∧
      ∀ q < m.length, (electFrom (sortCopy R less) pick m p).2.read q = m.read q := by
  have helect : ∀ (m : Memory α) (p : ℕ), electFrom (sortCopy R less) pick m p =
      (pick (R.sort less (m.read p)), m ++ [R.sort less (m.read p)]) := fun m p => by
    simp [electFrom, sortCopy, Memory.read]
  have hsame := Runtime.sort_eq_sort hless R hkey hperm
  have hsort := R.perm less (m.read p)
  rw [helect, helect, ← hsame]
  refine ⟨?_, fun q hq => ?_⟩
  · obtain ⟨first, rest, hcons⟩ := exists_cons_of_ne_nil (l := R.sort less (m.read p))
      fun hnil => hne (hnil ▸ hsort).nil_eq.symm
    obtain ⟨c, hc, hpicked, hall⟩ := hpick first rest hcons (hcons ▸ R.sorted key less _ hless)
    rw [hcons] at hsort ⊢
    exact ⟨c, hsort.mem_iff.mp hc, hpicked, hpicked, fun d hd => hall d (hsort.mem_iff.mpr hd)⟩
  · simp only [Memory.read, getD_eq_getElem?_getD, getElem?_append_left hq]

/-- **The loop finds the first of those with the greatest score.** -/
theorem highest_spec (score : α → σ) {winner : α} {cs : List α}
    (h : (winner :: cs).Pairwise fun a b => key a ≤ key b) :
    highest score winner cs ∈ winner :: cs ∧ ∀ c ∈ winner :: cs,
      score c < score (highest score winner cs) ∨
        score c = score (highest score winner cs) ∧ key (highest score winner cs) ≤ key c := by
  induction cs generalizing winner with
  | nil => simp [highest]
  | cons c cs ih =>
    obtain ⟨hwinner, hc⟩ := pairwise_cons.mp h
    rw [highest]
    split_ifs with hlt
    · obtain ⟨hmem, hall⟩ := ih hc
      refine ⟨mem_cons_of_mem _ hmem, forall_mem_cons.mpr ⟨.inl ?_, hall⟩⟩
      rcases hall c mem_cons_self with hgt | ⟨heq, -⟩
      · exact hlt.trans hgt
      · exact heq ▸ hlt
    · have hskip : (winner :: cs).Sublist (winner :: c :: cs) :=
        (sublist_cons_self c cs).cons_cons winner
      obtain ⟨hmem, hall⟩ := ih (h.sublist hskip)
      rw [forall_mem_cons] at hall
      refine ⟨hskip.subset hmem, forall_mem_cons.mpr ⟨hall.1, ?_⟩⟩
      refine forall_mem_cons.mpr ⟨?_, hall.2⟩
      rcases (not_lt.mp hlt).lt_or_eq with hless | heq
      · exact .inl (hall.1.elim hless.trans fun hw => hw.1 ▸ hless)
      · rw [heq]
        refine hall.1.imp_right fun hw => ⟨hw.1, hw.2.trans ?_⟩
        exact hwinner c mem_cons_self

end

/-! ### Who wins -/

/-- The order of `FifoStrategy`. -/
def CandidateInfo.fifo (c : CandidateInfo μ) : ℤ ×ₗ Text := toLex (c.instant, c.nodeID)

theorem fifoLess_iff (a b : CandidateInfo μ) : fifoLess a b = true ↔ a.fifo < b.fifo := by
  rw [CandidateInfo.fifo, CandidateInfo.fifo, Prod.Lex.toLex_lt_toLex, fifoLess]
  split_ifs with heq
  · simp [heq]
  · simp [heq]

/-- How the winner compares with another candidate; scores are those for the sorted list. -/
def Wins (R : Runtime (CandidateInfo μ)) (l : List (CandidateInfo μ)) (c d : CandidateInfo μ) :
    Strategy μ σ → Prop
  | .fifo => c.fifo ≤ d.fifo
  | .random _ => True
  | .scored none => False
  | .scored (some scorer) =>
    scorer d (R.sort fifoLess l) < scorer c (R.sort fifoLess l) ∨
      scorer d (R.sort fifoLess l) = scorer c (R.sort fifoLess l) ∧ c.fifo ≤ d.fifo

/-- **Nodes agree on whom they elect**, from lists of the same candidates in any order, if no two
candidates have the same node. -/
theorem elections_agree (R : Runtime (CandidateInfo μ)) (m m' : Memory (CandidateInfo μ))
    (p p' : ℕ) (hne : m.read p ≠ []) (hnodup : ((m.read p).map CandidateInfo.nodeID).Nodup)
    (hperm : (m.read p).Perm (m'.read p')) {s : Strategy μ σ} (hs : s ≠ .scored none) :
    (∃ c ∈ m.read p, (elect R m p s).1 = some c ∧ (elect R m' p' s).1 = some c ∧
      ∀ d ∈ m.read p, Wins R (m.read p) c d s) ∧
      ∀ q < m.length, (elect R m p s).2.read q = m.read q := by
  have hnode : ∀ a ∈ m.read p, ∀ b ∈ m.read p, a.nodeID = b.nodeID → a = b :=
    fun a ha b hb => inj_on_of_nodup_map hnodup ha hb
  have hfifo : ∀ a ∈ m.read p, ∀ b ∈ m.read p, a.fifo = b.fifo → a = b :=
    fun a ha b hb heq => hnode a ha b hb (congrArg (fun k => (ofLex k).2) heq)
  cases s with
  | fifo =>
    refine electFrom_agree fifoLess_iff R hne hfifo hperm fun first rest _ hsorted => ?_
    refine ⟨first, mem_cons_self, rfl, forall_mem_cons.mpr ⟨le_rfl, ?_⟩⟩
    exact (pairwise_cons.mp hsorted).1
  | random seed =>
    refine electFrom_agree (fun _ _ => decide_eq_true_iff) R hne hnode hperm
      fun first rest _ _ => ?_
    have hlt := R.intN_lt seed (hashCandidateIDs (first :: rest)) _ (Nat.succ_pos rest.length)
    exact ⟨_, getElem_mem hlt, getElem?_eq_getElem hlt, fun _ _ => trivial⟩
  | scored scorer =>
    cases scorer with
    | none => exact absurd rfl hs
    | some scorer =>
      refine electFrom_agree fifoLess_iff R hne hfifo hperm fun first rest hcons hsorted => ?_
      obtain ⟨hmem, hall⟩ := highest_spec (scorer · (first :: rest)) hsorted
      exact ⟨_, hmem, rfl, fun d hd => by rw [Wins, hcons]; exact hall d hd⟩

/-- Insertion sort, and a generator that gives zeros. -/
def Runtime.simple : Runtime α where
  sort less l := l.insertionSort fun a b => less b a = false
  perm _ l := perm_insertionSort _ l
  sorted key less l hless := by
    have hle : ∀ a b, less b a = false ↔ key a ≤ key b := fun a b => by
      rw [← Bool.not_eq_true, hless, not_lt]
    have htotal : Std.Total fun a b => less b a = false :=
      ⟨fun a b => by simpa only [hle] using le_total (key a) (key b)⟩
    have htrans : IsTrans _ fun a b => less b a = false :=
      ⟨fun a b c => by simpa only [hle] using le_trans⟩
    exact (pairwise_insertionSort _ l).imp fun h => (hle _ _).mp h
  intN _ _ _ := 0
  intN_lt _ _ _ h := h

/-- Two candidates with the same score. -/
def tied : List (CandidateInfo ℕ) := [⟨ascii "a", some 7, 3⟩, ⟨ascii "b", some 5, 3⟩]

/-- The one that was registered first wins, on both nodes. -/
theorem elections_agree_tied :
    (elect .simple [tied.reverse] 0 (.scored (some fun c _ => c.rest))).1 =
      some ⟨ascii "b", some 5, 3⟩ := by
  have hfirst : (elect .simple [tied] 0 (.scored (some fun c _ => c.rest))).1 =
      some ⟨ascii "b", some 5, 3⟩ := by decide +kernel
  obtain ⟨⟨c, -, helect, helect', -⟩, -⟩ := elections_agree (σ := ℕ) .simple [tied]
    [tied.reverse] 0 0 (by decide) (by decide) (reverse_perm tied).symm
    (s := .scored (some fun c _ => c.rest)) (by rintro ⟨⟩)
  rw [helect', ← helect, hfirst]

end Bluetape.Leader.Strategic
