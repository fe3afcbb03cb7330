import Mathlib.Data.List.Basic

/-!
# Reading conditions with precedence

A condition is written with atoms, `and`, `or`, `not` and parentheses, where `not` binds more
tightly than `and`, and `and` more tightly than `or`. What it means is a truth value for each
valuation of its atoms; there are three of them (`Cond.Truth`), as in SQL, and a condition
*holds* if the value is `Cond.Truth.yes`.

The reader (`Cond.step`) goes through the tokens from left to right with a stack of
**frames** (`Cond.Frame`), one for each open parenthesis: the disjuncts that are complete, the
conjuncts of the one that is being read, and either that an operand has just been read, or how
many `not`s wait for one. So a list of tokens has at most one reading (`Cond.read`), and
precedence is in the steps: `and` adds a conjunct, `or` closes the conjuncts read so far into a
disjunct.

What this file is for is the reading of conditions that are **joined by `and`**
(`Cond.joinAnd`). Each of them is read as it is read by itself, with what has been read of those
before it in the frame at the bottom (`Cond.run_lift`). So the joined condition is a disjunction,
too, in which the last alternative of each condition is glued to the first one of the next
(`Cond.Frame.lift`, `Cond.read_joinAnd`). It holds whenever all of them do; and it means no more
than that exactly if each of its alternatives implies each of them (`Cond.holds_joinAnd_iff`). That
is so if there is only one, or if none of them is a disjunction by itself (`Cond.entails_of_plain`).
-/

namespace Cond

open Option List

/-! ### Truth values -/

/-- A truth value. -/
inductive Truth where
  | yes
  | no
  | unknown
  deriving DecidableEq, Repr

namespace Truth

/-- `and`. -/
def and : Truth → Truth → Truth
  | .no, _ | _, .no => .no
  | .yes, .yes => .yes
  | _, _ => .unknown

/-- `or`. -/
def or : Truth → Truth → Truth
  | .yes, _ | _, .yes => .yes
  | .no, .no => .no
  | _, _ => .unknown

/-- `not`. -/
def not : Truth → Truth
  | .yes => .no
  | .no => .yes
  | .unknown => .unknown

theorem and_eq_yes {a b : Truth} : a.and b = .yes ↔ a = .yes ∧ b = .yes := by
  cases a <;> cases b <;> decide

theorem or_eq_yes {a b : Truth} : a.or b = .yes ↔ a = .yes ∨ b = .yes := by
  cases a <;> cases b <;> decide

theorem and_assoc (a b c : Truth) : (a.and b).and c = a.and (b.and c) := by
  cases a <;> cases b <;> cases c <;> rfl

theorem yes_and (a : Truth) : Truth.yes.and a = a := by cases a <;> rfl

end Truth

/-! ### Tokens and frames -/

/-- A token, over atoms `A`. -/
inductive Token (A : Type) where
  | atom (a : A)
  | not
  | and
  | or
  | lparen
  | rparen
  deriving DecidableEq, Repr

variable {A : Type}

/-- What a condition means: its truth value, for each valuation of the atoms. -/
abbrev Meaning (A : Type) := (A → Truth) → Truth

/-- All of them. -/
def conj (ms : List (Meaning A)) : Meaning A := fun row =>
  ms.foldr (fun m t => (m row).and t) .yes

/-- Both of them. -/
def both (m n : Meaning A) : Meaning A := fun row => (m row).and (n row)

/-- One of them. -/
def disj (ms : List (Meaning A)) : Meaning A := fun row =>
  ms.foldr (fun m t => (m row).or t) .no

/-- So many times not. -/
def negate : ℕ → Meaning A → Meaning A
  | 0, m => m
  | n + 1, m => fun row => (negate n m row).not

/-- What has been read since a parenthesis. -/
structure Frame (A : Type) where
  terms : List (Meaning A)
  factors : List (Meaning A)
  /-- The `not`s in front of the operand that has to come next; `none` if one has just been
  read. -/
  pending : Option ℕ

/-- Nothing yet. -/
def Frame.empty : Frame A := ⟨[], [], some 0⟩

/-- Its disjuncts, with the one that is being read. -/
def Frame.alternatives (f : Frame A) : List (Meaning A) := f.terms ++ [conj f.factors]

/-- What it means. -/
def Frame.meaning (f : Frame A) : Meaning A := disj f.alternatives

/-- An operand is read. -/
def Frame.operand (f : Frame A) (m : Meaning A) : Option (Frame A) :=
  f.pending.map fun n => { f with factors := f.factors ++ [negate n m], pending := none }

/-- The frames: the one that is being read, and those of the parentheses around it. -/
structure Stack (A : Type) where
  top : Frame A
  below : List (Frame A)

/-- **One token is read.** -/
def step (s : Stack A) : Token A → Option (Stack A)
  | .atom a => (s.top.operand fun row => row a).map fun f => { s with top := f }
  | .not => s.top.pending.map fun n => { s with top := { s.top with pending := some (n + 1) } }
  | .lparen => s.top.pending.map fun _ => ⟨.empty, s.top :: s.below⟩
  | .rparen =>
    if s.top.pending.isSome then none
    else match s.below with
      | [] => none
      | f :: below => (f.operand s.top.meaning).map fun f => ⟨f, below⟩
  | .and =>
    if s.top.pending.isSome then none
    else some { s with top := { s.top with pending := some 0 } }
  | .or =>
    if s.top.pending.isSome then none
    else some { s with top := ⟨s.top.terms ++ [conj s.top.factors], [], some 0⟩ }

/-- The tokens are read, one after the other. -/
def run (s : Stack A) : List (Token A) → Option (Stack A)
  | [] => some s
  | t :: ts => (step s t).bind fun s' => run s' ts

/-- **A condition is read**: all of it, with an operand at its end, and with all parentheses
closed. -/
def read (ts : List (Token A)) : Option (Frame A) :=
  (run ⟨.empty, []⟩ ts).bind fun s =>
    if s.below.isEmpty && s.top.pending.isNone then some s.top else none

/-- **It holds** for a valuation. -/
def Holds (row : A → Truth) (ts : List (Token A)) : Prop :=
  ∃ f, read ts = some f ∧ f.meaning row = .yes

instance instDecidableHolds (row : A → Truth) (ts : List (Token A)) : Decidable (Holds row ts) :=
  match h : read ts with
  | none => .isFalse fun ⟨_, hf, _⟩ => by rw [h] at hf; cases hf
  | some f =>
    if hf : f.meaning row = .yes then .isTrue ⟨f, h, hf⟩
    else .isFalse fun ⟨f', hf', hm⟩ => by
      rw [h] at hf'
      cases hf'
      exact hf hm

/-! ### Several conditions -/

theorem run_append (s : Stack A) (ts us : List (Token A)) :
    run s (ts ++ us) = (run s ts).bind fun s' => run s' us := by
  induction ts generalizing s with
  | nil => rfl
  | cons t ts ih =>
    change (step s t).bind _ = ((step s t).bind _).bind _
    rw [Option.bind_assoc]
    congr 1
    funext s'
    exact ih s'

variable {row : A → Truth}

theorem conj_eq_yes {ms : List (Meaning A)} : conj ms row = .yes ↔ ∀ m ∈ ms, m row = .yes := by
  induction ms with
  | nil => simp [conj]
  | cons m ms ih =>
    rw [forall_mem_cons, ← ih]
    exact Truth.and_eq_yes

theorem disj_eq_yes {ms : List (Meaning A)} : disj ms row = .yes ↔ ∃ m ∈ ms, m row = .yes := by
  induction ms with
  | nil => simp [disj]
  | cons m ms ih =>
    rw [exists_mem_cons_iff, ← ih]
    exact Truth.or_eq_yes

theorem conj_append (ms ns : List (Meaning A)) : conj (ms ++ ns) = both (conj ms) (conj ns) := by
  funext row
  induction ms with
  | nil => exact (Truth.yes_and _).symm
  | cons m ms ih =>
    change (m row).and (conj (ms ++ ns) row) = ((m row).and (conj ms row)).and (conj ns row)
    rw [ih, Truth.and_assoc]
    rfl

variable {f g : Frame A}

theorem Frame.meaning_eq_yes : f.meaning row = .yes ↔ ∃ m ∈ f.alternatives, m row = .yes :=
  disj_eq_yes

/-- **One condition in front of another**, in one frame: the last alternative of the one is glued
to the first of the other. -/
def Frame.lift (f g : Frame A) : Frame A :=
  match g.terms with
  | [] => ⟨f.terms, f.factors ++ g.factors, g.pending⟩
  | m :: ms => ⟨f.terms ++ both (conj f.factors) m :: ms, g.factors, g.pending⟩

theorem Frame.lift_pending (f g : Frame A) : (f.lift g).pending = g.pending := by
  unfold Frame.lift
  split <;> rfl

theorem Frame.lift_with_pending (f g : Frame A) (pending : Option ℕ) :
    { f.lift g with pending := pending } = f.lift { g with pending := pending } := by
  unfold Frame.lift
  cases g.terms <;> rfl

theorem Frame.lift_operand (f g : Frame A) (m : Meaning A) :
    (f.lift g).operand m = (g.operand m).map f.lift := by
  unfold Frame.operand
  rw [Frame.lift_pending]
  cases hp : g.pending with
  | none => rfl
  | some n =>
    unfold Frame.lift
    cases g.terms with
    | nil => simp
    | cons t ts => simp

/-- What is glued together. -/
theorem Frame.alternatives_lift (f g : Frame A) :
    ∃ first rest, g.alternatives = first :: rest ∧
      (f.lift g).alternatives = f.terms ++ both (conj f.factors) first :: rest := by
  unfold Frame.lift
  cases ht : g.terms with
  | nil =>
    refine ⟨conj g.factors, [], by simp [Frame.alternatives, ht], ?_⟩
    simp [Frame.alternatives, conj_append]
  | cons m ms =>
    exact ⟨m, ms ++ [conj g.factors], by simp [Frame.alternatives, ht],
      by simp [Frame.alternatives]⟩

/-- **If both hold, one of the alternatives does.** -/
theorem Frame.meaning_lift (hf : f.meaning row = .yes) (hg : g.meaning row = .yes) :
    (f.lift g).meaning row = .yes := by
  obtain ⟨first, rest, halts, hlift⟩ := f.alternatives_lift g
  obtain ⟨m, hm, hyes⟩ := Frame.meaning_eq_yes.mp hf
  obtain ⟨n, hn, hyes'⟩ := Frame.meaning_eq_yes.mp hg
  rw [Frame.meaning_eq_yes, hlift]
  rcases mem_append.mp hm with hterm | hlast
  · exact ⟨m, mem_append_left _ hterm, hyes⟩
  · cases mem_singleton.mp hlast
    rw [halts] at hn
    rcases mem_cons.mp hn with rfl | hrest
    · exact ⟨_, mem_append_right _ mem_cons_self, Truth.and_eq_yes.mpr ⟨hyes, hyes'⟩⟩
    · exact ⟨n, mem_append_right _ (mem_cons_of_mem _ hrest), hyes'⟩

/-- In the frame at the bottom. -/
def liftBelow (f : Frame A) : List (Frame A) → List (Frame A)
  | [] => []
  | [g] => [f.lift g]
  | g :: g' :: below => g :: liftBelow f (g' :: below)

/-- In the frame at the bottom of a stack. -/
def Stack.lift (f : Frame A) (s : Stack A) : Stack A :=
  match s.below with
  | [] => ⟨f.lift s.top, []⟩
  | g :: below => ⟨s.top, liftBelow f (g :: below)⟩

variable {s s' : Stack A}

/-- An `or` closes what has been read of both. -/
theorem Frame.lift_or (f g : Frame A) :
    (⟨(f.lift g).terms ++ [conj (f.lift g).factors], [], some 0⟩ : Frame A) =
      f.lift ⟨g.terms ++ [conj g.factors], [], some 0⟩ := by
  unfold Frame.lift
  cases ht : g.terms with
  | nil => simp [conj_append]
  | cons m ms => simp

/-- **A token is read in the same way** behind another condition. -/
theorem step_lift {t : Token A} (f : Frame A) (h : step s t = some s') :
    step (s.lift f) t = some (s'.lift f) := by
  obtain ⟨top, below⟩ := s
  cases t with
  | atom a =>
    obtain ⟨g, hg, rfl⟩ := map_eq_some_iff.mp h
    cases below with
    | nil =>
      change ((f.lift top).operand _).map _ = _
      rw [Frame.lift_operand, hg]
      rfl
    | cons g' below =>
      change (top.operand _).map _ = _
      rw [hg]
      rfl
  | not =>
    obtain ⟨n, hn, rfl⟩ := map_eq_some_iff.mp h
    cases below with
    | nil =>
      change (f.lift top).pending.map _ = _
      rw [Frame.lift_pending, hn]
      exact congrArg (fun g => some (Stack.mk g [])) (f.lift_with_pending top (some (n + 1)))
    | cons g below =>
      change top.pending.map _ = _
      rw [hn]
      rfl
  | lparen =>
    obtain ⟨n, hn, rfl⟩ := map_eq_some_iff.mp h
    cases below with
    | nil =>
      change (f.lift top).pending.map _ = _
      rw [Frame.lift_pending, hn]
      rfl
    | cons g below =>
      change top.pending.map _ = _
      rw [hn]
      rfl
  | and =>
    simp only [step] at h
    split_ifs at h with hp
    cases h
    cases below with
    | nil =>
      refine (if_neg (by rwa [← Frame.lift_pending f top] at hp)).trans ?_
      exact congrArg (fun g => some (Stack.mk g [])) (f.lift_with_pending top (some 0))
    | cons g below => exact if_neg hp
  | or =>
    simp only [step] at h
    split_ifs at h with hp
    cases h
    cases below with
    | nil =>
      refine (if_neg (by rwa [← Frame.lift_pending f top] at hp)).trans (congrArg some ?_)
      exact congrArg (Stack.mk · []) (f.lift_or top)
    | cons g below => exact if_neg hp
  | rparen =>
    simp only [step] at h
    split_ifs at h with hp
    cases below with
    | nil => cases h
    | cons g below =>
      obtain ⟨g', hg', rfl⟩ := map_eq_some_iff.mp h
      cases below with
      | nil =>
        refine (if_neg hp).trans ?_
        change ((f.lift g).operand top.meaning).map _ = _
        rw [Frame.lift_operand, hg']
        rfl
      | cons g'' below =>
        refine (if_neg hp).trans ?_
        change (g.operand top.meaning).map _ = _
        rw [hg']
        rfl

variable {ts : List (Token A)}

/-- **A condition is read as it is by itself** behind another one. -/
theorem run_lift (f : Frame A) (h : run s ts = some s') : run (s.lift f) ts = some (s'.lift f) := by
  induction ts generalizing s with
  | nil =>
    cases h
    rfl
  | cons t ts ih =>
    obtain ⟨s₁, h₁, hrest⟩ := bind_eq_some_iff.mp h
    change (step (s.lift f) t).bind _ = _
    rw [step_lift f h₁]
    exact ih hrest

theorem read_eq_some :
    read ts = some f ↔ run ⟨.empty, []⟩ ts = some ⟨f, []⟩ ∧ f.pending = none := by
  constructor
  · intro h
    obtain ⟨⟨top, below⟩, hrun, hif⟩ := bind_eq_some_iff.mp h
    split_ifs at hif with hend
    cases hif
    obtain ⟨hbelow, hpending⟩ := Bool.and_eq_true_iff.mp hend
    obtain rfl := isEmpty_iff.mp hbelow
    exact ⟨hrun, isNone_iff_eq_none.mp hpending⟩
  · rintro ⟨hrun, hpending⟩
    rw [read, hrun]
    simp [hpending]

theorem holds_iff_meaning (hf : read ts = some f) : Holds row ts ↔ f.meaning row = .yes := by
  constructor
  · rintro ⟨f', hf', hyes⟩
    obtain rfl := mem_unique hf hf'
    exact hyes
  · exact fun hyes => ⟨f, hf, hyes⟩

/-- Conditions, one after the other, with `and` between them. -/
def joinAnd : List (List (Token A)) → List (Token A)
  | [] => []
  | [ts] => ts
  | ts :: us :: rest => ts ++ .and :: joinAnd (us :: rest)

/-- Their frames, in one. -/
def joined : List (Frame A) → Frame A
  | [] => .empty
  | [f] => f
  | f :: g :: rest => f.lift (joined (g :: rest))

/-- **Conditions that are joined are read**, with their alternatives glued together. -/
theorem read_joinAnd {tss : List (List (Token A))} {frames : List (Frame A)} (hne : tss ≠ [])
    (hread : Forall₂ (fun ts f => read ts = some f) tss frames) :
    read (joinAnd tss) = some (joined frames) := by
  induction hread with
  | nil => exact absurd rfl hne
  | @cons ts f tss frames hf hrest ih =>
    cases hrest with
    | nil => exact hf
    | cons hg hrest' =>
      obtain ⟨hrun, hpending⟩ := read_eq_some.mp (ih (cons_ne_nil _ _))
      obtain ⟨hfrun, hfpending⟩ := read_eq_some.mp hf
      refine read_eq_some.mpr ⟨?_, (Frame.lift_pending _ _).trans hpending⟩
      rw [joinAnd, run_append, hfrun]
      -- behind an `and`, the next condition begins in the frame of the one before it
      have hand : step ⟨f, []⟩ .and = some (Stack.lift f ⟨.empty, []⟩) := by
        simp [step, hfpending, Stack.lift, Frame.lift, Frame.empty]
      change (step ⟨f, []⟩ .and).bind _ = _
      rw [hand]
      exact run_lift f hrun

/-- **Conditions that all hold, hold joined.** -/
theorem meaning_joined {frames : List (Frame A)} (hne : frames ≠ [])
    (h : ∀ f ∈ frames, f.meaning row = .yes) : (joined frames).meaning row = .yes := by
  induction frames with
  | nil => exact absurd rfl hne
  | cons f rest ih =>
    cases rest with
    | nil => exact h f mem_cons_self
    | cons g rest =>
      exact Frame.meaning_lift (h f mem_cons_self)
        (ih (cons_ne_nil g rest) fun f' hf' => h f' (mem_cons_of_mem f hf'))

/-- The alternatives of conditions that are joined. -/
def alternatives (tss : List (List (Token A))) : List (Meaning A) :=
  (joined (tss.filterMap read)).alternatives

/-- **Each alternative implies each condition.** -/
def Entails (tss : List (List (Token A))) : Prop :=
  ∀ m ∈ alternatives tss, ∀ ts ∈ tss, ∀ row, m row = .yes → Holds row ts

theorem forall₂_filterMap {tss : List (List (Token A))}
    (hread : ∀ ts ∈ tss, (read ts).isSome = true) :
    Forall₂ (fun ts f => read ts = some f) tss (tss.filterMap read) := by
  induction tss with
  | nil => exact .nil
  | cons ts tss ih =>
    obtain ⟨hts, hrest⟩ := forall_mem_cons.mp hread
    obtain ⟨f, hf⟩ := isSome_iff_exists.mp hts
    rw [filterMap_cons_some hf]
    exact .cons hf (ih hrest)

/-- **Conditions joined by `and`** can be read; they hold if all of them do, and mean no more than
that exactly if each of the alternatives implies each of them. -/
theorem holds_joinAnd_iff {tss : List (List (Token A))} (hne : tss ≠ [])
    (hread : ∀ ts ∈ tss, (read ts).isSome = true) :
    (read (joinAnd tss)).isSome = true ∧
      (∀ row, (∀ ts ∈ tss, Holds row ts) → Holds row (joinAnd tss)) ∧
      ((∀ row, Holds row (joinAnd tss) ↔ ∀ ts ∈ tss, Holds row ts) ↔ Entails tss) := by
  have hframes := forall₂_filterMap hread
  have hjoined := read_joinAnd hne hframes
  have hall : ∀ row, (∀ ts ∈ tss, Holds row ts) → Holds row (joinAnd tss) := by
    intro row hrow
    refine (holds_iff_meaning hjoined).mpr (meaning_joined ?_ fun f hf => ?_)
    · intro hnil
      rw [hnil] at hframes
      cases hframes
      exact hne rfl
    · obtain ⟨ts, hts, hfts⟩ := mem_filterMap.mp hf
      exact (holds_iff_meaning hfts).mp (hrow ts hts)
  refine ⟨by rw [hjoined]; rfl, hall, fun h m hm ts hts row hyes => ?_, fun h row => ⟨?_, hall row⟩⟩
  · refine (h row).mp ((holds_iff_meaning hjoined).mpr ?_) ts hts
    exact Frame.meaning_eq_yes.mpr ⟨m, hm, hyes⟩
  · intro hrow ts hts
    obtain ⟨m, hm, hyes⟩ := Frame.meaning_eq_yes.mp ((holds_iff_meaning hjoined).mp hrow)
    exact h m hm ts hts row hyes

/-- Without disjunctions there is one alternative: all conjuncts. -/
theorem joined_plain (frames : List (Frame A)) (h : ∀ f ∈ frames, f.terms = []) :
    (joined frames).terms = [] ∧
      ∀ f ∈ frames, ∀ m ∈ f.factors, m ∈ (joined frames).factors := by
  induction frames with
  | nil => exact ⟨rfl, nofun⟩
  | cons f rest ih =>
    obtain ⟨hf, hrest⟩ := forall_mem_cons.mp h
    cases rest with
    | nil => exact ⟨hf, by simp [joined]⟩
    | cons g rest =>
      obtain ⟨hterms, hfactors⟩ := ih hrest
      have hlift : joined (f :: g :: rest) =
          ⟨f.terms, f.factors ++ (joined (g :: rest)).factors, (joined (g :: rest)).pending⟩ := by
        rw [joined, Frame.lift, hterms]
      rw [hlift]
      refine ⟨hf, forall_mem_cons.mpr ⟨fun m hm => mem_append_left _ hm, ?_⟩⟩
      exact fun f' hf' m hm => mem_append_right _ (hfactors f' hf' m hm)

/-- **One condition, or conditions that are no disjunctions, are implied by the alternatives.** -/
theorem entails_of_plain {tss : List (List (Token A))}
    (hread : ∀ ts ∈ tss, (read ts).isSome = true)
    (hdisj : tss.length = 1 ∨ ∀ ts ∈ tss, ∀ f, read ts = some f → f.terms = []) : Entails tss := by
  intro m hm ts hts row hyes
  obtain ⟨f, hf⟩ := isSome_iff_exists.mp (hread ts hts)
  rw [holds_iff_meaning hf]
  rcases hdisj with hone | hplain
  · obtain ⟨us, rfl⟩ := length_eq_one_iff.mp hone
    obtain rfl := mem_singleton.mp hts
    rw [alternatives, filterMap_cons_some hf] at hm
    exact Frame.meaning_eq_yes.mpr ⟨m, hm, hyes⟩
  · have hmem : f ∈ tss.filterMap read := mem_filterMap.mpr ⟨ts, hts, hf⟩
    obtain ⟨hterms, hfactors⟩ := joined_plain (tss.filterMap read) fun f hf => by
      obtain ⟨us, hus, hread⟩ := mem_filterMap.mp hf
      exact hplain us hus f hread
    rw [alternatives, Frame.alternatives, hterms, nil_append, mem_singleton] at hm
    rw [hm, conj_eq_yes] at hyes
    refine Frame.meaning_eq_yes.mpr ⟨conj f.factors, mem_append_right _ mem_cons_self, ?_⟩
    exact conj_eq_yes.mpr fun m' hm' => hyes m' (hfactors f hmem m' hm')

end Cond
