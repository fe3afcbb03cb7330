import Mathlib.Data.List.Infix

/-!
# Runs of a labelled transition system

A system is a state type, a label type and a partial step function: a label
that is not enabled in a state has no successor. Everything nondeterministic –
which party moves, what the environment answers, what a clock reads – is in the
label, so the step itself is a function and can be executed.

A **run** (`Lts.Run`) is kept together with its **history**, the list of its
events, newest first. The history is what temporal statements are about: it is
not part of the state, so a model does not have to carry ghost fields for what
a property wants to remember. Two shapes of statement are used throughout:

* an **invariant** of the states reached (`Lts.Run.invariant`), possibly only in
  runs all of whose steps meet a condition (`Lts.Run.invariant_of`);
* a property of **every step of a run**, which may look at the part of the
  history before that step (`Lts.Always`); it follows from an invariant
  (`Lts.Run.always`, `Lts.Run.always_of`), and two such properties can be compared along one run
  (`Lts.Run.always_iff`).

`Lts.replay` runs a list of labels, and `Lts.exists_run` turns an
evaluation into the existence of a run: this is how concrete runs are exhibited.

Parties are kept in a partial map, of which a step changes one place (`Lts.update_eq_some`), or in a
list: a call begins (`Lts.getElem?_concat`), moves on in its place (`Lts.getElem?_set_cases`) or
leaves (`Lts.mem_eraseIdx_of_ne`).
-/

namespace Lts

open Function List

variable {σ ε : Type}

/-- One step of a run: the state it left, the label, the state it reached. -/
structure Event (σ ε : Type) where
  before : σ
  label : ε
  after : σ

/-- **The runs of a system**, each with its history (newest event first) and the
state it has reached. -/
inductive Run (step : σ → ε → Option σ) (init : σ) : List (Event σ ε) → σ → Prop
  | nil : Run step init [] init
  | snoc {h : List (Event σ ε)} {s s' : σ} {e : ε} :
      Run step init h s → step s e = some s' → Run step init (⟨s, e, s'⟩ :: h) s'

/-- **Every step of a history has the property `P`**, which may look at what
happened before the step. -/
def Always (P : List (Event σ ε) → Event σ ε → Prop) (h : List (Event σ ε)) : Prop :=
  ∀ older ev, ev :: older <:+ h → P older ev

theorem always_nil (P : List (Event σ ε) → Event σ ε → Prop) : Always P [] := by
  intro older ev hsuf
  exact absurd (suffix_nil.mp hsuf) (cons_ne_nil ev older)

theorem always_cons (P : List (Event σ ε) → Event σ ε → Prop) (ev : Event σ ε)
    (h : List (Event σ ε)) : Always P (ev :: h) ↔ P h ev ∧ Always P h := by
  constructor
  · intro hall
    refine ⟨hall h ev (suffix_refl _), fun older ev' hsuf => ?_⟩
    exact hall older ev' (hsuf.trans (suffix_cons ev h))
  · rintro ⟨hev, hall⟩ older ev' hsuf
    rcases suffix_cons_iff.mp hsuf with heq | hsuf'
    · cases heq
      exact hev
    · exact hall older ev' hsuf'

/-- A step property that can be decided can be decided along a history. -/
instance instDecidableAlways (P : List (Event σ ε) → Event σ ε → Prop)
    [∀ older ev, Decidable (P older ev)] : (h : List (Event σ ε)) → Decidable (Always P h)
  | [] => isTrue (always_nil P)
  | ev :: h =>
    have := instDecidableAlways P h
    decidable_of_iff _ (always_cons P ev h).symm

/-- A property of single events holds of every step exactly when it holds of
every member of the history. -/
theorem always_iff_forall_mem {P : Event σ ε → Prop} {h : List (Event σ ε)} :
    Always (fun _ ev => P ev) h ↔ ∀ ev ∈ h, P ev := by
  induction h with
  | nil => exact iff_of_true (always_nil _) (by simp)
  | cons ev h ih => rw [always_cons, ih, forall_mem_cons]

section Runs

variable {step : σ → ε → Option σ} {init s : σ} {h : List (Event σ ε)}

section

variable (hr : Run step init h s)
include hr

/-- **The invariant rule**: what holds initially and is kept by every step holds
of every state a run reaches. -/
theorem Run.invariant {P : σ → Prop} (hinit : P init)
    (hstep : ∀ s e s', P s → step s e = some s' → P s') : P s := by
  induction hr with
  | nil => exact hinit
  | snoc _ he ih => exact hstep _ _ _ ih he

/-- **The invariant rule for guarded runs**: the steps need only keep the
invariant when they meet the condition `C`, and every step of the run does. The
invariant may mention the history. -/
theorem Run.invariant_of {P : List (Event σ ε) → σ → Prop}
    {C : List (Event σ ε) → Event σ ε → Prop} (hall : Always C h)
    (hinit : P [] init)
    (hstep : ∀ h s e s', P h s → step s e = some s' → C h ⟨s, e, s'⟩ →
      P (⟨s, e, s'⟩ :: h) s') : P h s := by
  induction hr with
  | nil => exact hinit
  | snoc _ he ih =>
    obtain ⟨hc, hall'⟩ := (always_cons _ _ _).mp hall
    exact hstep _ _ _ _ (ih hall') he hc

/-- **An invariant of the states**, that is kept by steps which meet a condition. -/
theorem Run.invariant_of_mem {P : σ → Prop} {C : Event σ ε → Prop} (hall : ∀ ev ∈ h, C ev)
    (hinit : P init) (hstep : ∀ s e s', P s → step s e = some s' → C ⟨s, e, s'⟩ → P s') : P s :=
  hr.invariant_of (P := fun _ => P) (always_iff_forall_mem.mpr hall) hinit fun _ => hstep

/-- **What every step does from a state with the invariant, every event of a history
does.** -/
theorem Run.forall_mem {I : σ → Prop} {Q : Event σ ε → Prop}
    (hinit : I init) (hstep : ∀ s e s', I s → step s e = some s' → I s')
    (hev : ∀ s e s', I s → step s e = some s' → Q ⟨s, e, s'⟩) : ∀ ev ∈ h, Q ev := by
  induction hr with
  | nil => exact forall_mem_nil Q
  | snoc hr' he ih =>
    exact forall_mem_cons.mpr ⟨hev _ _ _ (hr'.invariant hinit hstep) he, ih⟩

variable {I : List (Event σ ε) → σ → Prop}

/-- **The rule for step properties**: what an invariant of the states and their
histories gives at each step holds of every step of a run. -/
theorem Run.always {P : List (Event σ ε) → Event σ ε → Prop}
    (hinit : I [] init) (hstep : ∀ h s e s', I h s → step s e = some s' → I (⟨s, e, s'⟩ :: h) s')
    (hev : ∀ h s e s', I h s → step s e = some s' → P h ⟨s, e, s'⟩) : Always P h := by
  have key : I h s ∧ Always P h := by
    induction hr with
    | nil => exact ⟨hinit, always_nil P⟩
    | snoc _ he ih =>
      exact ⟨hstep _ _ _ _ ih.1 he, (always_cons _ _ _).mpr ⟨hev _ _ _ _ ih.1 he, ih.2⟩⟩
  exact key.2

/-- **The rule for step properties of guarded runs.** -/
theorem Run.always_of {C P : List (Event σ ε) → Event σ ε → Prop}
    (hall : Always C h) (hinit : I [] init)
    (hstep : ∀ h s e s', I h s → step s e = some s' → C h ⟨s, e, s'⟩ → I (⟨s, e, s'⟩ :: h) s')
    (hev : ∀ h s e s', I h s → step s e = some s' → C h ⟨s, e, s'⟩ → P h ⟨s, e, s'⟩) :
    Always P h := by
  induction hr with
  | nil => exact always_nil P
  | snoc hr' he ih =>
    obtain ⟨hc, hall'⟩ := (always_cons _ _ _).mp hall
    have hI := hr'.invariant_of hall' hinit hstep
    exact (always_cons _ _ _).mpr ⟨hev _ _ _ _ hI he hc, ih hall'⟩

/-- **Comparing two step properties along a run**: if an invariant makes them
equivalent at each step, one holds throughout exactly when the other does. The
invariant need only survive the steps that have the property. -/
theorem Run.always_iff {P Q : List (Event σ ε) → Event σ ε → Prop} (hinit : I [] init)
    (hstep : ∀ h s e s', I h s → step s e = some s' → P h ⟨s, e, s'⟩ → I (⟨s, e, s'⟩ :: h) s')
    (hiff : ∀ h s e s', I h s → step s e = some s' → (P h ⟨s, e, s'⟩ ↔ Q h ⟨s, e, s'⟩)) :
    Always P h ↔ Always Q h := by
  have key : (Always P h → I h s) ∧ (Always P h ↔ Always Q h) := by
    induction hr with
    | nil => exact ⟨fun _ => hinit, iff_of_true (always_nil _) (always_nil _)⟩
    | snoc _ he ih =>
      obtain ⟨hI, hPQ⟩ := ih
      rw [always_cons, always_cons]
      refine ⟨fun hall => hstep _ _ _ _ (hI hall.2) he hall.1, fun hall => ?_, fun hall => ?_⟩
      · exact ⟨(hiff _ _ _ _ (hI hall.2) he).mp hall.1, hPQ.mp hall.2⟩
      · have hP := hPQ.mpr hall.2
        exact ⟨(hiff _ _ _ _ (hI hP) he).mpr hall.1, hP⟩
  exact key.2

/-- Run a list of labels from a state, recording the history; `none` if some
label is not enabled. -/
def replay (step : σ → ε → Option σ) :
    List (Event σ ε) × σ → List ε → Option (List (Event σ ε) × σ)
  | c, [] => some c
  | (h, s), e :: es =>
    match step s e with
    | none => none
    | some s' => replay step (⟨s, e, s'⟩ :: h, s') es

theorem Run.of_replay {es : List ε} {c : List (Event σ ε) × σ}
    (hc : replay step (h, s) es = some c) : Run step init c.1 c.2 := by
  induction es generalizing h s with
  | nil =>
    cases hc
    exact hr
  | cons e es ih =>
    rw [replay] at hc
    cases he : step s e with
    | none =>
      rw [he] at hc
      cases hc
    | some s' =>
      rw [he] at hc
      exact ih (hr.snoc he) hc

end

/-- **A run from an evaluation**: if running the labels ends in a configuration
that has a decidable property, there is a run whose history and state have it. -/
theorem exists_run (step : σ → ε → Option σ) (init : σ) (es : List ε)
    (P : List (Event σ ε) → σ → Prop) [∀ h s, Decidable (P h s)]
    (he : (replay step ([], init) es).any (fun c => decide (P c.1 c.2)) = true) :
    ∃ h s, Run step init h s ∧ P h s := by
  obtain ⟨c, hc, hP⟩ := (Option.any_eq_true _ _).mp he
  exact ⟨c.1, c.2, Run.nil.of_replay hc, of_decide_eq_true hP⟩

theorem exists_cons_iff {P : Event σ ε → List (Event σ ε) → Prop} :
    (∃ ev older, h = ev :: older ∧ P ev older) ↔ ∃ ev ∈ h.head?, P ev h.tail := by
  constructor
  · rintro ⟨ev, older, rfl, hP⟩
    exact ⟨ev, rfl, hP⟩
  · rintro ⟨ev, hev, hP⟩
    exact ⟨ev, h.tail, (cons_head?_tail hev).symm, hP⟩

/-- What is said of the last step of a run can be evaluated. -/
instance {P : Event σ ε → List (Event σ ε) → Prop} [∀ ev older, Decidable (P ev older)] :
    Decidable (∃ ev older, h = ev :: older ∧ P ev older) :=
  decidable_of_iff _ exists_cons_iff.symm

end Runs

/-! ### Any number of parties -/

section Parties

variable {ι α : Type} [DecidableEq ι] {parties : ι → Option α} {i j : ι} {a b : α}

/-- Looking a party up after one was replaced. -/
theorem update_eq_some (h : update parties i (some b) j = some a) :
    (j = i ∧ a = b) ∨ (j ≠ i ∧ parties j = some a) := by
  by_cases hj : j = i
  · subst hj
    rw [update_self] at h
    exact .inl ⟨rfl, (Option.some.inj h).symm⟩
  · rw [update_of_ne hj] at h
    exact .inr ⟨hj, h⟩

/-- Looking a party up after one has left. -/
theorem update_none_eq_some (h : update parties i none j = some a) :
    j ≠ i ∧ parties j = some a := by
  by_cases hj : j = i
  · rw [hj, update_self] at h
    cases h
  · rw [update_of_ne hj] at h
    exact ⟨hj, h⟩

/-- A property of all parties survives the replacement of one. -/
theorem forall_update {P : α → Prop} (hall : ∀ j a, j ≠ i → parties j = some a → P a)
    (hb : P b) (h : update parties i (some b) j = some a) : P a := by
  rcases update_eq_some h with ⟨-, rfl⟩ | ⟨hj, h'⟩
  · exact hb
  · exact hall j a hj h'

end Parties

/-! ### Calls under way -/

section Calls

variable {α : Type} {calls : List α} {n : ℕ} {a : α}

/-- Counting the calls under way after one has ended. -/
theorem countP_eraseIdx_add (p : α → Bool) (h : calls[n]? = some a) :
    (calls.eraseIdx n).countP p + (if p a then 1 else 0) = calls.countP p := by
  induction calls generalizing n with
  | nil => cases h
  | cons c calls ih =>
    cases n with
    | zero =>
      cases h
      rw [eraseIdx_cons_zero, countP_cons]
    | succ n =>
      have hrest := ih (n := n) h
      rw [eraseIdx_cons_succ, countP_cons, countP_cons]
      omega

/-- Counting the calls under way after one has moved on. -/
theorem countP_set_add (p : α → Bool) (h : calls[n]? = some a) (b : α) :
    (calls.set n b).countP p + (if p a then 1 else 0) =
      calls.countP p + (if p b then 1 else 0) := by
  induction calls generalizing n with
  | nil => cases h
  | cons c calls ih =>
    cases n with
    | zero =>
      cases h
      rw [set_cons_zero, countP_cons, countP_cons]
      omega
    | succ n =>
      have hrest := ih (n := n) h
      rw [set_cons_succ, countP_cons, countP_cons]
      omega

/-- The call that has moved on is where it was. -/
theorem getElem?_set_of_some {b : α} (h : calls[n]? = some a) : (calls.set n b)[n]? = some b :=
  getElem?_set_self (List.getElem?_eq_some_iff.mp h).1

/-- Of the calls afterwards, one has moved on, and the others have not. -/
theorem getElem?_set_cases {b c : α} {k : ℕ} (hk : (calls.set n b)[k]? = some c) :
    (k = n ∧ c = b) ∨ (k ≠ n ∧ calls[k]? = some c) := by
  rw [getElem?_set] at hk
  split_ifs at hk with hkn
  · exact .inl ⟨hkn.symm, (Option.some.inj hk).symm⟩
  · exact .inr ⟨Ne.symm hkn, hk⟩

/-- Of the calls afterwards, the last one has just begun. -/
theorem getElem?_concat {b c : α} {k : ℕ} (hk : (calls ++ [b])[k]? = some c) :
    calls[k]? = some c ∨ (k = calls.length ∧ c = b) := by
  rcases Nat.lt_or_ge k calls.length with hlt | hge
  · exact .inl ((getElem?_append_left hlt).symm.trans hk)
  · rw [getElem?_append_right hge] at hk
    obtain ⟨hlt, -⟩ := List.getElem?_eq_some_iff.mp hk
    have hzero : k - calls.length = 0 := Nat.lt_one_iff.mp hlt
    rw [hzero] at hk
    exact .inr ⟨by omega, (Option.some.inj hk).symm⟩

theorem forall_getElem?_set {P : ℕ → α → Prop} {b : α} (h : ∀ k c, calls[k]? = some c → P k c)
    (hb : P n b) (k : ℕ) (c : α) (hk : (calls.set n b)[k]? = some c) : P k c := by
  rcases getElem?_set_cases hk with ⟨rfl, rfl⟩ | ⟨-, hold⟩
  · exact hb
  · exact h k c hold

theorem forall_getElem?_concat {P : ℕ → α → Prop} {b : α} (h : ∀ k c, calls[k]? = some c → P k c)
    (hb : P calls.length b) (k : ℕ) (c : α) (hk : (calls ++ [b])[k]? = some c) : P k c := by
  rcases getElem?_concat hk with hold | ⟨rfl, rfl⟩
  · exact h k c hold
  · exact hb

theorem mem_concat {b c : α} (h : c ∈ calls ++ [b]) : c ∈ calls ∨ c = b :=
  (mem_append.mp h).imp_right mem_singleton.mp

theorem forall_mem_concat {P : α → Prop} {b : α} (h : ∀ c ∈ calls, P c) (hb : P b) :
    ∀ c ∈ calls ++ [b], P c :=
  forall_mem_append.mpr ⟨h, forall_mem_singleton.mpr hb⟩

theorem forall_mem_set {P : α → Prop} {b : α} (h : ∀ c ∈ calls, P c) (hb : P b) :
    ∀ c ∈ calls.set n b, P c := fun c hc =>
  (mem_or_eq_of_mem_set hc).elim (h c) fun heq => heq ▸ hb

/-- A call is where it was after another one has begun. -/
theorem getElem?_concat_of_some {b : α} (h : calls[n]? = some a) :
    (calls ++ [b])[n]? = some a :=
  (getElem?_append_left (List.getElem?_eq_some_iff.mp h).1).trans h

/-- What is said of a call is still so after one has moved on, if it was said of that one too. -/
theorem exists_getElem?_set {P : α → Prop} {b : α} {k : ℕ} (h : calls[n]? = some a)
    (hex : ∃ c, calls[k]? = some c ∧ P c) (hab : k = n → P a → P b) :
    ∃ c, (calls.set n b)[k]? = some c ∧ P c := by
  obtain ⟨c, hc, hP⟩ := hex
  by_cases hnk : n = k
  · subst hnk
    obtain rfl := Option.mem_unique h hc
    exact ⟨b, getElem?_set_of_some h, hab rfl hP⟩
  · exact ⟨c, (getElem?_set_ne hnk).trans hc, hP⟩

theorem exists_mem_set {P : α → Prop} {b : α} (h : calls[n]? = some a) (hab : P a → P b)
    (hex : ∃ c ∈ calls, P c) : ∃ c ∈ calls.set n b, P c := by
  obtain ⟨c, hc, hP⟩ := hex
  obtain ⟨k, hk⟩ := mem_iff_getElem?.mp hc
  obtain ⟨c', hc', hP'⟩ := exists_getElem?_set h ⟨c, hk, hP⟩ fun _ => hab
  exact ⟨c', mem_of_getElem? hc', hP'⟩

/-- Another call is still there after one has moved on. -/
theorem mem_set_of_ne {b c : α} (h : calls[n]? = some a) (hc : c ∈ calls) (hne : c ≠ a) :
    c ∈ calls.set n b := by
  obtain ⟨k, hk⟩ := mem_iff_getElem?.mp hc
  have hnk : n ≠ k := by
    rintro rfl
    exact hne (Option.mem_unique hk h)
  exact mem_of_getElem? ((getElem?_set_ne hnk).trans hk)

/-- Another call is still there after one has ended. -/
theorem mem_eraseIdx_of_ne {c : α} (h : calls[n]? = some a) (hc : c ∈ calls) (hne : c ≠ a) :
    c ∈ calls.eraseIdx n := by
  obtain ⟨k, hk⟩ := mem_iff_getElem?.mp hc
  refine mem_eraseIdx_iff_getElem?.mpr ⟨k, ?_, hk⟩
  rintro rfl
  exact hne (Option.mem_unique hk h)

end Calls

end Lts
