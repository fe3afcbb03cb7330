import Mathlib.Data.Nat.Notation

/-!
# Loops that end

A loop is a function that, from a state, either goes on with another state or leaves with a
result. If something becomes smaller each time it goes on, it ends, and it is a total function
(`Loop.run`) that still computes: it is run with as much fuel as is needed, and the fuel is
never used up (`Loop.isSome_iterate`).

What holds after a loop is proved from the state outwards (`Loop.run_induction`): for the state
in which it leaves, and for a state if it holds for the one after. An invariant is the special
case in which only the result is spoken of (`Loop.run_invariant`).
-/

namespace Loop

variable {σ β : Type}

/-- Going on at most `n` times. -/
def iterate (step : σ → σ ⊕ β) : ℕ → σ → Option β
  | 0, _ => none
  | n + 1, s =>
    match step s with
    | .inl s' => iterate step n s'
    | .inr b => some b

/-- Each time the loop goes on, `m` becomes smaller. -/
def Decreases (step : σ → σ ⊕ β) (m : σ → ℕ) : Prop := ∀ s s', step s = .inl s' → m s' < m s

theorem isSome_iterate {step : σ → σ ⊕ β} {m : σ → ℕ} (hm : Decreases step m) :
    ∀ n s, m s < n → (iterate step n s).isSome = true := by
  intro n
  induction n with
  | zero => exact fun s hlt => absurd hlt (Nat.not_lt_zero _)
  | succ n ih =>
    intro s hlt
    unfold iterate
    cases hs : step s with
    | inl s' => exact ih s' (Nat.lt_of_lt_of_le (hm s s' hs) (Nat.lt_succ_iff.mp hlt))
    | inr b => rfl

/-- **A loop that ends.** -/
def run (step : σ → σ ⊕ β) (m : σ → ℕ) (hm : Decreases step m) (s : σ) : β :=
  (iterate step (m s + 1) s).get (isSome_iterate hm (m s + 1) s (Nat.lt_succ_self _))

/-- More fuel changes nothing. -/
theorem iterate_eq_of_le {step : σ → σ ⊕ β} {b : β} :
    ∀ n k s, n ≤ k → iterate step n s = some b → iterate step k s = some b := by
  intro n
  induction n with
  | zero => exact fun k s _ h => nomatch h.symm
  | succ n ih =>
    intro k s hle h
    obtain ⟨k, rfl⟩ : ∃ k', k = k' + 1 := ⟨k - 1, by omega⟩
    unfold iterate at h ⊢
    cases hs : step s with
    | inl s' =>
      rw [hs] at h
      exact ih k s' (Nat.le_of_succ_le_succ hle) h
    | inr b' =>
      rw [hs] at h
      exact h

section

variable {step : σ → σ ⊕ β} {m : σ → ℕ} {hm : Decreases step m}

theorem run_eq_of_inr {s : σ} {b : β} (h : step s = .inr b) : run step m hm s = b := by
  refine Option.get_of_eq_some _ ?_
  rw [iterate, h]

theorem run_eq_of_inl {s s' : σ} (h : step s = .inl s') : run step m hm s = run step m hm s' := by
  have hlt : m s' + 1 ≤ m s := hm s s' h
  have hrun : iterate step (m s' + 1) s' = some (run step m hm s') :=
    (Option.some_get (isSome_iterate hm (m s' + 1) s' (Nat.lt_succ_self _))).symm
  have hmore := iterate_eq_of_le _ _ s' hlt hrun
  refine Option.get_of_eq_some _ ?_
  rw [iterate, h]
  exact hmore

/-- **What holds of a loop's result**: it holds where the loop leaves, and of a state if it
holds of the state after. -/
theorem run_induction {P : σ → β → Prop} (hnext : ∀ s s' b, step s = .inl s' → P s' b → P s b)
    (hexit : ∀ s b, step s = .inr b → P s b) (s : σ) : P s (run step m hm s) := by
  induction hn : m s using Nat.strongRecOn generalizing s with
  | _ n ih =>
    cases hs : step s with
    | inl s' =>
      rw [run_eq_of_inl hs]
      exact hnext s s' _ hs (ih (m s') (hn ▸ hm s s' hs) s' rfl)
    | inr b =>
      rw [run_eq_of_inr hs]
      exact hexit s b hs

/-- An invariant of the loop, and what it gives where the loop leaves. -/
theorem run_invariant {I : σ → Prop} {Q : β → Prop} (hnext : ∀ s s', I s → step s = .inl s' → I s')
    (hexit : ∀ s b, I s → step s = .inr b → Q b) {s : σ} (h : I s) : Q (run step m hm s) :=
  run_induction (P := fun s b => I s → Q b) (fun s s' _ hs ih hi => ih (hnext s s' hi hs))
    (fun s b hs hi => hexit s b hi hs) s h

end

end Loop
