import Mathlib.Data.Fintype.Perm

/-!
# The permutations of a slice

`Permutations` swaps the values of one buffer, in place, and hands out copies of it. From the index
`start` on it enumerates the permutations that leave the indices before `start` where they are
(`mem_orders_iff`): the swap brings every value to `start` once, and the rest is left to the
recursion. The buffer is restored behind each of them, also if the consumer stops, and so what the
consumer sees is a list that does not depend on it (`generate_eq`).
-/

namespace Bluetape.Collections

open List Equiv

variable {α σ : Type} {n : ℕ}

/-! ### The code -/

/-- The slice of the caller, and the buffer. -/
structure Slices (α : Type) (n : ℕ) where
  values : List α
  work : Fin n → α

/-- `work[i], work[j] = work[j], work[i]`. -/
def Slices.swap (m : Slices α n) (i j : Fin n) : Slices α n :=
  { m with work := fun k => if k = i then m.work j else if k = j then m.work i else m.work k }

def generateLoop (start : Fin n) (generate : Slices α n → σ → Bool × Slices α n × σ) :
    List (Fin n) → Slices α n → σ → Bool × Slices α n × σ
  | [], m, s => (true, m, s)
  | index :: indices, m, s =>
    match generate (m.swap start index) s with
    | (false, m, s) => (false, m.swap start index, s)
    | (true, m, s) => generateLoop start generate indices (m.swap start index) s

/-- The state `s` is that of the consumer, which says whether it wants another one. -/
def generate (yield : σ → List α → Bool × σ) (start : ℕ) (m : Slices α n) (s : σ) :
    Bool × Slices α n × σ :=
  if h : start < n then
    generateLoop ⟨start, h⟩ (fun m s => generate yield (start + 1) m s)
      ((List.finRange n).filter (start ≤ ·.val)) m s
  else
    let (more, s) := yield s (List.ofFn m.work)
    (more, m, s)
termination_by n - start

/-- The slice of the caller when the iteration is over, and the state of the consumer. -/
def permutations (values : List α) (yield : σ → List α → Bool × σ) (s : σ) : List α × σ :=
  if values.length = 0 then (values, (yield s []).2)
  else
    let (_, m, s) := generate yield 0 ⟨values, values.get⟩ s
    (m.values, s)

/-! ### The enumeration -/

/-- A consumer is given a list, until it stops. -/
def consume (yield : σ → List α → Bool × σ) : σ → List (List α) → Bool × σ
  | s, [] => (true, s)
  | s, xs :: rest =>
    match yield s xs with
    | (false, s) => (false, s)
    | (true, s) => consume yield s rest

theorem consume_append (yield : σ → List α → Bool × σ) (s : σ) (xs ys : List (List α)) :
    consume yield s (xs ++ ys) =
      match consume yield s xs with
      | (false, s) => (false, s)
      | (true, s) => consume yield s ys := by
  induction xs generalizing s with
  | nil => rfl
  | cons x xs ih =>
    rw [cons_append, consume, consume]
    rcases yield s x with ⟨more, s'⟩
    cases more with
    | false => rfl
    | true => exact ih s'

/-- The permutations that are enumerated from `start` on. -/
def orders (start : ℕ) : List (Perm (Fin n)) :=
  if h : start < n then
    ((List.finRange n).filter (start ≤ ·.val)).flatMap fun index =>
      (orders (start + 1)).map (Equiv.swap ⟨start, h⟩ index * ·)
  else [1]
termination_by n - start

theorem mem_orders_iff {start : ℕ} {p : Perm (Fin n)} :
    p ∈ orders start ↔ ∀ k : Fin n, k < start → p k = k := by
  fun_induction orders (n := n) start generalizing p with
  | case1 start h ih =>
    have hfix {index k : Fin n} (hindex : start ≤ index.val) (hk : k.val < start) :
        Equiv.swap ⟨start, h⟩ index k = k := swap_apply_of_ne_of_ne
      (fun heq => by rw [heq] at hk; exact lt_irrefl _ hk) fun heq => by rw [heq] at hk; omega
    simp only [mem_flatMap, mem_filter, mem_finRange, true_and, decide_eq_true_eq, mem_map]
    constructor
    · rintro ⟨index, hindex, q, hq, rfl⟩ k hk
      rw [Perm.mul_apply, ih.mp hq k (by omega), hfix hindex hk]
    · intro hp
      have hindex : start ≤ (p ⟨start, h⟩).val := by
        -- A smaller one is where it was, so `start` is not there.
        by_contra hlt
        exact hlt (congrArg Fin.val (p.injective (hp _ (not_le.mp hlt)))).ge
      refine ⟨p ⟨start, h⟩, hindex, Equiv.swap ⟨start, h⟩ (p ⟨start, h⟩) * p, ih.mpr fun k hk => ?_,
        swap_mul_self_mul _ _ _⟩
      rw [Perm.mul_apply]
      rcases (Nat.lt_succ_iff.mp hk).eq_or_lt with heq | hlt
      · rw [show k = ⟨start, h⟩ from Fin.ext heq, swap_apply_right]
      · rw [hp k hlt, hfix hindex hlt]
  | case2 start h =>
    rw [mem_singleton]
    exact ⟨fun hp k _ => hp ▸ rfl, fun hp => ext fun k => hp k (by omega)⟩

theorem nodup_orders (start : ℕ) : (orders start : List (Perm (Fin n))).Nodup := by
  fun_induction orders (n := n) start with
  | case1 start h ih =>
    refine nodup_flatMap.mpr ⟨fun index _ => ih.map (mul_right_injective _), ?_⟩
    refine ((nodup_finRange n).filter _).imp fun {i j} hne => ?_
    -- They differ in what comes to `start`.
    rintro p hi hj
    obtain ⟨q, hq, rfl⟩ := mem_map.mp hi
    obtain ⟨q', hq', heq⟩ := mem_map.mp hj
    have := congrFun (congrArg DFunLike.coe heq) ⟨start, h⟩
    rw [Perm.mul_apply, Perm.mul_apply, mem_orders_iff.mp hq _ (Nat.lt_succ_self _),
      mem_orders_iff.mp hq' _ (Nat.lt_succ_self _), swap_apply_left,
      swap_apply_left] at this
    exact hne this.symm
  | case2 start h => exact nodup_singleton _

/-! ### The buffer -/

theorem Slices.swap_eq (m : Slices α n) (i j : Fin n) :
    m.swap i j = ⟨m.values, m.work ∘ Equiv.swap i j⟩ := by
  unfold Slices.swap
  congr 1
  funext k
  rw [Function.comp_apply, swap_apply_def, apply_ite m.work, apply_ite m.work]

theorem Slices.swap_swap (m : Slices α n) (i j : Fin n) : (m.swap i j).swap i j = m := by
  rw [swap_eq, swap_eq, Function.comp_assoc, ← Perm.coe_mul, swap_mul_self]
  rfl

/-- What a copy of the buffer is after a permutation. -/
def Slices.copy (m : Slices α n) (p : Perm (Fin n)) : List α := List.ofFn (m.work ∘ p)

/-- **What the consumer sees, and the buffer is as before.** -/
theorem generate_eq (yield : σ → List α → Bool × σ) (start : ℕ) (m : Slices α n) (s : σ) :
    generate yield start m s =
      let (more, s) := consume yield s ((orders start).map m.copy)
      (more, m, s) := by
  fun_induction orders (n := n) start generalizing m s with
  | case1 start h ih =>
    rw [generate, dif_pos h]
    induction (List.finRange n).filter (start ≤ ·.val) generalizing s with
    | nil => rfl
    | cons index indices ihl =>
      have hcopy : ((orders (start + 1)).map (Equiv.swap ⟨start, h⟩ index * ·)).map m.copy =
          (orders (start + 1)).map (m.swap ⟨start, h⟩ index).copy := by
        rw [map_map, Slices.swap_eq]
        rfl
      rw [generateLoop, ih, flatMap_cons, map_append, consume_append, hcopy]
      rcases consume yield s ((orders (start + 1)).map (m.swap ⟨start, h⟩ index).copy) with
        ⟨more, s'⟩
      cases more with
      | false => simp only [Slices.swap_swap]
      | true =>
        simp only [Slices.swap_swap]
        exact ihl s'
  | case2 start h =>
    rw [generate, dif_neg h, map_singleton, consume]
    rcases hyield : yield s (List.ofFn m.work) with ⟨more, s'⟩
    have : yield s (m.copy 1) = (more, s') := hyield
    cases more <;> simp only [this, consume]

/-- **Each order of the positions comes once**, for every consumer until it stops, and the slice of
the caller is as before. -/
theorem permutations_eq (values : List α) :
    ∃ orders : List (Perm (Fin values.length)),
      orders.Nodup ∧ (∀ p, p ∈ orders) ∧ orders.length = values.length.factorial ∧
      (∀ p ∈ orders, (Slices.copy ⟨values, values.get⟩ p).Perm values) ∧
      ∀ (σ : Type) (yield : σ → List α → Bool × σ) (s : σ), permutations values yield s =
        (values, (consume yield s (orders.map (Slices.copy ⟨values, values.get⟩))).2) := by
  have hall (p : Perm (Fin values.length)) : p ∈ orders 0 := mem_orders_iff.mpr nofun
  refine ⟨orders 0, nodup_orders 0, hall, ?_, fun p _ => ?_, fun σ yield s => ?_⟩
  · rw [← toFinset_card_of_nodup (nodup_orders 0),
      Finset.eq_univ_iff_forall.mpr fun p => mem_toFinset.mpr (hall p), Finset.card_univ,
      Fintype.card_perm, Fintype.card_fin]
  · exact (p.ofFn_comp_perm values.get).trans (.of_eq (ofFn_get values))
  · have heq := generate_eq yield 0 ⟨values, values.get⟩ s
    unfold permutations
    split_ifs with hempty
    · cases length_eq_zero_iff.mp hempty
      rw [← congrArg (fun r => r.2.2) heq, generate]
      rfl
    · rw [heq]

end Bluetape.Collections
