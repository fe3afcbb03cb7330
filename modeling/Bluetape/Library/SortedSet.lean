import Mathlib.Data.List.Sort
import Bluetape.Library.Table

/-!
# Sorted sets

A sorted set has members, each with an integer score. It is a table of pairs whose key is
the member (`Keyed.Table`), and its operations are those of Redis: adding a member or
giving it a new score, removing it, removing the members whose score lies in a range,
counting, and looking a score up. Everything is said through the score:
`SortedSet.score_add_self`, `SortedSet.score_add_of_ne`, `SortedSet.score_remove_self`,
`SortedSet.score_remove_of_ne` and `SortedSet.score_removeRange`; and the count bounds the
number of members that have one (`SortedSet.finset_card_le`).

The members are listed by their scores, and those of one score by their own order
(`SortedSet.range`, `SortedSet.revRange`). Of the first ones of a list from the highest
score down, none has a lower score than a member that is not among them
(`SortedSet.score_le_of_not_mem_take`).
-/

/-- **A sorted set.** -/
abbrev SortedSet (α : Type) : Type := Keyed.Table (Prod.fst : α × ℤ → α)

namespace SortedSet

open List

variable {α : Type} [DecidableEq α] {s : SortedSet α} {a b : α} {x lo hi : ℤ}

/-- The set without members. -/
def empty : SortedSet α := Keyed.Table.empty Prod.fst

/-- `ZADD`. -/
def add (s : SortedSet α) (x : ℤ) (a : α) : SortedSet α := s.put (a, x)

/-- `ZREM`. -/
def remove (s : SortedSet α) (a : α) : SortedSet α := s.delete fun r => decide (r.1 = a)

/-- `ZREMRANGEBYSCORE`. -/
def removeRange (s : SortedSet α) (lo hi : ℤ) : SortedSet α :=
  s.delete fun r => decide (lo ≤ r.2) && decide (r.2 ≤ hi)

/-- `ZREMRANGEBYSCORE` from minus infinity. -/
def removeUpTo (s : SortedSet α) (hi : ℤ) : SortedSet α := s.delete fun r => decide (r.2 ≤ hi)

/-- `ZCARD`. -/
def card (s : SortedSet α) : ℕ := s.rows.length

/-- `ZSCORE`. -/
def score (s : SortedSet α) (a : α) : Option ℤ := (s.get a).map Prod.snd

/-- A score is a row. -/
theorem score_eq_some : s.score a = some x ↔ (a, x) ∈ s.rows := by
  rw [score, Option.map_eq_some_iff]
  constructor
  · rintro ⟨⟨b, z⟩, hget, rfl⟩
    obtain ⟨hmem, hb⟩ := Keyed.Table.get_eq_some.mp hget
    obtain rfl : b = a := hb
    exact hmem
  · intro hmem
    exact ⟨(a, x), Keyed.Table.get_eq_some.mpr ⟨hmem, rfl⟩, rfl⟩

/-- What is found of a set that may be gone is in it. -/
theorem score_of_gone {gone : Prop} [Decidable gone]
    (h : (if gone then empty else s).score a = some x) : s.score a = some x := by
  split_ifs at h
  · cases h
  · exact h

@[simp] theorem score_add_self : (s.add x a).score a = some x := by
  rw [score, add, Keyed.Table.get_put_self (r := (a, x))]
  rfl

theorem score_add_of_ne (h : b ≠ a) : (s.add x a).score b = s.score b := by
  rw [score, add, Keyed.Table.get_put_of_ne (r := (a, x)) h, score]

/-- The scores after an addition: the new one, and those of the others. -/
theorem score_of_add {z : ℤ} (h : (s.add x a).score b = some z) :
    (b = a ∧ z = x) ∨ (b ≠ a ∧ s.score b = some z) := by
  by_cases hba : b = a
  · rw [hba, score_add_self] at h
    exact .inl ⟨hba, (Option.some.inj h).symm⟩
  · rw [score_add_of_ne hba] at h
    exact .inr ⟨hba, h⟩

@[simp] theorem score_remove_self : (s.remove a).score a = none := by
  rw [score, remove, Keyed.Table.get_delete_key, Option.map_none]

theorem score_remove_of_ne (h : b ≠ a) : (s.remove a).score b = s.score b := by
  rw [score, remove, Keyed.Table.get_delete, score]
  obtain hnone | ⟨r, hr⟩ := Option.eq_none_or_eq_some (s.get b)
  · rw [hnone, Option.filter_none]
  · obtain ⟨-, rfl⟩ := Keyed.Table.get_eq_some.mp hr
    rw [hr, Option.filter_some_pos (by simpa using h)]

theorem score_of_remove {z : ℤ} (h : (s.remove a).score b = some z) :
    b ≠ a ∧ s.score b = some z := by
  by_cases hba : b = a
  · rw [hba, score_remove_self] at h
    cases h
  · rw [score_remove_of_ne hba] at h
    exact ⟨hba, h⟩

/-- **What a range removal leaves.** -/
theorem score_removeRange :
    (s.removeRange lo hi).score a =
      (s.score a).filter fun x => !(decide (lo ≤ x) && decide (x ≤ hi)) := by
  rw [score, removeRange, Keyed.Table.get_delete, score]
  obtain hnone | ⟨r, hr⟩ := Option.eq_none_or_eq_some (s.get a)
  · rw [hnone]
    rfl
  · rw [hr, Option.map_some, Option.filter_some, Option.filter_some]
    split_ifs <;> rfl

theorem score_eq_some_of_removeRange (h : (s.removeRange lo hi).score a = some x) :
    s.score a = some x ∧ (x < lo ∨ hi < x) := by
  rw [score_removeRange, Option.filter_eq_some_iff] at h
  simpa using h

/-- A score out of the range stays. -/
theorem score_removeRange_of_lt (h : s.score a = some x) (hx : hi < x) :
    (s.removeRange lo hi).score a = some x := by
  rw [score_removeRange, h, Option.filter_some_pos]
  simp [hx]

/-- **What is left has a score above the bound.** -/
theorem score_removeUpTo : (s.removeUpTo hi).score a = some x ↔ s.score a = some x ∧ hi < x := by
  rw [score_eq_some, removeUpTo, Keyed.Table.mem_delete, score_eq_some, decide_eq_false_iff_not,
    not_le]

theorem card_add_le : (s.add x a).card ≤ s.card + 1 := Keyed.Table.length_put_le

/-- A new score for a member adds none. -/
theorem card_add_of_score {x' : ℤ} (h : s.score a = some x') : (s.add x a).card ≤ s.card := by
  obtain ⟨r, hr, -⟩ := Option.map_eq_some_iff.mp h
  exact Keyed.Table.length_put_of_get (r := (a, x)) hr

omit [DecidableEq α] in
theorem card_removeRange_le : (s.removeRange lo hi).card ≤ s.card := Keyed.Table.length_delete_le

omit [DecidableEq α] in
theorem card_removeUpTo_le : (s.removeUpTo hi).card ≤ s.card := Keyed.Table.length_delete_le

theorem card_remove_le : (s.remove a).card ≤ s.card := Keyed.Table.length_delete_le

/-- **Members are no more than the count.** -/
theorem finset_card_le {S : Finset α} (h : ∀ a ∈ S, s.score a ≠ none) : S.card ≤ s.card := by
  refine Keyed.Table.card_le_length fun a ha hnone => h a ha ?_
  rw [score, hnone, Option.map_none]

/-- **The count is the number of members.** -/
theorem exists_finset_card (s : SortedSet α) :
    ∃ S : Finset α, S.card = s.card ∧ ∀ a ∈ S, ∃ x, s.score a = some x := by
  refine ⟨(s.rows.map Prod.fst).toFinset, ?_, fun a ha => ?_⟩
  · rw [toFinset_card_of_nodup s.nodup_keys, length_map]
    rfl
  · obtain ⟨⟨b, x⟩, hmem, rfl⟩ := mem_map.mp (mem_toFinset.mp ha)
    exact ⟨x, score_eq_some.mpr hmem⟩

/-! ### In the order of the scores -/

section Ranges

variable [LE α] [DecidableLE α]

/-- The order of the rows: by score, then by member. -/
def Before (r r' : α × ℤ) : Prop := r.2 < r'.2 ∨ (r.2 = r'.2 ∧ r.1 ≤ r'.1)

instance instDecidableRelBefore : DecidableRel (Before : α × ℤ → α × ℤ → Prop) := fun r r' =>
  inferInstanceAs (Decidable (r.2 < r'.2 ∨ (r.2 = r'.2 ∧ r.1 ≤ r'.1)))

instance instTotalBefore [Std.IsLinearOrder α] : Std.Total (Before : α × ℤ → α × ℤ → Prop) where
  total r r' := by
    rcases lt_trichotomy r.2 r'.2 with hlt | heq | hgt
    · exact .inl (.inl hlt)
    · rcases Std.le_total (a := r.1) (b := r'.1) with hle | hle
      · exact .inl (.inr ⟨heq, hle⟩)
      · exact .inr (.inr ⟨heq.symm, hle⟩)
    · exact .inr (.inl hgt)

instance instIsTransBefore [Std.IsLinearOrder α] : IsTrans (α × ℤ) Before where
  trans r r' r'' h h' := by
    rcases h with hlt | ⟨heq, hle⟩
    · rcases h' with hlt' | ⟨heq', -⟩
      · exact .inl (hlt.trans hlt')
      · exact .inl (hlt.trans_eq heq')
    · rcases h' with hlt' | ⟨heq', hle'⟩
      · exact .inl (heq.trans_lt hlt')
      · exact .inr ⟨heq.trans heq', Std.le_trans hle hle'⟩

/-- `ZRANGE` of all members. -/
def range (s : SortedSet α) : List α := (s.rows.insertionSort Before).map Prod.fst

/-- `ZREVRANGE` of all members. -/
def revRange (s : SortedSet α) : List α := s.range.reverse

theorem mem_range : a ∈ s.range ↔ ∃ x, s.score a = some x := by
  rw [range, mem_map]
  constructor
  · rintro ⟨⟨b, x⟩, hmem, rfl⟩
    exact ⟨x, score_eq_some.mpr ((mem_insertionSort Before).mp hmem)⟩
  · rintro ⟨x, hx⟩
    exact ⟨(a, x), (mem_insertionSort Before).mpr (score_eq_some.mp hx), rfl⟩

theorem mem_revRange : a ∈ s.revRange ↔ ∃ x, s.score a = some x := by
  rw [revRange, mem_reverse, mem_range]

omit [DecidableEq α] in
theorem nodup_range : s.range.Nodup := by
  rw [range]
  exact (((perm_insertionSort Before s.rows).map Prod.fst).nodup_iff).mpr s.nodup_keys

omit [DecidableEq α] in
theorem nodup_revRange : s.revRange.Nodup := nodup_reverse.mpr nodup_range

/-- **From the highest score down.** -/
theorem pairwise_revRange [Std.IsLinearOrder α] :
    s.revRange.Pairwise fun a b => ∀ x y, s.score a = some x → s.score b = some y → y ≤ x := by
  rw [revRange, pairwise_reverse, range, pairwise_map]
  refine (pairwise_insertionSort Before s.rows).imp_of_mem fun {r r'} hr hr' hbefore => ?_
  intro x y hx hy
  have hrx : s.score r'.1 = some r'.2 :=
    score_eq_some.mpr ((mem_insertionSort Before).mp hr')
  have hry : s.score r.1 = some r.2 := score_eq_some.mpr ((mem_insertionSort Before).mp hr)
  obtain rfl := Option.mem_unique hrx hx
  obtain rfl := Option.mem_unique hry hy
  rcases hbefore with hlt | ⟨heq, -⟩
  · exact hlt.le
  · exact heq.le

/-- **The first ones have the highest scores.** -/
theorem score_le_of_not_mem_take [Std.IsLinearOrder α] {p : α → Bool} {n : ℕ} {x y : ℤ}
    (ha : a ∈ (s.revRange.filter p).take n) (hb : b ∈ s.revRange.filter p)
    (hb' : b ∉ (s.revRange.filter p).take n) (hx : s.score a = some x) (hy : s.score b = some y) :
    y ≤ x := by
  have hpair := pairwise_revRange.filter (l := s.revRange) p
  rw [← take_append_drop n (s.revRange.filter p)] at hpair hb
  have hdrop := (mem_append.mp hb).resolve_left hb'
  exact (pairwise_append.mp hpair).2.2 a ha b hdrop x y hx hy

end Ranges

end SortedSet
