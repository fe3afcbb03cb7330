import Mathlib.Data.Finset.Card

/-!
# Tables with a primary key

A table is a list of rows, no two of which have the same key: the constraint is a
field of the type (`Keyed.Table`), so that a table that violates it cannot be
built. What a row is and what its key is are parameters.

The statements have the form SQL gives them:

* `Keyed.Table.insert` – a row whose key is not taken;
* `Keyed.Table.update` – an assignment to the rows a condition selects; the
  assignment does not touch the key;
* `Keyed.Table.affected` – the number of rows an update selects, which is what a
  database driver reports;
* `Keyed.Table.delete` – the rows a condition selects go;
* `Keyed.Table.put` – a row in the place of the one with its key, if there is one.

Everything is then said through the lookup of a key, `Keyed.Table.get`: an update
acts on what is found (`Keyed.Table.get_update`), and an update whose condition
names a key affects one row (`Keyed.Table.affected_eq_one`) or none
(`Keyed.Table.affected_eq_zero`).
-/

namespace Keyed

open Function List

/-- **A table**: rows with distinct keys. -/
structure Table {κ α : Type} (key : α → κ) where
  rows : List α
  nodup_keys : (rows.map key).Nodup

namespace Table

variable {κ α : Type} {key : α → κ}

@[ext] theorem ext {t u : Table key} (h : t.rows = u.rows) : t = u := by
  cases t
  cases u
  cases h
  rfl

instance instDecidableEq [DecidableEq α] : DecidableEq (Table key) := fun t u =>
  decidable_of_iff (t.rows = u.rows) ⟨ext, congrArg rows⟩

/-- The table without rows. -/
def empty (key : α → κ) : Table key := ⟨[], nodup_nil⟩

/-- Rows of one table with the same key are the same row. -/
theorem eq_of_key_eq (t : Table key) {r r' : α} (hr : r ∈ t.rows) (hr' : r' ∈ t.rows)
    (h : key r = key r') : r = r' :=
  inj_on_of_nodup_map t.nodup_keys hr hr' h

/-! ### Updates -/

/-- Assigning to some rows without touching the key leaves the keys as they are. -/
theorem map_key_update (rows : List α) (p : α → Bool) {f : α → α}
    (hf : ∀ r, key (f r) = key r) :
    (rows.map fun r => if p r then f r else r).map key = rows.map key := by
  rw [map_map]
  refine map_congr_left fun r _ => ?_
  rw [comp_apply]
  split
  · exact hf r
  · rfl

/-- `update … set f where p`. -/
def update (t : Table key) (p : α → Bool) (f : α → α) (hf : ∀ r, key (f r) = key r) :
    Table key :=
  ⟨t.rows.map fun r => if p r then f r else r, (map_key_update t.rows p hf).symm ▸ t.nodup_keys⟩

/-- The number of rows `update … where p` reports. -/
def affected (t : Table key) (p : α → Bool) : ℕ := t.rows.countP p

variable {t : Table key} {p : α → Bool} {f : α → α} {hf : ∀ r, key (f r) = key r}

/-- **An update that selects no row changes nothing.** -/
theorem update_of_forall_not (h : ∀ r ∈ t.rows, p r = false) : t.update p f hf = t := by
  refine ext ?_
  conv_rhs => rw [← map_id t.rows]
  refine map_congr_left fun r hr => ?_
  rw [h r hr]
  rfl

/-! ### Lookups -/

variable [DecidableEq κ] {k : κ} {r : α}

/-- The row with a given key. -/
def get (t : Table key) (k : κ) : Option α := t.rows.find? fun r => decide (key r = k)

theorem get_eq_some : t.get k = some r ↔ r ∈ t.rows ∧ key r = k := by
  have hkey : ∀ r', t.get k = some r' → key r' = k := fun r' h => by
    simpa using find?_some h
  constructor
  · intro h
    exact ⟨mem_of_find?_eq_some h, hkey r h⟩
  · rintro ⟨hr, hk⟩
    have hsome : (t.get k).isSome := find?_isSome.mpr ⟨r, hr, by simpa using hk⟩
    obtain ⟨r', hr'⟩ := Option.isSome_iff_exists.mp hsome
    have heq := (hkey r' hr').trans hk.symm
    rw [hr', t.eq_of_key_eq (mem_of_find?_eq_some hr') hr heq]

theorem get_eq_none : t.get k = none ↔ ∀ r ∈ t.rows, key r ≠ k := by
  rw [get, find?_eq_none]
  simp only [decide_eq_true_eq, ne_eq]

/-- A row is found under its key. -/
theorem get_key (hr : r ∈ t.rows) : t.get (key r) = some r := get_eq_some.mpr ⟨hr, rfl⟩

/-- **An update acts on what a lookup finds.** -/
theorem get_update : (t.update p f hf).get k = (t.get k).map fun r => if p r then f r else r := by
  have hcomp : (fun r => decide (key r = k)) ∘ (fun r => if p r then f r else r)
      = fun r => decide (key r = k) := by
    funext r
    rw [comp_apply]
    split
    · rw [hf]
    · rfl
  change List.find? _ (t.rows.map _) = (List.find? _ t.rows).map _
  rw [find?_map, hcomp]

omit [DecidableEq κ] in
theorem affected_eq_zero (h : ∀ r ∈ t.rows, p r = false) : t.affected p = 0 := by
  refine countP_eq_zero.mpr fun r hr hp => ?_
  rw [h r hr] at hp
  exact Bool.false_ne_true hp

/-- **An update that names the key of a row it selects affects that row alone.** -/
theorem affected_eq_one (hr : r ∈ t.rows) (hpr : p r = true)
    (hp : ∀ r', p r' = true → key r' = key r) : t.affected p = 1 := by
  have hcongr : t.affected p = t.rows.countP fun r' => decide (key r' = key r) := by
    refine countP_congr fun r' hr' => ?_
    rw [decide_eq_true_eq]
    refine ⟨hp r', fun hk => ?_⟩
    rw [t.eq_of_key_eq hr' hr hk]
    exact hpr
  have hone := count_eq_one_of_mem t.nodup_keys (mem_map_of_mem hr)
  rw [count_eq_countP, countP_map] at hone
  rw [hcongr, ← hone]
  refine countP_congr fun r' _ => ?_
  rw [comp_apply, beq_iff_eq, decide_eq_true_eq]

/-! ### Insertion -/

/-- A row with a new key keeps the keys distinct. -/
theorem nodup_keys_insert (t : Table key) {r : α} (h : t.get (key r) = none) :
    ((t.rows ++ [r]).map key).Nodup := by
  rw [map_append, map_singleton, nodup_append]
  refine ⟨t.nodup_keys, nodup_singleton _, ?_⟩
  intro a ha b hb
  obtain ⟨r', hr', rfl⟩ := mem_map.mp ha
  rw [mem_singleton.mp hb]
  exact get_eq_none.mp h r' hr'

/-- `insert into …`, of a row whose key is not taken. -/
def insert (t : Table key) (r : α) (h : t.get (key r) = none) : Table key :=
  ⟨t.rows ++ [r], t.nodup_keys_insert h⟩

theorem mem_insert {r' : α} {h : t.get (key r) = none} :
    r' ∈ (t.insert r h).rows ↔ r' ∈ t.rows ∨ r' = r := by
  rw [insert, mem_append, mem_singleton]

/-! ### Deletion and replacement -/

section Delete

omit [DecidableEq κ]

/-- `delete … where p`. -/
def delete (t : Table key) (p : α → Bool) : Table key :=
  ⟨t.rows.filter fun r => !p r, (filter_sublist.map key).nodup t.nodup_keys⟩

theorem mem_delete {r : α} : r ∈ (t.delete p).rows ↔ r ∈ t.rows ∧ p r = false := by
  rw [delete, mem_filter, Bool.not_eq_true']

theorem length_delete_le : (t.delete p).rows.length ≤ t.rows.length := length_filter_le _ _

end Delete

/-- **A deletion acts on what a lookup finds.** -/
theorem get_delete : (t.delete p).get k = (t.get k).filter fun r => !p r := by
  obtain hnone | ⟨r, hr⟩ := Option.eq_none_or_eq_some (t.get k)
  · rw [hnone, Option.filter_none, get_eq_none]
    exact fun r hr => get_eq_none.mp hnone r (mem_delete.mp hr).1
  · obtain ⟨hmem, hk⟩ := get_eq_some.mp hr
    rw [hr]
    cases hp : p r with
    | false =>
      rw [Option.filter_some_pos (by rw [hp]; rfl)]
      exact get_eq_some.mpr ⟨mem_delete.mpr ⟨hmem, hp⟩, hk⟩
    | true =>
      rw [Option.filter_some_neg (by rw [hp]; decide), get_eq_none]
      intro r' hr' hk'
      obtain ⟨hmem', hp'⟩ := mem_delete.mp hr'
      rw [t.eq_of_key_eq hmem' hmem (hk'.trans hk.symm), hp] at hp'
      exact Bool.noConfusion hp'

/-- After a key has been deleted it is not taken. -/
theorem get_delete_key (t : Table key) (k : κ) :
    (t.delete fun r => decide (key r = k)).get k = none := by
  rw [get_eq_none]
  intro r hr
  exact of_decide_eq_false (mem_delete.mp hr).2

/-- A row takes the place of the one with its key. -/
def put (t : Table key) (r : α) : Table key :=
  (t.delete fun r' => decide (key r' = key r)).insert r (t.get_delete_key (key r))

theorem mem_put {r' : α} : r' ∈ (t.put r).rows ↔ (r' ∈ t.rows ∧ key r' ≠ key r) ∨ r' = r := by
  rw [put, mem_insert, mem_delete, decide_eq_false_iff_not]

theorem get_put_self : (t.put r).get (key r) = some r :=
  get_eq_some.mpr ⟨mem_put.mpr (.inr rfl), rfl⟩

theorem get_put_of_ne (hk : k ≠ key r) : (t.put r).get k = t.get k := by
  obtain hnone | ⟨r', hr'⟩ := Option.eq_none_or_eq_some (t.get k)
  · rw [hnone, get_eq_none]
    intro r' hr'
    rcases mem_put.mp hr' with ⟨hmem, -⟩ | rfl
    · exact get_eq_none.mp hnone r' hmem
    · exact hk.symm
  · obtain ⟨hmem, hkey⟩ := get_eq_some.mp hr'
    rw [hr']
    exact get_eq_some.mpr ⟨mem_put.mpr (.inl ⟨hmem, hkey ▸ hk⟩), hkey⟩

/-- A put adds a row at most. -/
theorem length_put_le : (t.put r).rows.length ≤ t.rows.length + 1 := by
  rw [put, insert, length_append, length_singleton]
  exact Nat.succ_le_succ length_delete_le

/-- A put under a key that is taken adds none. -/
theorem length_put_of_get {r' : α} (h : t.get (key r) = some r') :
    (t.put r).rows.length ≤ t.rows.length := by
  obtain ⟨hmem, hkey⟩ := get_eq_some.mp h
  have hlt : (t.delete fun r' => decide (key r' = key r)).rows.length < t.rows.length := by
    exact length_filter_lt_length_iff_exists.mpr ⟨r', hmem, by simpa using hkey⟩
  rw [put, insert, length_append, length_singleton]
  exact hlt

/-- Keys that are all taken are no more than the rows. -/
theorem card_le_length {S : Finset κ} (h : ∀ k ∈ S, t.get k ≠ none) : S.card ≤ t.rows.length := by
  have hsub : S ⊆ (t.rows.map key).toFinset := by
    intro k hk
    obtain ⟨r, hr⟩ := Option.ne_none_iff_exists'.mp (h k hk)
    obtain ⟨hmem, rfl⟩ := get_eq_some.mp hr
    exact mem_toFinset.mpr (mem_map_of_mem hmem)
  calc S.card ≤ (t.rows.map key).toFinset.card := Finset.card_le_card hsub
    _ ≤ (t.rows.map key).length := toFinset_card_le _
    _ = t.rows.length := length_map _

end Table

end Keyed
