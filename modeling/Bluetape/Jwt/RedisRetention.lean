import Bluetape.Jwt.RedisRepository

/-!
# What the Redis repository keeps

The scripts that store a key evict others: they keep the new key and, of the others, as many as
`capacity` allows, from the newest down. Two structures are to be kept alike, the hash of the
payloads and the sorted set of the kids: what one loop collects, another one deletes from both
(`Retains`, `StoreOk.retains_put`).
-/

namespace Bluetape.Jwt.Redis

open GoString Keyed List SortedSet

variable {cfg : Config} {s : Store} {key k : KeyChain} {kid candidate : Text} {x : ℤ}

/-- The key that the pointer names. -/
def Store.currentKey (s : Store) : Option KeyChain := s.current.bind s.keys.get

/-! ### The two loops -/

/-- **The first loop keeps the first ones** that are not the candidate. -/
theorem mem_keepNewest {limit retained : ℕ} {newest keep : List Text} :
    kid ∈ keepNewest candidate limit newest retained keep ↔
      kid ∈ keep ∨
        kid ∈ (newest.filter fun k => decide (k ≠ candidate)).take (limit - retained) := by
  induction newest generalizing retained keep with
  | nil => simp [keepNewest]
  | cons k newest ih =>
    rw [keepNewest, filter_cons]
    by_cases hk : k = candidate
    · rw [if_neg fun h => h.1 hk, if_neg (by simp [hk]), ih]
    · rw [if_pos (decide_eq_true hk)]
      by_cases hlt : retained < limit
      · rw [if_pos ⟨hk, hlt⟩, ih]
        obtain ⟨n, hn⟩ : ∃ n, limit - retained = n + 1 := ⟨limit - retained - 1, by omega⟩
        rw [hn, show limit - (retained + 1) = n by omega, take_succ_cons, mem_cons, mem_cons]
        tauto
      · rw [if_neg fun h => hlt h.2, ih, show limit - retained = 0 by omega, take_zero, take_zero]

theorem drop_get_self : (s.drop kid).keys.get kid = none := Table.get_delete_key s.keys kid

theorem drop_get_of_ne (hne : kid ≠ candidate) :
    (s.drop candidate).keys.get kid = s.keys.get kid := by
  change (s.keys.delete fun k => decide (k.kid = candidate)).get kid = _
  rw [Table.get_delete]
  obtain hnone | ⟨k, hk⟩ := Option.eq_none_or_eq_some (s.keys.get kid)
  · rw [hnone, Option.filter_none]
  · obtain ⟨-, rfl⟩ := Table.get_eq_some.mp hk
    rw [hk, Option.filter_some_pos (by simpa using hne)]

/-- **The second loop deletes what the first one has not collected**, from both. -/
theorem evict_spec (keep stale : List Text) (s : Store) :
    (evict keep stale s).current = s.current ∧
    (∀ kid, kid ∈ stale → kid ∉ keep →
      (evict keep stale s).keys.get kid = none ∧ (evict keep stale s).order.score kid = none) ∧
    ∀ kid, (kid ∉ stale ∨ kid ∈ keep) →
      (evict keep stale s).keys.get kid = s.keys.get kid ∧
      (evict keep stale s).order.score kid = s.order.score kid := by
  induction stale generalizing s with
  | nil => exact ⟨rfl, nofun, fun kid _ => ⟨rfl, rfl⟩⟩
  | cons k stale ih =>
    rw [evict]
    split_ifs with hk
    · obtain ⟨hcur, hgone, hkept⟩ := ih s
      refine ⟨hcur, fun kid hmem hnot => ?_, fun kid hor => hkept kid ?_⟩
      · rcases mem_cons.mp hmem with rfl | hmem
        · exact absurd hk hnot
        · exact hgone kid hmem hnot
      · exact hor.imp_left fun hnot hmem => hnot (mem_cons_of_mem k hmem)
    · obtain ⟨hcur, hgone, hkept⟩ := ih (s.drop k)
      refine ⟨hcur, fun kid hmem hnot => ?_, fun kid hor => ?_⟩
      · by_cases hstale : kid ∈ stale
        · exact hgone kid hstale hnot
        · obtain rfl := (mem_cons.mp hmem).resolve_right hstale
          obtain ⟨hkeys, horder⟩ := hkept kid (.inl hstale)
          exact ⟨hkeys.trans drop_get_self, horder.trans score_remove_self⟩
      · have hne : kid ≠ k := by
          rintro rfl
          exact hor.elim (fun hnot => hnot mem_cons_self) hk
        obtain ⟨hkeys, horder⟩ :=
          hkept kid (hor.imp_left fun hnot hmem => hnot (mem_cons_of_mem k hmem))
        exact ⟨hkeys.trans (drop_get_of_ne hne), horder.trans (score_remove_of_ne hne)⟩

/-! ### What is kept -/

/-- The newest of the others. -/
def newest (cfg : Config) (s : Store) (candidate : Text) : List Text :=
  (s.order.revRange.filter fun k => decide (k ≠ candidate)).take (cfg.capacity - 1)

/-- It is not evicted. -/
def Kept (cfg : Config) (s : Store) (candidate kid : Text) : Prop :=
  s.order.card ≤ cfg.capacity ∨ kid = candidate ∨ kid ∈ newest cfg s candidate

theorem trim_current : (s.trim cfg candidate).current = s.current := by
  unfold Store.trim
  split_ifs
  · exact (evict_spec _ _ s).1
  · rfl

theorem mem_keep : kid ∈ keepNewest candidate (cfg.capacity - 1) s.order.revRange 0 [candidate] ↔
    kid = candidate ∨ kid ∈ newest cfg s candidate := by
  rw [mem_keepNewest, mem_singleton, Nat.sub_zero, newest]

theorem trim_of_kept (hkept : Kept cfg s candidate kid) :
    (s.trim cfg candidate).keys.get kid = s.keys.get kid ∧
      (s.trim cfg candidate).order.score kid = s.order.score kid := by
  unfold Store.trim
  split_ifs with hcard
  · refine (evict_spec _ _ s).2.2 kid (.inr (mem_keep.mpr ?_))
    exact hkept.resolve_left (not_le.mpr hcard)
  · exact ⟨rfl, rfl⟩

theorem trim_of_not_kept (hkept : ¬Kept cfg s candidate kid) (hx : s.order.score kid = some x) :
    (s.trim cfg candidate).keys.get kid = none ∧ (s.trim cfg candidate).order.score kid = none := by
  have hcard : cfg.capacity < s.order.card := not_le.mp fun hle => hkept (.inl hle)
  unfold Store.trim
  rw [if_pos hcard]
  refine (evict_spec _ _ s).2.1 kid (SortedSet.mem_range.mpr ⟨x, hx⟩) fun hmem => hkept ?_
  exact .inr (mem_keep.mp hmem)

theorem trim_of_absent (cfg : Config) (candidate : Text) (hnone : s.order.score kid = none) :
    (s.trim cfg candidate).keys.get kid = s.keys.get kid ∧
      (s.trim cfg candidate).order.score kid = none := by
  unfold Store.trim
  split_ifs
  · have hnot : kid ∉ s.order.range := by
      rw [SortedSet.mem_range, hnone]
      rintro ⟨x, hx⟩
      cases hx
    obtain ⟨hkeys, horder⟩ := (evict_spec (keepNewest candidate (cfg.capacity - 1)
      s.order.revRange 0 [candidate]) s.order.range s).2.2 kid (.inl hnot)
    exact ⟨hkeys, horder.trans hnone⟩
  · exact ⟨rfl, hnone⟩

/-- The kids of the hash and of the sorted set are the same. -/
def SameKids (s : Store) : Prop := ∀ kid, s.keys.get kid = none ↔ s.order.score kid = none

theorem SameKids.trim (hsame : SameKids s) : SameKids (s.trim cfg candidate) := by
  intro kid
  obtain hnone | ⟨x, hx⟩ := Option.eq_none_or_eq_some (s.order.score kid)
  · obtain ⟨hkeys, horder⟩ := trim_of_absent cfg candidate hnone
    exact iff_of_true (hkeys.trans ((hsame kid).mpr hnone)) horder
  · by_cases hkept : Kept cfg s candidate kid
    · obtain ⟨hkeys, horder⟩ := trim_of_kept hkept
      rw [hkeys, horder]
      exact hsame kid
    · obtain ⟨hkeys, horder⟩ := trim_of_not_kept hkept hx
      exact iff_of_true hkeys horder

theorem kept_of_trim (hx : (s.trim cfg candidate).order.score kid = some x) :
    Kept cfg s candidate kid ∧ s.order.score kid = some x := by
  obtain hnone | ⟨x', hx'⟩ := Option.eq_none_or_eq_some (s.order.score kid)
  · exact nomatch (trim_of_absent cfg candidate hnone).2.symm.trans hx
  · by_cases hkept : Kept cfg s candidate kid
    · exact ⟨hkept, (trim_of_kept hkept).2.symm.trans hx⟩
    · exact nomatch (trim_of_not_kept hkept hx').2.symm.trans hx

theorem length_newest_le : (newest cfg s candidate).length ≤ cfg.capacity - 1 :=
  length_take_le _ _

/-- **At most `capacity` are kept.** -/
theorem card_trim_le : (s.trim cfg candidate).order.card ≤ cfg.capacity := by
  by_cases hcard : cfg.capacity < s.order.card
  · obtain ⟨S, hS, hmem⟩ := exists_finset_card (s.trim cfg candidate).order
    have hsub : S ⊆ (candidate :: newest cfg s candidate).toFinset := by
      intro kid hkid
      obtain ⟨x, hx⟩ := hmem kid hkid
      rw [mem_toFinset, mem_cons]
      exact (kept_of_trim hx).1.resolve_left (not_le.mpr hcard)
    have htwo := cfg.two_le_capacity
    have hnewest : (newest cfg s candidate).length ≤ cfg.capacity - 1 := length_newest_le
    calc (s.trim cfg candidate).order.card = S.card := hS.symm
      _ ≤ (candidate :: newest cfg s candidate).toFinset.card := Finset.card_le_card hsub
      _ ≤ (candidate :: newest cfg s candidate).length := toFinset_card_le _
      _ ≤ cfg.capacity := by rw [length_cons]; omega
  · unfold Store.trim
    rw [if_neg hcard]
    exact not_lt.mp hcard

/-- **If something is evicted, `capacity` are kept**, and none of the others is older. -/
theorem evicted_of_not_kept (hcandidate : s.order.score candidate ≠ none)
    (hkept : ¬Kept cfg s candidate kid) (hx : s.order.score kid = some x) :
    (s.trim cfg candidate).order.card = cfg.capacity ∧
      ∀ kid' x', kid' ≠ candidate → (s.trim cfg candidate).order.score kid' = some x' →
        x ≤ x' := by
  have hcard : cfg.capacity < s.order.card := not_le.mp fun hle => hkept (.inl hle)
  have hmem : kid ∈ s.order.revRange.filter fun k => decide (k ≠ candidate) := by
    rw [mem_filter, mem_revRange]
    exact ⟨⟨x, hx⟩, decide_eq_true fun heq => hkept (.inr (.inl heq))⟩
  have hnot : kid ∉ newest cfg s candidate := fun hnew => hkept (.inr (.inr hnew))
  refine ⟨le_antisymm card_trim_le ?_, fun kid' x' hne hx' => ?_⟩
  · -- The kid is in the list from which the newest are taken, and was not reached.
    have hlength : (newest cfg s candidate).length = cfg.capacity - 1 := by
      rw [newest, length_take, Nat.min_eq_left]
      by_contra hle
      refine hnot ?_
      rw [newest, take_of_length_le (by omega)]
      exact hmem
    have hnodup : (candidate :: newest cfg s candidate).Nodup := by
      refine nodup_cons.mpr ⟨fun hnew => ?_, ?_⟩
      · have := (mem_filter.mp (mem_of_mem_take hnew)).2
        exact absurd rfl (of_decide_eq_true this)
      · exact (nodup_revRange.filter _).sublist (take_sublist _ _)
    have hcount : (candidate :: newest cfg s candidate).toFinset.card = cfg.capacity := by
      rw [toFinset_card_of_nodup hnodup, length_cons, hlength]
      have htwo := cfg.two_le_capacity
      omega
    rw [← hcount]
    refine finset_card_le fun kid' hkid' => ?_
    rcases mem_cons.mp (mem_toFinset.mp hkid') with rfl | hnew
    · rw [(trim_of_kept (.inr (.inl rfl))).2]
      exact hcandidate
    · rw [(trim_of_kept (.inr (.inr hnew))).2]
      obtain ⟨x', hx'⟩ :=
        mem_revRange.mp (mem_filter.mp (mem_of_mem_take hnew)).1
      exact fun hnone => nomatch hnone.symm.trans hx'
  · obtain ⟨hkept', hx''⟩ := kept_of_trim hx'
    have hnew := (hkept'.resolve_left (not_le.mpr hcard)).resolve_left hne
    exact score_le_of_not_mem_take hnew hmem hnot hx'' hx

/-! ### A key is stored -/

/-- **What Redis has after a key was stored**: the pointer names it and its payload is there; the
hash and the sorted set have the same kids, at most `capacity` of them; the others were there
before, and if one of those is gone then `capacity` are left, and none of the others is older. -/
structure Retains (cfg : Config) (key : KeyChain) (s s' : Store) : Prop where
  current : s'.current = some key.kid
  payload : s'.keys.get key.kid = some key
  same : SameKids s'
  card : s'.order.card ≤ cfg.capacity
  score : s'.order.score key.kid = some (score key)
  others : ∀ kid k, kid ≠ key.kid → s'.keys.get kid = some k → s.keys.get kid = some k
  scores : ∀ kid x, kid ≠ key.kid → s'.order.score kid = some x → s.order.score kid = some x
  evicted : ∀ kid x, kid ≠ key.kid → s.order.score kid = some x → s'.order.score kid = none →
    s'.order.card = cfg.capacity ∧
      ∀ kid' x', kid' ≠ key.kid → s'.order.score kid' = some x' → x ≤ x'

/-- **Storing a key retains the newest.** -/
theorem retains_put (hsame : SameKids s) : Retains cfg key s (s.put cfg key) := by
  obtain ⟨s₁, hs₁⟩ : ∃ s₁ : Store, s₁ = { current := some key.kid, keys := s.keys.put key
                                          order := s.order.add (Redis.score key) key.kid } :=
    ⟨_, rfl⟩
  have hput : s.put cfg key = s₁.trim cfg key.kid := by
    rw [hs₁]
    rfl
  have hkey : s₁.keys.get key.kid = some key := by
    rw [hs₁]
    exact Table.get_put_self
  have hscore : s₁.order.score key.kid = some (Redis.score key) := by
    rw [hs₁]
    exact score_add_self
  have hkeys : ∀ {kid}, kid ≠ key.kid → s₁.keys.get kid = s.keys.get kid := by
    intro kid hne
    rw [hs₁]
    exact Table.get_put_of_ne hne
  have hscores : ∀ {kid}, kid ≠ key.kid → s₁.order.score kid = s.order.score kid := by
    intro kid hne
    rw [hs₁]
    exact score_add_of_ne hne
  have hsame₁ : SameKids s₁ := by
    intro kid
    by_cases hne : kid = key.kid
    · rw [hne, hkey, hscore]
      exact iff_of_false nofun nofun
    · rw [hkeys hne, hscores hne]
      exact hsame kid
  have hkept : Kept cfg s₁ key.kid key.kid := .inr (.inl rfl)
  obtain ⟨hpayload, hnew⟩ := trim_of_kept hkept
  rw [hput]
  refine ⟨trim_current.trans (by rw [hs₁]), hpayload.trans hkey, hsame₁.trim, card_trim_le,
    hnew.trans hscore, fun kid k hne hk => ?_, fun kid x hne hx => ?_, fun kid x hne hx hnone => ?_⟩
  · obtain ⟨x, hx⟩ : ∃ x, (s₁.trim cfg key.kid).order.score kid = some x := by
      refine Option.ne_none_iff_exists'.mp fun hnone => ?_
      exact nomatch ((hsame₁.trim kid).mpr hnone).symm.trans hk
    rw [(trim_of_kept (kept_of_trim hx).1).1] at hk
    exact (hkeys hne).symm.trans hk
  · exact (hscores hne).symm.trans (kept_of_trim hx).2
  · have hx₁ : s₁.order.score kid = some x := (hscores hne).trans hx
    refine evicted_of_not_kept (fun h => nomatch h.symm.trans hscore) (fun hkept => ?_) hx₁
    exact nomatch hnone.symm.trans ((trim_of_kept hkept).2.trans hx₁)

end Bluetape.Jwt.Redis
