import Bluetape.RedisValue.Operations

/-!
# What is kept out of the local tier by clearing it

`ClearLocal`, `InvalidateLocal` and `Clear` take values out of the local tier while other
operations may be on their way to storing some that they have fetched before.

* **`ClearLocal` and `InvalidateLocal` are barriers**: a value that was read from Redis, or asked of
  a loader, before one of them began is not stored in the local tier after it has returned without
  an error (`began_le_of_stored`). For `ClearLocal` this is because the value is stored under the
  generation it was fetched in, and was therefore fetched after the last successful repair began;
  for `InvalidateLocal`, because both it and whoever stores the value have held the token of the
  key.
* **`Clear` is not**: it reads the generation before it deletes the keys in Redis, and if the
  generation has moved when it comes to the local tier, it leaves the tier to whoever has moved it.
  But a `ClearLocal` may have moved it before the keys were deleted, and a `Get` may have filled the
  tier again in between (`stale_after_clear`). If the generation stays until the last key has been
  deleted, `Clear` does what it should (`fetched_after_clear`).
-/

namespace Bluetape.RedisValue

open Lts Option List

variable {K V : Type}

/-! ### Events of a run -/

/-- All calls. -/
abbrev Calls (K V : Type) :=
  Conc.Pool (Act K V) Ans (Place K V) (Result K V) (Shared K V) (Op K V)

/-- One call. -/
abbrev Call (K V : Type) := Conc.Thread (Act K V) Ans (Place K V) (Result K V) (Op K V)

/-- One step of them. -/
abbrev Step (K V : Type) := Event (Calls K V) (Conc.Label (Env K V) (Op K V) (Choice K V))

/-- The calls on a cache with this content, before the first. -/
abbrev Calls.new (tier : K → Option (Item V)) (remote : K → Option V) : Calls K V :=
  Conc.Pool.new (.new tier remote)

/-- What is stored in the local tier. -/
def Act.stored : Act K V → Option (K × Item V)
  | .tierSet k item _ => some (k, item)
  | _ => none

/-- The keys that are deleted in Redis. -/
def Act.unlinks : Act K V → Option (List K)
  | .unlink keys => some keys
  | _ => none

/-- It reads the generation. -/
def Act.samples : Act K V → Bool
  | .generationValue => true
  | _ => false

/-- What a step stores. -/
def Step.stored (ev : Step K V) : Option (K × Item V) :=
  (ev.before.action ev.label).bind Act.stored

/-- The action, if it is one of this call. -/
def Step.actionOf (i : ℕ) (ev : Step K V) : Option (Act K V) :=
  match ev.label with
  | .run j c =>
    if j = i then ev.before.action (.run j c : Conc.Label (Env K V) (Op K V) _) else none
  | _ => none

/-- The keys that this call deletes. -/
def Step.unlinks (i : ℕ) (ev : Step K V) : Option (List K) := (ev.actionOf i).bind Act.unlinks

/-- This call reads the generation. -/
def Step.samples (i : ℕ) (ev : Step K V) : Bool := (ev.actionOf i).any Act.samples

/-- A `Set` begins. -/
def Step.sets (ev : Step K V) : Bool :=
  match ev.label with
  | .begin (.set _ _ _) => true
  | _ => false

/-- It has returned no error. -/
def succeeded (th : Call K V) : Bool :=
  (th.prog.result.bind Except.toOption).isSome

theorem succeeded_iff {th : Call K V} :
    succeeded th = true ↔ ∃ r, th.prog.result = some (.ok r) := by
  unfold succeeded
  rcases th.prog.result with _ | e | r
  · simp
  · simp [Except.toOption]
  · simp [Except.toOption]

variable [DecidableEq K]

/-! ### Barriers -/

/-- **Values from before a barrier are not stored after it**: if a value is stored in the local
tier when a `ClearLocal`, or an `InvalidateLocal` of its key, has returned without an error, it
was fetched after that call began. -/
theorem began_le_of_stored {cfg : Config K} {tier : K → Option (Item V)} {remote : K → Option V}
    {h : List (Step K V)} {y : Calls K V} (hr : Run (machine cfg).step (Calls.new tier remote) h y)
    {ev : Step K V} (hev : ev ∈ h) {k : K} {item : Item V} (hstored : ev.stored = some (k, item))
    {t : ℕ} (ht : item.fetchedAt = some t)
    {th : Call K V} (hth : th ∈ ev.before.threads)
    (hop : th.op = .clearLocal ∨ th.op = .invalidateLocal k)
    (hret : succeeded th = true) : th.began ≤ t := by
  obtain ⟨gs, hgs⟩ := (outline_valid cfg).before (inv_new tier remote) hr _ hev
  -- whoever stores the value
  obtain ⟨a, ha, hstores⟩ := bind_eq_some_iff.mp hstored
  obtain ⟨g, hg, hallowed⟩ : ∃ g ∈ gs, g.Allowed a := by
    cases hl : ev.label with
    | run i c =>
      rw [hl] at ha
      obtain ⟨g, hg, hallowed⟩ := hgs.allowed ha
      exact ⟨g, mem_of_getElem? hg, hallowed⟩
    | _ =>
      rw [hl] at ha
      exact nomatch ha
  have hok := hgs.inv.ghost_ok g hg
  obtain ⟨hhealed, htaken⟩ : ev.before.shared.healed ≤ t ∧ ev.before.shared.taken k ≤ t := by
    cases a with
    | tierSet k' item' ttl =>
      obtain ⟨rfl, rfl⟩ := Prod.mk.inj (Option.some.inj hstores)
      obtain ⟨⟨γ, hlease, hticket⟩, ⟨hnone, -⟩ | ⟨t', ht', hfetched⟩⟩ := hallowed
      · exact nomatch hnone.symm.trans ht
      · obtain rfl := mem_unique ht ht'
        exact ⟨hok.storing γ k' t hlease hticket hfetched, (hok.fetched_ok k' t hfetched).2.1⟩
    | _ => exact nomatch hstores
  -- the barrier
  obtain ⟨r, hresult⟩ := succeeded_iff.mp hret
  obtain ⟨j, hj⟩ := mem_iff_getElem?.mp hth
  obtain ⟨g', hg', hbegan, hpost⟩ := hgs.post hj hresult
  have hok' := hgs.inv.ghost_ok g' (mem_of_getElem? hg')
  rw [← hbegan]
  rcases hop with hop | hop
  · rw [hop] at hpost
    exact (hok'.healed_ok hpost).1.trans hhealed
  · rw [hop] at hpost
    exact (hok'.visited_ok k hpost).trans htaken

/-- The steps of a `Get` that finds nothing in the local tier, up to where it is about to store
what it has found in Redis. -/
def fetching (i : ℕ) : List (Conc.Label (Env Unit ℕ) (Op Unit ℕ) (Choice Unit ℕ)) :=
  List.replicate 8 (.run i .ok) ++ .jump i :: List.replicate 10 (.run i .ok)

/-- A `ClearLocal` has returned when a `Get` that begins later stores what it has found. -/
theorem began_le_of_stored_later :
    ∃ (h : List (Step Unit ℕ)) (y : Calls Unit ℕ), ∃ ev ∈ h, ∃ th ∈ ev.before.threads,
      Run (machine defaultConfig).step (Calls.new (fun _ => none) fun _ => some 1) h y ∧
        ev.stored = some ((), ⟨1, some 21⟩) ∧ th.op = .clearLocal ∧ th.began ≤ 21 := by
  obtain ⟨h, y, hr, ev, hev, th, hth, hstored, hop, hret⟩ := exists_run (machine defaultConfig).step
    (Calls.new (fun _ => none) fun _ => some 1)
    (.begin .clearLocal :: List.replicate 4 (.run 0 .ok) ++ .begin (.get ()) :: fetching 1 ++
      [.run 1 .ok])
    (fun h _ => ∃ ev : Step Unit ℕ, ev ∈ h.head? ∧ ∃ th : Call Unit ℕ,
      th ∈ ev.before.threads[0]? ∧ ev.stored = some ((), ⟨1, some 21⟩) ∧ th.op = .clearLocal ∧
        succeeded th = true)
    (by decide +kernel)
  have hev' : ev ∈ h := mem_of_mem_head? hev
  have hth' : th ∈ ev.before.threads := mem_of_getElem? hth
  exact ⟨h, y, ev, hev', th, hth', hr, hstored, hop,
    began_le_of_stored hr hev' hstored rfl hth' (.inl hop) hret⟩

/-! ### What a clear has done -/

/-- **What a run says about the ghost of a call**: when it has deleted keys; the generation it
has read; that it has deleted keys under another one; and that it is a `Set` if it may store a
value of its own. -/
structure Tracked (h : List (Step K V)) (i : ℕ) (g : Ghost K) : Prop where
  unlinked : ∀ ev ∈ h, ∀ keys, Step.unlinks i ev = some keys →
    ∃ d, g.unlinked = some d ∧ ev.before.time ≤ d
  sampled : ∀ γ, g.sampled = some γ →
    ∃ ev ∈ h, Step.samples i ev = true ∧ ev.before.shared.state.generation = γ
  lapsed : g.lapsed = true → ∃ ev ∈ h, ∃ ev' ∈ h, Step.samples i ev = true ∧
    (Step.unlinks i ev').isSome = true ∧
      ev.before.shared.state.generation ≠ ev'.before.shared.state.generation
  writes : g.writes = true → ∃ ev ∈ h, Step.sets ev = true

section

variable {i : ℕ} {s' : Shared K V} {g g' : Ghost K} {a : Act K V} {x : Ans a}
  {h : List (Step K V)} {ev : Step K V}

omit [DecidableEq K] in
theorem Ghost.after_clear (t : ℕ) (s : Shared K V) (g : Ghost K) (x : Ans a)
    (hunlinks : a.unlinks = none) (hsamples : a.samples = false) :
    (g.after t s a x).unlinked = g.unlinked ∧ (g.after t s a x).sampled = g.sampled ∧
      (g.after t s a x).lapsed = g.lapsed := by
  unfold Ghost.after
  split <;> first
    | exact ⟨rfl, rfl, rfl⟩
    | exact absurd hunlinks (some_ne_none _)
    | exact absurd hsamples.symm Bool.false_ne_true
    | (split <;> exact ⟨rfl, rfl, rfl⟩)

omit [DecidableEq K] in
theorem Tracked.cons (ht : Tracked h i g) (hnone : Step.unlinks i ev = none)
    (hunlinked : g'.unlinked = g.unlinked) (hsampled : g'.sampled = g.sampled)
    (hlapsed : g'.lapsed = g.lapsed) (hwrites : g'.writes = g.writes) :
    Tracked (ev :: h) i g' where
  unlinked := by
    rw [hunlinked]
    exact forall_mem_cons.mpr ⟨fun _ hkeys => (nomatch hnone.symm.trans hkeys), ht.unlinked⟩
  sampled := fun γ hγ => exists_mem_cons_of_exists (ht.sampled γ (hsampled ▸ hγ))
  lapsed := fun hl => by
    obtain ⟨e₁, he₁, h'⟩ := ht.lapsed (hlapsed ▸ hl)
    exact ⟨e₁, mem_cons_of_mem _ he₁, exists_mem_cons_of_exists h'⟩
  writes := fun hw => exists_mem_cons_of_exists (ht.writes (hwrites ▸ hw))

/-- **A step of the call itself.** -/
theorem Tracked.act (ht : Tracked h i g) (ev : Step K V)
    (hok : g.Ok ev.before.time ev.before.shared)
    (haction : ev.actionOf i = some a) (ha : g.Allowed a)
    (hd : Did ev.before.time ev.before.shared a x s') :
    Tracked (ev :: h) i (g.after ev.before.time ev.before.shared a x) := by
  have hunlinks : Step.unlinks i ev = a.unlinks := by rw [Step.unlinks, haction]; rfl
  have hsamples : Step.samples i ev = a.samples := by rw [Step.samples, haction]; rfl
  cases hu : a.unlinks with
  | some keys =>
    cases a with
    | unlink keys' =>
      refine ⟨fun ev' hev' keys' _ => ⟨_, rfl, ?_⟩, fun γ hγ => ?_, fun hl => ?_, fun hw => ?_⟩
      · rcases mem_cons.mp hev' with rfl | hev'
        · exact Nat.le_refl _
        · obtain ⟨d, hd', hle⟩ := ht.unlinked ev' hev' keys' ‹_›
          exact hle.trans (hok.unlinked_ok d hd').2.le
      · exact exists_mem_cons_of_exists (ht.sampled γ hγ)
      · rcases Bool.or_eq_true_iff.mp hl with hl | hl
        · obtain ⟨e₁, he₁, h'⟩ := ht.lapsed hl
          exact ⟨e₁, mem_cons_of_mem _ he₁, exists_mem_cons_of_exists h'⟩
        · -- the generation is not the one that was read
          obtain ⟨γ, hγ⟩ := ne_none_iff_exists'.mp ha.1
          obtain ⟨ev', hev', hs, hgen⟩ := ht.sampled γ hγ
          refine ⟨ev', mem_cons_of_mem _ hev', ev, mem_cons_self, hs, ?_, ?_⟩
          · rw [hunlinks]
            rfl
          · intro heq
            exact of_decide_eq_true hl (by rw [hγ, ← hgen, heq])
      · exact exists_mem_cons_of_exists (ht.writes hw)
    | _ => exact nomatch hu
  | none =>
    cases hs : a.samples with
    | false =>
      obtain ⟨h₁, h₂, h₃⟩ := Ghost.after_clear ev.before.time ev.before.shared g x hu hs
      exact ht.cons (hunlinks.trans hu) h₁ h₂ h₃ (Ghost.after_writes g a x)
    | true =>
      cases a with
      | generationValue =>
        cases hd with
        | generationValue =>
          have hcons : Tracked (ev :: h) i g := ht.cons (hunlinks.trans hu) rfl rfl rfl rfl
          exact { hcons with
            sampled := fun γ hγ => ⟨ev, mem_cons_self, hsamples, Option.some.inj hγ⟩ }
      | _ => exact nomatch hs

end

/-- The ghosts are what the history says. -/
structure Tracks (h : List (Step K V)) (gs : List (Ghost K)) : Prop where
  tracked : ∀ i g, gs[i]? = some g → Tracked h i g
  lt_length : ∀ ev ∈ h, ∀ i, (Step.unlinks i ev).isSome = true → i < gs.length

section

variable {cfg : Config K} {y y' : Calls K V} {gs gs' : List (Ghost K)} {h : List (Step K V)}
  {l : Conc.Label (Env K V) (Op K V) (Choice K V)}

omit [DecidableEq K] in
theorem Tracks.cons {ev : Step K V} (hT : Tracks h gs) (hnone : ∀ i, ev.actionOf i = none)
    (hlen : gs.length ≤ gs'.length)
    (hghost : ∀ i g', gs'[i]? = some g' → gs[i]? = some g' ∨
      (gs.length ≤ i ∧ ∃ op, ev.label = .begin op ∧ g' = op.ghost ev.before.time)) :
    Tracks (ev :: h) gs' := by
  have hunlinks : ∀ i, Step.unlinks i ev = none := fun i => by rw [Step.unlinks, hnone]; rfl
  refine ⟨fun i g' hg' => ?_, fun ev' hev' i hi => ?_⟩
  · rcases hghost i g' hg' with hg | ⟨hle, op, hop, rfl⟩
    · exact (hT.tracked i g' hg).cons (hunlinks i) rfl rfl rfl rfl
    · refine ⟨fun ev' hev' keys hkeys => ?_, nofun,
        nofun, fun hw => ?_⟩
      · rcases mem_cons.mp hev' with rfl | hev'
        · exact nomatch (hunlinks i).symm.trans hkeys
        · exact absurd (hT.lt_length ev' hev' i (by rw [hkeys]; rfl)) (by omega)
      · cases op with
        | set k v ttl => exact ⟨ev, mem_cons_self, by simp [Step.sets, hop]⟩
        | _ => exact nomatch hw
  · rcases mem_cons.mp hev' with rfl | hev'
    · exact absurd hi (by simp [hunlinks i])
    · exact (hT.lt_length ev' hev' i hi).trans_le hlen

/-- **A step of a run.** -/
theorem Tracks.step (hgs : outline.Holds y gs) (hT : Tracks h gs)
    (hmoves : outline.Moves (machine cfg) y l gs gs') : Tracks (⟨y, l, y'⟩ :: h) gs' := by
  cases l with
  | begin op =>
    obtain rfl : gs' = gs ++ [op.ghost y.time] := hmoves
    refine hT.cons (fun _ => rfl) (by simp) fun i g' hg' => ?_
    rcases getElem?_concat hg' with hg | ⟨rfl, hg⟩
    · exact .inl hg
    · exact .inr ⟨le_rfl, op, rfl, hg⟩
  | jump j | env e =>
    obtain rfl : gs' = gs := hmoves
    exact hT.cons (fun _ => rfl) le_rfl fun _ _ hg' => .inl hg'
  | run j c =>
    obtain ⟨a, g, x, s', g', haction, hg, ha, hexec, hmove, rfl⟩ := hmoves
    obtain rfl := hmove.2
    have hlt : j < gs.length := (List.getElem?_eq_some_iff.mp hg).1
    have hother : ∀ i, i ≠ j → Step.actionOf i (⟨y, .run j c, y'⟩ : Step K V) = none :=
      fun i hij => if_neg hij.symm
    refine ⟨fun i g' hg' => ?_, fun ev' hev' i hi => ?_⟩
    · rcases getElem?_set_cases hg' with ⟨rfl, rfl⟩ | ⟨hij, hg'⟩
      · exact (hT.tracked i g hg).act ⟨y, .run i c, y'⟩
          (hgs.inv.ghost_ok g (mem_of_getElem? hg)) ((if_pos rfl).trans haction) ha
          (did_of_exec hexec)
      · refine (hT.tracked i g' hg').cons ?_ rfl rfl rfl rfl
        rw [Step.unlinks, hother i hij]
        rfl
    · rw [length_set]
      rcases mem_cons.mp hev' with rfl | hev'
      · by_cases hij : i = j
        · exact hij ▸ hlt
        · exact absurd hi (by simp [Step.unlinks, hother i hij])
      · exact hT.lt_length ev' hev' i hi

theorem exists_tracks {tier : K → Option (Item V)} {remote : K → Option V}
    (hr : Run (machine cfg).step (Calls.new tier remote) h y) :
    ∃ gs, outline.Holds y gs ∧ Tracks h gs := by
  induction hr with
  | nil =>
    refine ⟨[], Conc.Outline.holds_new (inv_new tier remote), ?_, ?_⟩
    · exact fun _ _ hg => nomatch hg
    · exact fun _ hev => nomatch hev
  | snoc _ hstep ih =>
    obtain ⟨gs, hgs, hT⟩ := ih
    obtain ⟨gs', hgs', hmoves⟩ := (outline_valid cfg).step hgs hstep
    exact ⟨gs', hgs', hT.step hgs hmoves⟩

end

/-- **What `Clear` leaves in the local tier**, if the generation has stayed as it was read until
the last key was deleted, and nothing is set: only values, of whatever key, that were fetched
after its last deletion in Redis. -/
theorem fetched_after_clear {cfg : Config K} {tier : K → Option (Item V)} {remote : K → Option V}
    {h : List (Step K V)} {y : Calls K V}
    (hr : Run (machine cfg).step (Calls.new tier remote) h y)
    (hset : ∀ ev ∈ h, Step.sets ev = false) {i : ℕ} {th : Call K V}
    (hth : y.threads[i]? = some th) (hop : th.op = .clear) (hret : succeeded th = true)
    (hstays : ∀ ev ∈ h, ∀ ev' ∈ h, Step.samples i ev = true → (Step.unlinks i ev').isSome = true →
      ev.before.shared.state.generation = ev'.before.shared.state.generation)
    {ev : Step K V} (hev : ev ∈ h) {keys : List K} (hkeys : Step.unlinks i ev = some keys) {k : K}
    {item : Item V} (hitem : y.shared.tier k = some item) :
    ∃ t, item.fetchedAt = some t ∧ ev.before.time ≤ t := by
  obtain ⟨gs, hgs, hT⟩ := exists_tracks hr
  obtain ⟨r, hresult⟩ := succeeded_iff.mp hret
  obtain ⟨g, hg, -, hpost⟩ := hgs.post hth hresult
  rw [hop] at hpost
  have hok := hgs.inv.ghost_ok g (mem_of_getElem? hg)
  have htracked := hT.tracked i g hg
  have hlapsed : g.lapsed = false := by
    by_contra hne
    obtain ⟨e₁, he₁, e₂, he₂, hs, hu, hgen⟩ := htracked.lapsed (by simpa using hne)
    exact hgen (hstays e₁ he₁ e₂ he₂ hs hu)
  obtain ⟨d, hd, hle⟩ := htracked.unlinked ev hev keys hkeys
  have hhealed : d ≤ y.shared.healed := by
    rcases hpost with hhealed | hpassed
    · exact (hok.healed_ok hhealed).2 d hd
    · exact hok.passed_ok hpassed hlapsed d hd
  cases hf : item.fetchedAt with
  | some t => exact ⟨t, rfl, hle.trans (hhealed.trans (hgs.inv.tier_ok k item hitem t hf))⟩
  | none =>
    rcases hgs.inv.tier_set k item hitem hf with hzero | ⟨g₀, hg₀, hwrites⟩
    · exact absurd (hok.unlinked_ok d hd).1 (by omega)
    · obtain ⟨j, hj⟩ := mem_iff_getElem?.mp hg₀
      obtain ⟨ev', hev', hsets⟩ := (hT.tracked j g₀ hj).writes hwrites
      exact nomatch (hset ev' hev').symm.trans hsets

/-- The steps of a `Clear` up to where it has scanned its only key. -/
def scanning : List (Conc.Label (Env Unit ℕ) (Op Unit ℕ) (Choice Unit ℕ)) :=
  .begin .clear :: List.replicate 3 (.run 0 .ok) ++
    [.jump 0, .run 0 .ok, .run 0 (.scanned [()] 0)]

/-- The steps of a `Get` that finds nothing in the local tier and stores what it has found. -/
def getting (i : ℕ) : List (Conc.Label (Env Unit ℕ) (Op Unit ℕ) (Choice Unit ℕ)) :=
  .begin (.get ()) :: fetching i ++ List.replicate 6 (.run i .ok)

/-- After a `Clear`, a `Get` fetches a value that was written later. -/
theorem fetched_after_clear_anew :
    ∃ (h : List (Step Unit ℕ)) (y : Calls Unit ℕ), ∃ ev ∈ h, ∃ t,
      Run (machine defaultConfig).step (Calls.new (fun _ => some ⟨1, none⟩) fun _ => some 1) h y ∧
        Step.unlinks 0 ev = some [()] ∧ y.shared.tier () = some ⟨2, some t⟩ ∧
          ev.before.time ≤ t := by
  obtain ⟨h, y, hr, hset, hstays, ⟨ev, hev, hkeys⟩, ⟨th, hth, hop, hret⟩, htier⟩ :=
    exists_run (machine defaultConfig).step
    (Calls.new (fun _ => some ⟨1, none⟩) fun _ => some 1)
    (scanning ++ List.replicate 6 (.run 0 .ok) ++ .env (.remote () (some 2)) :: getting 1)
    (fun h (y : Calls Unit ℕ) => (∀ ev ∈ h, Step.sets ev = false) ∧
      (∀ ev ∈ h, ∀ ev' ∈ h, Step.samples 0 ev = true → (Step.unlinks 0 ev').isSome = true →
        ev.before.shared.state.generation = ev'.before.shared.state.generation) ∧
      (∃ ev ∈ h, Step.unlinks 0 ev = some [()]) ∧
      (∃ th : Call Unit ℕ, th ∈ y.threads[0]? ∧ th.op = .clear ∧ succeeded th = true) ∧
      (y.shared.tier ()).map Item.value = some 2)
    (by decide +kernel)
  obtain ⟨⟨v, fetchedAt⟩, hitem, rfl⟩ := map_eq_some_iff.mp htier
  obtain ⟨t, rfl, hle⟩ := fetched_after_clear hr hset hth hop hret hstays hev hkeys hitem
  exact ⟨h, y, ev, hev, t, hr, hkeys, hitem, hle⟩

/-- **`Clear` leaves a value in the local tier that it has deleted in Redis.** It has read the
generation and scanned the only key. Then a `ClearLocal` moves the generation, and a `Get` stores
the value again. `Clear` deletes the key, finds that the generation has moved, and returns no
error. -/
theorem stale_after_clear :
    ∃ (h : List (Step Unit ℕ)) (y : Calls Unit ℕ), ∃ ev ∈ h, ∃ t, ∃ th ∈ y.threads[0]?,
      Run (machine defaultConfig).step (Calls.new (fun _ => none) fun _ => some 1) h y ∧
        th.op = .clear ∧ succeeded th = true ∧ Step.unlinks 0 ev = some [()] ∧
          y.shared.tier () = some ⟨1, some t⟩ ∧ t < ev.before.time ∧ y.shared.remote () = none := by
  obtain ⟨h, y, hr, ⟨ev, hev, hkeys, hlt⟩, ⟨th, hth, hop, hret⟩, htier, hremote⟩ :=
    exists_run (machine defaultConfig).step (Calls.new (fun _ => none) fun _ => some 1)
      (scanning ++ .begin .clearLocal :: List.replicate 4 (.run 1 .ok) ++ getting 2 ++
        List.replicate 3 (.run 0 .ok))
      (fun h (y : Calls Unit ℕ) =>
        (∃ ev ∈ h, Step.unlinks 0 ev = some [()] ∧ 28 < ev.before.time) ∧
        (∃ th : Call Unit ℕ, th ∈ y.threads[0]? ∧ th.op = .clear ∧ succeeded th = true) ∧
        y.shared.tier () = some ⟨1, some 28⟩ ∧ y.shared.remote () = none)
      (by decide +kernel)
  exact ⟨h, y, ev, hev, 28, th, hth, hr, hop, hret, hkeys, htier, hlt, hremote⟩

end Bluetape.RedisValue
