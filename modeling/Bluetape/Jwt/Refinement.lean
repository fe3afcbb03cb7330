import Bluetape.Jwt.CachedRuns

/-!
# Cached parsing against parsing

`cached_parse_refines`: whenever `ParseContext` of a cached provider returns a reader, there was a
moment of the run at which the parse without a cache, of the same token with the same options, would
have returned the same reader; and this moment is not before the call began, nor can the token have
been signed by a key that was deleted before, **unless the call has got the result of a flight that
had read the clock before the call began**.

Such flights are joined: `deleted_key_accepted` is a run in which `ParseContext` is called after
`DeleteKeyChainsContext` has returned nil, and accepts a token of a deleted key. Clearing the cache
advances the epoch, which keeps the flight from storing its reader, but leaves the flight in the
group.
-/

namespace Bluetape.Jwt

open GoString Conc Lts Option List

/-! ### What is kept of the shared state -/

/-- **What holds of the shared state**: what is cached was vetted, and what a flight has returned
was accepted when the clock was read. -/
structure Shared.Ok (E : Setup) (t : ℕ) (s : Shared) : Prop where
  world : s.world.Ok t
  cache : ∀ key r, s.cache key = some r → VettedFor E s.world key r
  result : ∀ id c, s.result id = some (.ok c) →
    ∃ l, s.world.started[id]? = some l ∧ CheckedAt E s.world l.cfg l.token c
  started : ∀ (id : ℕ) (l : Launch), s.world.started[id]? = some l → l.Proper E
  group : ∀ key id, s.group key = some id →
    ∃ l : Launch, s.world.started[id]? = some l ∧ l.key = key

open Shared

theorem VettedFor.mono {E : Setup} {w w' : World} {key : Text} {r : Reader}
    (h : VettedFor E w key r) (hle : w.Le w') : VettedFor E w' key r :=
  fun cfg token hclock hkey => (h cfg token hclock hkey).mono hle

namespace Shared.Ok

variable {E : Setup} {t : ℕ} {s : Shared}

theorem new (E : Setup) (now : ℤ) : (new now).Ok E 0 where
  world := by refine ⟨?_, ?_, ?_, ?_, ?_, ?_⟩ <;> exact fun _ h => absurd h not_mem_nil
  cache key r h := by cases h
  result id c h := by cases h
  started id l h := by cases h
  group key id h := by cases h

section

variable (h : s.Ok E t)
include h

theorem of_world {w : World} (hok : w.Ok (t + 1)) (hle : s.world.Le w)
    (hstarted : w.started = s.world.started) : Shared.Ok E (t + 1) { s with world := w } where
  world := hok
  cache key r hr := (h.cache key r hr).mono hle
  result id c hc := by
    obtain ⟨l, hl, hchecked⟩ := h.result id c hc
    exact ⟨l, hle.started id l hl, hchecked.mono hle⟩
  started id l hl := h.started id l (hstarted ▸ hl)
  group key id hg := by
    obtain ⟨l, hl, hkey⟩ := h.group key id hg
    exact ⟨l, hle.started id l hl, hkey⟩

theorem rotate {w : World} {key : KeyChain} {keys : List KeyChain}
    (hrot : s.world.rotate key keys = some w) :
    Shared.Ok E (t + 1) { s with world := w } ∧ s.world.Le w ∧ w.seen = s.world.seen ∧
      w.wiped = s.world.wiped := by
  have hle := World.Ok.le_rotate hrot
  have hok := h.world.rotate hrot
  obtain ⟨-, -, rfl⟩ := World.Ok.of_rotate hrot
  exact ⟨h.of_world hok hle rfl, hle, rfl, rfl⟩

theorem idle : s.Ok E (t + 1) := h.of_world h.world.idle (World.Le.refl _) rfl

theorem of_cache {cache : Text → Option Reader}
    (hcache : ∀ key r, cache key = some r → s.cache key = some r) :
    Shared.Ok E t { s with cache := cache } :=
  ⟨h.world, fun key r hr => h.cache key r (hcache key r hr), h.result, h.started, h.group⟩

theorem deleteCached (key : Text) : (s.deleteCached key).Ok E t := by
  refine h.of_cache fun k r hr => ?_
  by_cases hk : k = key
  · simp [hk] at hr
  · simpa [hk] using hr

theorem setCached {key : Text} {r : Reader} (hr : VettedFor E s.world key r) :
    (s.setCached key r).Ok E t := by
  refine ⟨h.world, fun k r' hr' => ?_, h.result, h.started, h.group⟩
  by_cases hk : k = key
  · subst hk
    obtain rfl : r = r' := by simpa [Shared.setCached] using hr'
    exact hr
  · exact h.cache k r' (by simpa [Shared.setCached, hk] using hr')

theorem forget (key : Text) : (s.forget key).Ok E t := by
  refine ⟨h.world, h.cache, h.result, h.started, fun k id hg => ?_⟩
  by_cases hk : k = key
  · simp [Shared.forget, hk] at hg
  · exact h.group k id (by simpa [Shared.forget, hk] using hg)

theorem finish {id : ℕ} {result : Except Failure Checked}
    (hresult : ∀ c, result = .ok c →
      ∃ l, s.world.started[id]? = some l ∧ CheckedAt E s.world l.cfg l.token c) :
    (s.finish id result).Ok E t := by
  refine ⟨h.world, h.cache, fun i c hc => ?_, h.started, fun key i hg => ?_⟩
  · by_cases hi : i = id
    · subst hi
      exact hresult c (by simpa [Shared.finish] using hc)
    · exact h.result i c (by simpa [Shared.finish, hi] using hc)
  · obtain ⟨-, hg⟩ := ite_none_left_eq_some.mp hg
    exact h.group key i hg

theorem launch {l : Launch} (hl : l.Proper E) :
    Shared.Ok E (t + 1) { s with
      world := s.world.launch l
      group := fun k => if k = l.key then some s.world.started.length else s.group k } := by
  have hle := World.Ok.le_launch s.world l
  have hnew : (s.world.launch l).started[s.world.started.length]? = some l :=
    getElem?_concat_length
  refine ⟨h.world.launch l, fun key r hr => (h.cache key r hr).mono hle, fun id c hc => ?_,
    forall_getElem?_concat h.started hl, fun key id hg => ?_⟩
  · obtain ⟨l', hl', hchecked⟩ := h.result id c hc
    exact ⟨l', hle.started id l' hl', hchecked.mono hle⟩
  · by_cases hk : key = l.key
    · simp only [if_pos hk] at hg
      cases hg
      exact ⟨l, hnew, hk.symm⟩
    · simp only [if_neg hk] at hg
      obtain ⟨l', hl', hkey⟩ := h.group key id hg
      exact ⟨l', hle.started id l' hl', hkey⟩

end

end Shared.Ok

/-! ### One action -/

/-- What an action that was allowed leaves, and what its answer tells. -/
structure Did (E : Setup) (t : ℕ) (s : Shared) (g : Ghost) (a : Action) (x : a.Answer)
    (s' : Shared) : Prop where
  ok : s'.Ok E (t + 1)
  le : s.world.Le s'.world
  seen : ∀ z ∈ s'.world.seen, z ∈ s.world.seen ∨ z = (t, s.world.snapshot)
  wiped : ∀ z ∈ s'.world.wiped, z ∈ s.world.wiped ∨ (a = .deleteAll ∧ z = (t, s.world.used))
  told : ∀ g' : Ghost, g'.world = s'.world → Told E t s g g' a x

open Did

variable {E : Setup} {t : ℕ} {s s' : Shared} {g : Ghost}

theorem Did.plain {a : Action} {x : a.Answer} (hok : s'.Ok E t) (hworld : s'.world = s.world)
    (htold : ∀ g' : Ghost, g'.world = s'.world → Told E t s g g' a x) : Did E t s g a x s' :=
  ⟨hok.idle, hworld ▸ World.Le.refl _, fun _ hz => .inl (hworld ▸ hz),
    fun _ hz => .inl (hworld ▸ hz), htold⟩

section

variable (h : s.Ok E t)
include h

theorem did_doChan {l : Launch} (hl : l.Proper E) :
    Did E t s g (.doChan l) (s.doChan l).1 (s.doChan l).2 := by
  unfold doChan
  cases hgroup : s.group l.key with
  | some id =>
    refine plain h rfl fun g' hg' => ?_
    obtain ⟨l', hl', hkey⟩ := h.group l.key id hgroup
    exact ⟨l', hg' ▸ hl', h.started id l' hl', hkey⟩
  | none =>
    refine ⟨h.launch hl, World.Ok.le_launch _ _, fun _ hz => .inl hz, fun _ hz => .inl hz,
      fun g' hg' => ⟨l, ?_, hl, rfl⟩⟩
    rw [hg']
    exact getElem?_concat_length

variable {now : ℤ} {c : Choice}

theorem did_find {kid : Text} {x : Except Failure KeyChain}
    (hexec : exec t s (.find kid now) c = some (x, s')) : Did E t s g (.find kid now) x s' := by
  simp only [exec] at hexec
  split at hexec
  · cases hexec
    exact plain h rfl fun _ _ => trivial
  · split at hexec <;> rename_i hfind <;> cases hexec
    · exact plain h rfl fun _ _ => hfind
    · exact plain h rfl fun _ _ => trivial

theorem did_deleteAll {x : Except Failure Unit}
    (hexec : exec t s .deleteAll c = some (x, s')) : Did E t s g .deleteAll x s' := by
  have hwipe : ∀ x' : Except Failure Unit,
      Did E t s g .deleteAll x' { s with world := s.world.wipe t } := by
    refine fun x' => ⟨h.of_world h.world.wipe (World.Ok.le_wipe _ _) rfl, World.Ok.le_wipe _ _,
      fun _ hz => .inl hz, fun z hz => ?_, fun g' hg' => ?_⟩
    · rcases mem_cons.mp hz with rfl | hold
      · exact .inr ⟨rfl, rfl⟩
      · exact .inl hold
    · cases x' with
      | error f => trivial
      | ok u =>
        change _ ∈ g'.world.wiped
        rw [hg']
        exact mem_cons_self
  cases c with
  | fail f effect =>
    cases hexec
    cases effect with
    | true => exact hwipe _
    | false => exact plain h rfl fun _ _ => trivial
  | _ =>
    cases hexec
    exact hwipe _

theorem did_get {key : Text} {x : Lookup}
    (hexec : exec t s (.get key) c = some (x, s')) : Did E t s g (.get key) x s' := by
  simp only [exec] at hexec
  split at hexec
  · cases hexec
    exact plain h rfl fun _ _ => trivial
  · split at hexec <;> rename_i hcache <;> cases hexec
    · exact plain h rfl fun _ _ => h.cache key _ hcache
    · exact plain h rfl fun _ _ => trivial

theorem did_wait (hg : g.world.Le s.world) {id : ℕ}
    {x : Option (Except Failure Checked)} (hexec : exec t s (.wait id) c = some (x, s')) :
    Did E t s g (.wait id) x s' := by
  simp only [exec] at hexec
  split at hexec
  · cases hexec
    exact plain h rfl fun _ _ => trivial
  · obtain ⟨r, hr, ⟨⟩⟩ := map_eq_some_iff.mp hexec
    refine plain h rfl fun _ _ => ?_
    cases r with
    | error f => trivial
    | ok c' =>
      intro l hl
      obtain ⟨l', hl', hchecked⟩ := h.result id c' hr
      obtain rfl := mem_unique (hg.started id l hl) hl'
      exact hchecked

/-- **Every action that is allowed keeps what holds.** -/
theorem did_of_exec (hg : g.world.Le s.world) {a : Action} (ha : Allowed E g a)
    {x : a.Answer} (hexec : exec t s a c = some (x, s')) : Did E t s g a x s' := by
  cases a with
  | ctxErr | loadEpoch =>
    cases hexec
    exact plain h rfl fun _ _ => trivial
  | now =>
    cases hexec
    refine ⟨h.of_world h.world.look (World.Ok.le_look _ _) rfl, World.Ok.le_look _ _,
      fun z hz => ?_, fun _ hz => .inl hz, fun g' hg' => ⟨rfl, ?_⟩⟩
    · rcases mem_cons.mp hz with rfl | hold
      · exact .inr rfl
      · exact .inl hold
    · rw [hg']
      exact mem_cons_self
  | customNow =>
    cases c with
    | time now =>
      cases hexec
      exact plain h rfl fun _ _ => trivial
    | _ => cases hexec
  | find kid now => exact did_find h hexec
  | deleteAll => exact did_deleteAll h hexec
  | forcedRotate =>
    cases c with
    | store key keys =>
      obtain ⟨w, hrot, heq⟩ := map_eq_some_iff.mp hexec
      cases heq
      obtain ⟨hok, hle, hseen, hwiped⟩ := h.rotate hrot
      exact ⟨hok, hle, fun _ hz => .inl (hseen ▸ hz), fun _ hz => .inl (hwiped ▸ hz),
        fun _ _ => trivial⟩
    | fail f effect =>
      cases hexec
      exact plain h rfl fun _ _ => trivial
    | _ => cases hexec
  | get key => exact did_get h hexec
  | delete key =>
    cases hexec
    cases c.effect with
    | true => exact plain (h.deleteCached key) rfl fun _ _ => trivial
    | false => exact plain h rfl fun _ _ => trivial
  | setIfEpoch key r epoch =>
    by_cases hepoch : s.epoch = epoch
    · simp only [exec, if_pos hepoch] at hexec
      cases hexec
      cases c.effect with
      | true => exact plain (h.setCached (VettedFor.mono ha hg)) rfl fun _ _ => trivial
      | false => exact plain h rfl fun _ _ => trivial
    · simp only [exec, if_neg hepoch] at hexec
      cases hexec
      exact plain h rfl fun _ _ => trivial
  | clear =>
    cases hexec
    have hepoch : Shared.Ok E t { s with epoch := s.epoch + 1 } :=
      ⟨h.world, h.cache, h.result, h.started, h.group⟩
    cases c.effect with
    | true => exact plain (hepoch.of_cache nofun) rfl fun _ _ => trivial
    | false => exact plain hepoch rfl fun _ _ => trivial
  | doChan l =>
    obtain ⟨rfl, rfl⟩ := Prod.mk.inj (Option.some.inj hexec)
    exact did_doChan h ha
  | wait id => exact did_wait h hg hexec
  | forget key =>
    cases hexec
    exact plain (h.forget key) rfl fun _ _ => trivial
  | take id =>
    obtain ⟨-, htake⟩ := ite_none_left_eq_some.mp hexec
    obtain ⟨l, hl, heq⟩ := map_eq_some_iff.mp htake
    obtain ⟨rfl, rfl⟩ := Prod.mk.inj heq
    have hok : Shared.Ok E t { s with taken := fun i => decide (i = id) || s.taken i } :=
      ⟨h.world, h.cache, h.result, h.started, h.group⟩
    refine plain hok rfl fun g' hg' => ⟨?_, h.started id l hl⟩
    rw [hg']
    exact hl
  | finish id result =>
    cases hexec
    refine plain (h.finish fun c hc => ?_) rfl fun _ _ => trivial
    subst hc
    obtain ⟨l, hl, hchecked⟩ := ha
    exact ⟨l, hg.started id l hl, hchecked.mono hg⟩

/-- **So does every step of the environment.** -/
theorem ok_of_env {e : Env} (henv : env s e = some s') :
    s'.Ok E (t + 1) ∧ s.world.Le s'.world ∧ s'.world.seen = s.world.seen ∧
      s'.world.wiped = s.world.wiped := by
  cases e with
  | tick d =>
    cases henv
    exact ⟨h.of_world (h.world.tick d) (World.Ok.le_tick _ d) rfl, World.Ok.le_tick _ d, rfl, rfl⟩
  | evict key =>
    cases henv
    exact ⟨(h.deleteCached key).idle, World.Le.refl _, rfl, rfl⟩
  | rotate key keys =>
    obtain ⟨w, hrot, rfl⟩ := map_eq_some_iff.mp henv
    exact h.rotate hrot
  | deleteAll =>
    cases henv
    exact ⟨h.of_world h.world.deleteAll (World.Ok.le_deleteAll _) rfl, World.Ok.le_deleteAll _, rfl,
      rfl⟩

end

/-! ### The outline -/

/-- What holds of the shared state and of what the threads know. -/
def outline (E : Setup) (now : ℤ) :
    Outline Action Action.Answer Loop Outcome Shared Op Ghost where
  proto := protocol E
  inv t s gs := s.Ok E t ∧ (new now).world.Le s.world ∧ ∀ g ∈ gs, g.world.Le s.world ∧ g.time ≤ t
  ghost _ t := ⟨(new now).world, t, t, false⟩
  loop := InLoop
  post := Post E

variable {gs : List Ghost}

theorem inv_mono (h : (outline E now).inv t s gs) (hok : s'.Ok E (t + 1))
    (hle : s.world.Le s'.world) : (outline E now).inv (t + 1) s' gs :=
  ⟨hok, h.2.1.trans hle, fun g hg =>
    ⟨(h.2.2 g hg).1.trans hle, Nat.le_succ_of_le (h.2.2 g hg).2⟩⟩

/-- **The outline is one of the cached provider.** -/
theorem outline_valid (hsha : ∀ a b, E.sha256 a = E.sha256 b → a = b) (now : ℤ) :
    (outline E now).Valid (machine E) where
  start op t := by
    cases op with
    | parse token options => exact wp_parseContext rfl (Nat.le_refl t)
    | forcedRotate => exact wp_forcedRotate
    | deleteKeyChains => exact wp_deleteKeyChains (Nat.le_refl t)
    | clearCache =>
      exact wp_clearCache fun r g _ => post_other _ nofun nofun
    | fly id => exact wp_fly hsha
  body op t l g h := wp_parseLoop hsha h
  begin op t s gs h := by
    refine ⟨h.1.idle, h.2.1, forall_mem_concat (fun g hg => ?_) ⟨h.2.1, Nat.le_succ t⟩⟩
    exact ⟨(h.2.2 g hg).1, Nat.le_succ_of_le (h.2.2 g hg).2⟩
  idle t s gs h := inv_mono h h.1.idle (World.Le.refl _)
  env t s gs e s' h henv := by
    obtain ⟨hok, hle, -⟩ := ok_of_env h.1 henv
    exact inv_mono h hok hle
  act t s gs i g a c x s' h hg ha hexec := by
    obtain ⟨hle, htime⟩ := h.2.2 g (mem_of_getElem? hg)
    have hdid := did_of_exec h.1 hle ha hexec
    refine ⟨⟨s'.world, t, g.began, g.stale || Stale g.began a x⟩,
      ⟨hle, hdid.le, h.1.world, htime, rfl, rfl, rfl, hdid.told _ rfl⟩, ?_⟩
    obtain ⟨hok, hnew, hgs⟩ := inv_mono h hdid.ok hdid.le
    exact ⟨hok, hnew, forall_mem_set hgs ⟨World.Le.refl _, Nat.le_succ t⟩⟩

theorem inv_new (E : Setup) (now : ℤ) : (outline E now).inv 0 (new now) [] :=
  ⟨.new E now, World.Le.refl _, nofun⟩

/-! ### Runs -/

abbrev State := Pool Action Action.Answer Loop Outcome Shared Op

abbrev Call := Thread Action Action.Answer Loop Outcome Op

abbrev Event := Lts.Event State (Label Env Op Choice)

/-- The thread gets the result of a flight that had read the clock before the thread began. -/
def joinsLate (i : ℕ) (ev : Event) : Bool :=
  match ev.label with
  | .run j c => decide (j = i) && (ev.before.threads[i]?).any fun th =>
      match th.prog with
      | .act a _ =>
        (exec ev.before.time ev.before.shared a c).any fun r => Stale th.began a r.1
      | _ => false
  | _ => false

/-- **What a history says of the state it has led to**: what was seen and what was deleted, was so
at a step. -/
structure Recorded (h : List Event) (y : State) : Prop where
  past : ∀ ev ∈ h, ev.before.time < y.time ∧ ev.before.shared.world.Le y.shared.world
  order : ∀ ev ∈ h, ∀ ev' ∈ h, ev.before.time ≤ ev'.before.time →
    ev.before.shared.world.Le ev'.before.shared.world
  seen : ∀ z ∈ y.shared.world.seen, ∃ ev ∈ h, ev.before.time = z.1 ∧
    ev.before.shared.world.snapshot = z.2
  wiped : ∀ z ∈ y.shared.world.wiped, ∃ ev ∈ h, ev.before.time = z.1 ∧
    ev.before.shared.world.used = z.2 ∧ ev.before.action ev.label = some .deleteAll

structure Changed (y : State) (l : Label Env Op Choice) (y' : State) : Prop where
  le : y.shared.world.Le y'.shared.world
  seen : ∀ z ∈ y'.shared.world.seen, z ∈ y.shared.world.seen ∨
    z = (y.time, y.shared.world.snapshot)
  wiped : ∀ z ∈ y'.shared.world.wiped, z ∈ y.shared.world.wiped ∨
    (y.action l = some .deleteAll ∧ z = (y.time, y.shared.world.used))

variable {l : Label Env Op Choice} {y y' : State}

theorem changed_of_step (h : (outline E now).Holds y gs) (hstep : (machine E).step y l = some y') :
    Changed y l y' := by
  cases l with
  | begin op =>
    cases hstep
    exact ⟨World.Le.refl _, fun _ hz => .inl hz, fun _ hz => .inl hz⟩
  | run i c =>
    obtain ⟨th, a, k, x, s', hth, hprog, hexec, rfl⟩ := Machine.of_step_run hstep
    have haction : y.action (.run i c : Label Env Op Choice) = some a := by
      simp [Pool.action, hth, hprog, Prog.next]
    obtain ⟨g, hg, hallowed⟩ := h.allowed haction
    have hdid := did_of_exec h.inv.1 (h.inv.2.2 g (mem_of_getElem? hg)).1 hallowed hexec
    refine ⟨hdid.le, hdid.seen, fun z hz => ?_⟩
    rcases hdid.wiped z hz with hold | ⟨rfl, rfl⟩
    · exact .inl hold
    · exact .inr ⟨haction, rfl⟩
  | jump i =>
    obtain ⟨th, l, -, -, rfl⟩ := Machine.of_step_jump hstep
    exact ⟨World.Le.refl _, fun _ hz => .inl hz, fun _ hz => .inl hz⟩
  | env e =>
    obtain ⟨s', henv, rfl⟩ := map_eq_some_iff.mp hstep
    obtain ⟨-, hle, hseen, hwiped⟩ := ok_of_env h.inv.1 henv
    exact ⟨hle, fun _ hz => .inl (hseen ▸ hz), fun _ hz => .inl (hwiped ▸ hz)⟩

variable {h : List Event}

theorem Recorded.step (hrec : Recorded h y) (htime : y'.time = y.time + 1)
    (hchange : Changed y l y') : Recorded (⟨y, l, y'⟩ :: h) y' where
  past := by
    refine forall_mem_cons.mpr ⟨⟨htime ▸ Nat.lt_succ_self _, hchange.le⟩, fun ev hev => ?_⟩
    obtain ⟨hlt, hle⟩ := hrec.past ev hev
    exact ⟨htime ▸ Nat.lt_succ_of_lt hlt, hle.trans hchange.le⟩
  order := by
    refine forall_mem_cons.mpr ⟨forall_mem_cons.mpr ⟨fun _ => World.Le.refl _, ?_⟩, ?_⟩
    · exact fun ev hev hle => absurd hle (Nat.not_le_of_lt (hrec.past ev hev).1)
    · exact fun ev hev => forall_mem_cons.mpr ⟨fun _ => (hrec.past ev hev).2, hrec.order ev hev⟩
  seen z hz := by
    rcases hchange.seen z hz with hold | rfl
    · exact exists_mem_cons_of_exists (hrec.seen z hold)
    · exact ⟨_, mem_cons_self, rfl, rfl⟩
  wiped z hz := by
    rcases hchange.wiped z hz with hold | ⟨haction, rfl⟩
    · exact exists_mem_cons_of_exists (hrec.wiped z hold)
    · exact ⟨_, mem_cons_self, rfl, rfl, haction⟩

def Tracks (h : List Event) (y : State) (gs : List Ghost) : Prop :=
  ∀ i th g, y.threads[i]? = some th → gs[i]? = some g →
    g.began = th.began ∧ (g.stale = true → ∃ ev ∈ h, joinsLate i ev = true)

variable {y : State}

theorem Tracks.cons (hT : Tracks h y gs) (ev : Event) : Tracks (ev :: h) y gs := by
  intro i th g hth hg
  obtain ⟨hbegan, hstale⟩ := hT i th g hth hg
  exact ⟨hbegan, fun hs => exists_mem_cons_of_exists (hstale hs)⟩

/-- **A step of a run.** -/
theorem Tracks.step {gs gs' : List Ghost} (hgs : (outline E now).Holds y gs) (hT : Tracks h y gs)
    (hstep : (machine E).step y l = some y')
    (hmoves : (outline E now).Moves (machine E) y l gs gs') :
    Tracks (⟨y, l, y'⟩ :: h) y' gs' := by
  have hT' := hT.cons ⟨y, l, y'⟩
  cases l with
  | begin op =>
    cases hstep
    obtain rfl := hmoves
    intro i th g hth hg
    rcases getElem?_concat hg with hold | ⟨rfl, rfl⟩
    · rcases getElem?_concat hth with hth | ⟨rfl, -⟩
      · exact hT' i th g hth hold
      · simp [← hgs.length_eq] at hold
    · rw [hgs.length_eq, getElem?_concat_length] at hth
      cases hth
      exact ⟨rfl, nofun⟩
  | run j c =>
    obtain ⟨th, a, k, x, s', hth, hprog, hexec, rfl⟩ := Machine.of_step_run hstep
    obtain ⟨a', g, x', s'', g', haction, hg, -, hexec', hmove, rfl⟩ := hmoves
    have ha : y.action (.run j c : Label Env Op Choice) = some a := by
      simp [Pool.action, hth, hprog, Prog.next]
    obtain rfl := mem_unique ha haction
    obtain ⟨rfl, -⟩ := Prod.mk.inj (mem_unique hexec hexec')
    intro i th₁ g₁ hth₁ hg₁
    by_cases hij : j = i
    · subst hij
      rw [getElem?_set_of_some hth] at hth₁
      rw [getElem?_set_of_some hg] at hg₁
      cases hth₁
      cases hg₁
      obtain ⟨hbegan, hstale⟩ := hT' j th g hth hg
      refine ⟨hmove.began.trans hbegan, fun hs => ?_⟩
      rw [hmove.stale, Bool.or_eq_true] at hs
      rcases hs with hold | hnew
      · exact hstale hold
      · -- The answer is a result that was checked before the thread began.
        refine ⟨_, mem_cons_self, ?_⟩
        have hexec'' : exec y.time y.shared a c = some (x, s') := hexec
        rw [hbegan] at hnew
        simp [joinsLate, hth, hprog, hexec'', hnew]
    · rw [getElem?_set_ne hij] at hth₁ hg₁
      exact hT' i th₁ g₁ hth₁ hg₁
  | jump j =>
    obtain ⟨th, l, hth, -, rfl⟩ := Machine.of_step_jump hstep
    obtain rfl := hmoves
    intro i th₁ g hth₁ hg
    rcases getElem?_set_cases hth₁ with ⟨rfl, rfl⟩ | ⟨-, hth₁⟩
    · exact hT' i th g hth hg
    · exact hT' i th₁ g hth₁ hg
  | env e =>
    obtain ⟨s', -, rfl⟩ := map_eq_some_iff.mp hstep
    obtain rfl := hmoves
    exact hT'

variable (hsha : ∀ a b, E.sha256 a = E.sha256 b → a = b)
  (hr : Run (machine E).step (.new (new now)) h y)

include hsha hr in
/-- **What holds in all runs.** -/
theorem exists_tracks :
    Recorded h y ∧ ∃ gs, (outline E now).Holds y gs ∧ Tracks h y gs := by
  induction hr with
  | nil =>
    refine ⟨⟨?_, ?_, ?_, ?_⟩, [], Outline.holds_new (inv_new E now), ?_⟩ <;> exact nofun
  | snoc hr hstep ih =>
    obtain ⟨hrec, gs, hgs, hT⟩ := ih
    obtain ⟨gs', hgs', hmoves⟩ := (outline_valid hsha now).step hgs hstep
    exact ⟨hrec.step (Machine.time_of_step hstep) (changed_of_step hgs hstep), gs', hgs',
      hT.step hgs hstep hmoves⟩

/-! ### The moment of a parse -/

include hsha hr in
/-- **A cached parse was accepted at a moment of the call**, if it has not joined a flight late. -/
theorem exists_moment {i : ℕ} {th : Call} {cfg : ParseConfig} {token : Text} {c : Checked}
    (hth : y.threads[i]? = some th)
    (hparse : CachedParse th.op cfg token) (hresult : th.prog.result = some (.parsed (.ok c)))
    (hfresh : ∀ ev ∈ h, joinsLate i ev = false) :
    ∃ ev ∈ h, th.began ≤ ev.before.time ∧
      (ev.before.time, ev.before.shared.world.snapshot) ∈ y.shared.world.seen ∧
      parse E.jws E.provider ev.before.shared.world.keys ev.before.shared.world.now cfg token =
        some c.reader := by
  obtain ⟨hrec, gs, hgs, hT⟩ := exists_tracks hsha hr
  obtain ⟨g, hg, hpost, -⟩ := hgs.post hth hresult
  obtain ⟨⟨x, hx, haccept⟩, htime⟩ := hpost cfg token c hparse rfl
  have hstale : g.stale = false := by
    refine eq_false_of_ne_true fun hs => ?_
    obtain ⟨ev, hev, hjoin⟩ := (hT i th g hth hg).2 hs
    exact nomatch (hfresh ev hev).symm.trans hjoin
  have hseen := (hgs.inv.2.2 g (mem_of_getElem? hg)).1.seen _ hx
  obtain ⟨ev, hev, hevtime, hevsnap⟩ := hrec.seen _ hseen
  subst hevsnap
  exact ⟨ev, hev, hevtime ▸ htime hstale, hevtime ▸ hseen, haccept⟩

theorem exists_key_of_parse {jws : Jws} {p : Provider} {keys : List KeyChain} {cfg : ParseConfig}
    {token : Text} {r : Reader} (hfixed : p.fixedKey = none)
    (h : parse jws p keys now cfg token = some r) : ∃ k ∈ keys, k.kid = r.kid := by
  obtain ⟨-, h⟩ := ite_none_left_eq_some.mp h
  obtain ⟨r', -, h⟩ := bind_eq_some_iff.mp h
  obtain ⟨k, hfind, h⟩ := bind_eq_some_iff.mp h
  obtain ⟨-, ⟨⟩⟩ := ite_none_right_eq_some.mp h
  rw [Provider.find, hfixed] at hfind
  obtain ⟨-, hmem, hkid, -⟩ := of_repoFind_eq_some hfind
  exact ⟨k, hmem, hkid⟩

include hsha hr in
/-- **A deletion that has ended**: it took place at a step of it. -/
theorem exists_deletion {ev : Event} (hev : ev ∈ h) {d : Call} (hd : d ∈ ev.before.threads)
    (hop : d.op = .deleteKeyChains)
    (hresult : d.prog.result = some (.ended (.ok ()))) :
    ∃ del ∈ h, d.began ≤ del.before.time ∧ del.before.time < ev.before.time ∧
      del.before.action del.label = some .deleteAll ∧
      (del.before.time, del.before.shared.world.used) ∈ y.shared.world.wiped := by
  obtain ⟨hrec, -⟩ := exists_tracks hsha hr
  obtain ⟨gs, hgs⟩ := (outline_valid hsha now).before (inv_new E now) hr _ hev
  obtain ⟨j, hj⟩ := mem_iff_getElem?.mp hd
  obtain ⟨g, hg, -, hpost⟩ := hgs.post hj hresult
  obtain ⟨x, hx, hle⟩ := hpost hop rfl
  have hx' := (hgs.inv.2.2 g (mem_of_getElem? hg)).1.wiped x hx
  have hlt := hgs.inv.1.world.wiped_lt x hx'
  have hwiped := (hrec.past ev hev).2.wiped x hx'
  obtain ⟨del, hdel, htime, hused, haction⟩ := hrec.wiped x hwiped
  refine ⟨del, hdel, htime ▸ hle, htime ▸ hlt, haction, ?_⟩
  rw [htime, hused]
  exact hwiped

/-- **Cached parsing refines parsing**, unless a call joins a flight that has read the clock before
the call began: whenever `ParseContext` has returned a reader, there is a moment from the start of
the call on at which the parse without a cache, of the same token with the same options, returns
the same reader. In particular, if `DeleteKeyChainsContext` has returned nil before the call
began, then it has deleted the keys at a moment, and no key that was stored up to then has the kid
of the reader. -/
theorem cached_parse_refines (E : Setup) (hsha : ∀ a b, E.sha256 a = E.sha256 b → a = b) (now : ℤ)
    (h : List Event) (y : State)
    (hr : Run (machine E).step (.new (new now)) h y) (i : ℕ)
    (th : Call) (token : Text)
    (options : List (Option ParseOption)) (cfg : ParseConfig) (c : Checked)
    (hth : y.threads[i]? = some th) (hop : th.op = .parse token options)
    (hcfg : normalizeParseConfig options = .ok cfg) (hclock : cfg.customClock = false)
    (hresult : th.prog.result = some (.parsed (.ok c)))
    (hfresh : ∀ ev ∈ h, joinsLate i ev = false) :
    (∃ ev ∈ h, th.began ≤ ev.before.time ∧
      parse E.jws E.provider ev.before.shared.world.keys ev.before.shared.world.now cfg token =
        some c.reader) ∧
    (E.provider.fixedKey = none → ∀ ev ∈ h, ev.before.time = th.began →
      ∀ d ∈ ev.before.threads, d.op = .deleteKeyChains →
        d.prog.result = some (.ended (.ok ())) →
        ∃ del ∈ h, d.began ≤ del.before.time ∧ del.before.time < th.began ∧
          del.before.action del.label = some .deleteAll ∧
          ∀ ev' ∈ h, ev'.before.time ≤ del.before.time →
            ∀ k ∈ ev'.before.shared.world.keys, k.kid ≠ c.reader.kid) := by
  obtain ⟨m, hm, hbegan, hseen, haccept⟩ :=
    exists_moment hsha hr hth ⟨options, hop, hcfg, hclock⟩ hresult hfresh
  refine ⟨⟨m, hm, hbegan, haccept⟩, ?_⟩
  intro hfixed ev hev hevtime d hd hdop hdresult
  obtain ⟨del, hdel, hle, hlt, haction, hwiped⟩ := exists_deletion hsha hr hev hd hdop hdresult
  refine ⟨del, hdel, hle, hevtime ▸ hlt, haction, ?_⟩
  intro ev' hev' hbefore k hk hkid
  -- The key had been stored when the keys were deleted, so it was not there at the moment of the
  -- parse; but the one that was there has the same kid.
  obtain ⟨hrec, gs, hgs, -⟩ := exists_tracks hsha hr
  have hok := hgs.inv.1.world
  obtain ⟨k₀, hk₀, hkid₀⟩ := exists_key_of_parse hfixed haccept
  have hkeys : ∀ e ∈ h, ∀ k ∈ e.before.shared.world.keys, k ∈ e.before.shared.world.used := by
    intro e he k hk
    obtain ⟨gs', hgs'⟩ := (outline_valid hsha now).before (inv_new E now) hr _ he
    exact hgs'.inv.1.world.keys k hk
  have hmem : k ∈ del.before.shared.world.used :=
    (hrec.order ev' hev' del hdel hbefore).used k (hkeys ev' hev' k hk)
  obtain rfl : k = k₀ :=
    hok.distinct k ((hrec.past del hdel).2.used k hmem) k₀
      ((hrec.past m hm).2.used k₀ (hkeys m hm k₀ hk₀)) (hkid.trans hkid₀.symm)
  have hafter : del.before.time < m.before.time := by omega
  exact hok.unseen _ hwiped _ hseen hafter k hmem hk₀

/-! ### A run -/

namespace OneKey

def key : KeyChain := ⟨ascii "k", ascii "HS256", 0, none, []⟩

def reader : Reader := ⟨ascii "k", ascii "HS256", [], ⟨some 1000, []⟩⟩

/-- One token is signed by the key, and claims are valid until the time of `exp`. -/
def jws : Jws where
  decode token := if token = ascii "t" then some reader else none
  supported _ := true
  verifies _ k := decide (k = key)
  validClaims _ now c := !c.expiresAt.any fun t => decide (t ≤ now)
  valid_until_expired _ _ hlive _ := congrArg not hlive

def setup : Setup where
  jws := jws
  provider := ⟨ascii "HS256", none⟩
  sha256 := id
  scope := ⟨ascii "jwt", ascii "s", ascii "HS256"⟩
  maxTTL := 60

/-- The key is stored, and a call of `ParseContext` starts a flight, which parses the token. -/
def parsing : List (Label Env Op Choice) :=
  [.env (.rotate key [key]), .begin (.parse (ascii "t") []), .run 0 .ok, .run 0 .ok, .jump 0,
    .run 0 .ok, .run 0 .ok, .begin (.fly 0)] ++ List.replicate 9 (.run 1 .ok)

/-- The flight keeps the reader and returns it to the call. -/
def returning : List (Label Env Op Choice) := [.run 1 .ok, .run 1 .ok, .run 0 .ok]

/-- A second call finds the reader in the cache, and asks for the time and for the key. -/
def again : List (Label Env Op Choice) :=
  .begin (.parse (ascii "t") []) :: List.replicate 6 (.run 2 .ok)

/-- Meanwhile the keys are deleted, and only then a second call begins. -/
def deleting : List (Label Env Op Choice) :=
  [.begin .deleteKeyChains, .run 2 .ok, .run 2 .ok, .run 2 .ok, .run 2 .ok,
    .begin (.parse (ascii "t") []), .run 3 .ok, .run 3 .ok, .jump 3, .run 3 .ok, .run 3 .ok]

end OneKey

open OneKey

/-- A call that starts a flight of its own, and one after it that is answered from the cache: there
is one flight only. -/
theorem cached_parse_refines_twice :
    ∃ h y first second c c', Run (machine setup).step (.new (new 0)) h y ∧
      y.shared.world.started.length = 1 ∧
      y.threads[0]? = some first ∧ first.prog.result = some (.parsed (.ok c)) ∧
      y.threads[2]? = some second ∧ second.prog.result = some (.parsed (.ok c')) ∧
      (∃ ev ∈ h, first.began ≤ ev.before.time ∧
        parse setup.jws setup.provider ev.before.shared.world.keys ev.before.shared.world.now
          .default (ascii "t") = some c.reader) ∧
      ∃ ev ∈ h, second.began ≤ ev.before.time ∧
        parse setup.jws setup.provider ev.before.shared.world.keys ev.before.shared.world.now
          .default (ascii "t") = some c'.reader := by
  obtain ⟨h, y, hr, hone, ⟨th, hth, hop, hresult, hfresh⟩, th', hth', hop', hresult', hfresh'⟩ :=
    exists_run (machine setup).step (.new (new 0)) (parsing ++ returning ++ again)
      (fun h y => y.shared.world.started.length = 1 ∧
        (∃ th : Call, th ∈ y.threads[0]? ∧ th.op = .parse (ascii "t") [] ∧
          th.prog.result = some (.parsed (.ok ⟨reader, 13⟩)) ∧ ∀ ev ∈ h, joinsLate 0 ev = false) ∧
        ∃ th : Call, th ∈ y.threads[2]? ∧ th.op = .parse (ascii "t") [] ∧
          th.prog.result = some (.parsed (.ok ⟨reader, 24⟩)) ∧ ∀ ev ∈ h, joinsLate 2 ev = false)
      (by decide +kernel)
  have hsha : ∀ a b, setup.sha256 a = setup.sha256 b → a = b := fun _ _ hsame => hsame
  have hfirst := cached_parse_refines setup hsha 0 h y hr 0 th (ascii "t") [] .default ⟨reader, 13⟩
    hth hop rfl rfl hresult hfresh
  have hsecond := cached_parse_refines setup hsha 0 h y hr 2 th' (ascii "t") [] .default
    ⟨reader, 24⟩ hth' hop' rfl rfl hresult' hfresh'
  exact ⟨h, y, th, th', _, _, hr, hone, hth, hresult, hth', hresult', hfirst.1, hsecond.1⟩

/-- **A call that joins a flight late.** `DeleteKeyChainsContext` has returned nil before
`ParseContext` is called, which returns the reader of a token that only the deleted key has signed;
from its beginning on the parse without a cache accepts nothing. -/
theorem deleted_key_accepted :
    ∃ h y th, Run (machine setup).step (.new (new 0)) h y ∧
      y.threads[3]? = some th ∧ th.op = .parse (ascii "t") [] ∧
      th.prog.result = some (.parsed (.ok ⟨reader, 13⟩)) ∧
      (∃ ev ∈ h, ev.before.time = th.began ∧ ∃ d ∈ ev.before.threads,
        d.op = .deleteKeyChains ∧ d.prog.result = some (.ended (.ok ())) ∧
        ∃ ev' ∈ h, ev'.before.time ≤ d.began ∧
          ∃ k ∈ ev'.before.shared.world.keys, k.kid = reader.kid) ∧
      ∀ ev ∈ h, th.began ≤ ev.before.time →
        parse setup.jws setup.provider ev.before.shared.world.keys ev.before.shared.world.now
          .default (ascii "t") = none := by
  simp only [exists_and_left]
  set_option synthInstance.maxSize 512 in
  exact exists_run _ _ (parsing ++ deleting ++ [.run 1 .ok, .run 1 .ok, .run 3 .ok]) _
    (by decide +kernel)

end Bluetape.Jwt
