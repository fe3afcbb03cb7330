import Bluetape.Jwt.RedisRetention

/-!
# Rotations of the Redis repository

`Rotate` is two scripts with the creation of a key between them, and everything may happen in
between. What holds in every run of the repository (`rotates_by_cas`):

* **A rotation replaces what it has seen**: if there is a current key then, it is the one that this
  `Rotate` had looked at and could not use; otherwise nothing is stored, and the call decodes the
  key that is current (`Rotates`).
* **Rotations with one clock agree**: as long as only such rotations store anything, all of them
  return the same key. A key that can be used at this time is not replaced, since nobody has found
  that it cannot.
* **After a key was stored**, pointer, hash and sorted set fit (`Retains`).

A `Rotate` that finds the pointer at a newer key need not return it: the key may have expired at its
own time (`current_refused`).
-/

namespace Bluetape.Jwt.Redis

open GoString Lts Option List

/-! ### What is stated -/

def Found (cfg : Config) (h : List Ev) (i : ℕ) (now : ℤ) (cur : KeyChain) : Prop :=
  (∃ f, decode cfg cur now = .error f) ∧
    ∃ ev ∈ h, ev.label = .act i .observe ∧ ev.before.store.currentKey = some cur

/-- **A `Rotate` stores its key**, if the current one is missing or is the one that it has found to
be of no use; **otherwise it stores nothing**, and returns what it can decode of the current one. -/
def Rotates (cfg : Config) (older : List Ev) (ev : Ev) : Prop :=
  ∀ i lost c observed key, ev.label = .act i (.store lost) → ev.before.calls[i]? = some c →
    c.kind = .rotate → c.phase = .storing observed key →
    (ev.after.store = ev.before.store.put cfg key ∧
      (ev.before.store.currentKey = none ∨ ∃ cur, ev.before.store.currentKey = some cur ∧
        cur.kid = observed ∧ Found cfg older i c.now cur)) ∨
    (ev.after.store = ev.before.store ∧
      ∃ cur, ev.before.store.currentKey = some cur ∧ cur.kid ≠ observed ∧
        (lost = false → ev.after.calls[i]?.map Call.phase = some (returns (decode cfg cur c.now))))

/-- Only a `Rotate` with this clock may store something here. -/
def Ev.quiet (now : ℤ) (ev : Ev) : Bool :=
  match ev.label with
  | .expire => false
  | .act _ (.delete _) => false
  | .act i (.store _) => ev.before.calls[i]?.any fun c => decide (c.kind = .rotate ∧ c.now = now)
  | _ => true

/-- **A `Rotate` with this clock returns the key.** -/
def ReturnsKey (now : ℤ) (key : KeyChain) (ev : Ev) : Prop :=
  ∃ i a c c', ev.label = .act i a ∧ ev.before.calls[i]? = some c ∧ c.kind = .rotate ∧ c.now = now ∧
    ev.after.calls[i]? = some c' ∧ c'.phase = .returned (.ok (some key))

/-- **Storing a key retains the newest**, if it is stored. -/
def Stores (cfg : Config) (ev : Ev) : Prop :=
  ∀ i lost c observed key, ev.label = .act i (.store lost) → ev.before.calls[i]? = some c →
    c.phase = .storing observed key →
    Retains cfg key ev.before.store ev.after.store ∨
      c.kind = .rotate ∧ ev.after.store = ev.before.store

/-! ### The invariant -/

structure StoreOk (s : Store) : Prop where
  same : SameKids s
  current : ∀ kid, s.current = some kid → kid ≠ [] ∧ s.keys.get kid ≠ none

/-- What `Rotate` had seen. -/
def Phase.Observed : Phase → Text → Prop
  | .creating o, observed => o = observed
  | .storing o _, observed => o = observed
  | _, _ => False

/-- **The invariant.** -/
structure Inv (cfg : Config) (h : List Ev) (y : Sys) : Prop where
  store : StoreOk y.store
  stored : ∀ (kid : Text) (k : KeyChain), y.store.keys.get kid = some k → k ∈ y.created
  distinct : (y.created.map KeyChain.kid).Nodup
  valid : ∀ k ∈ y.created, k.kid ≠ []
  storing : ∀ (i : ℕ) (c : Call) (observed : Text) (key : KeyChain), y.calls[i]? = some c →
    c.phase = .storing observed key → key ∈ y.created
  observed : ∀ (i : ℕ) (c : Call) (observed : Text), y.calls[i]? = some c → c.kind = .rotate →
    c.phase.Observed observed →
    observed = [] ∨ ∃ cur ∈ y.created, cur.kid = observed ∧ Found cfg h i c.now cur

section Store

variable {cfg : Config} {s : Store} {observed : Text} {key cur : KeyChain}

theorem storeOk_empty : StoreOk .empty :=
  ⟨fun _ => iff_of_true rfl rfl, nofun⟩

theorem StoreOk.put (hok : StoreOk s) (hkid : key.kid ≠ []) : StoreOk (s.put cfg key) := by
  have hretains : Retains cfg key s (s.put cfg key) := retains_put hok.same
  refine ⟨hretains.same, fun kid hcur => ?_⟩
  obtain rfl := mem_unique hretains.current hcur
  exact ⟨hkid, fun hnone => nomatch hnone.symm.trans hretains.payload⟩

theorem currentKey_put (hok : StoreOk s) : (s.put cfg key).currentKey = some key := by
  have hretains : Retains cfg key s (s.put cfg key) := retains_put hok.same
  rw [Store.currentKey, hretains.current]
  exact hretains.payload

/-- **What the script of a rotation does.** -/
theorem rotateCAS_cases (hok : StoreOk s) (cfg : Config) (observed : Text) (key : KeyChain) :
    (rotateCAS cfg s observed key = (key, s.put cfg key) ∧
      (s.currentKey = none ∨ ∃ cur, s.currentKey = some cur ∧ cur.kid = observed)) ∨
    ∃ cur, s.currentKey = some cur ∧ cur.kid ≠ observed ∧
      rotateCAS cfg s observed key = (cur, s) := by
  unfold rotateCAS
  cases hcurrent : s.current with
  | none =>
    refine .inl ⟨rfl, .inl ?_⟩
    rw [Store.currentKey, hcurrent]
    rfl
  | some kid =>
    obtain ⟨hne, hsome⟩ := hok.current kid hcurrent
    obtain ⟨cur, hcur⟩ := ne_none_iff_exists'.mp hsome
    have hkey : s.currentKey = some cur := by
      rw [Store.currentKey, hcurrent]
      exact hcur
    have hkid : cur.kid = kid := (Keyed.Table.get_eq_some.mp hcur).2
    by_cases hobs : kid = observed
    · refine .inl ⟨?_, .inr ⟨cur, hkey, hkid.trans hobs⟩⟩
      dsimp only
      rw [if_neg fun hboth => hboth.2 hobs]
    · refine .inr ⟨cur, hkey, fun heq => hobs (hkid.symm.trans heq), ?_⟩
      dsimp only
      rw [if_pos ⟨hne, hobs⟩, hcur]

theorem eq_of_decode {now : ℤ} {k : KeyChain} (hdecode : decode cfg key now = .ok k) : k = key := by
  unfold decode at hdecode
  split_ifs at hdecode
  exact (Except.ok.inj hdecode).symm

/-- What `Rotate` sees. -/
theorem observe_cases (hok : StoreOk s) (cfg : Config) (now : ℤ) :
    (s.currentKey = none ∧ observe cfg s now = .creating []) ∨
    ∃ cur, s.currentKey = some cur ∧
      ((∃ f, decode cfg cur now = .error f ∧ observe cfg s now = .creating cur.kid) ∨
        decode cfg cur now = .ok cur ∧ observe cfg s now = .returned (.ok (some cur))) := by
  unfold observe currentScript
  cases hcurrent : s.current with
  | none =>
    refine .inl ⟨?_, rfl⟩
    rw [Store.currentKey, hcurrent]
    rfl
  | some kid =>
    obtain ⟨hne, hsome⟩ := hok.current kid hcurrent
    obtain ⟨cur, hcur⟩ := ne_none_iff_exists'.mp hsome
    refine .inr ⟨cur, ?_, ?_⟩
    · rw [Store.currentKey, hcurrent]
      exact hcur
    · have hkid : cur.kid = kid := (Keyed.Table.get_eq_some.mp hcur).2
      dsimp only
      rw [if_neg hne, hcur]
      dsimp only
      cases hdecode : decode cfg cur now with
      | error f => exact .inl ⟨f, rfl, by rw [hkid]⟩
      | ok key =>
        have hkey := eq_of_decode hdecode
        exact .inr ⟨by rw [hkey], by rw [hkey]⟩

end Store

/-! ### Steps -/

section Steps

variable {cfg : Config} {h : List Ev} {y y' : Sys} {ev : Ev} {i : ℕ} {c : Call} {cur : KeyChain}

/-- **What an action of a call does.** -/
inductive Did (cfg : Config) (y : Sys) (i : ℕ) (c : Call) : Act → Sys → Prop
  | absent (hkind : c.kind = .current) :
    Did cfg y i c .get (y.setPhase i c (.returned (.error .keyNotFound)))
  | named (kid : Text) (hkind : c.kind = .current) :
    Did cfg y i c .get (y.setPhase i c (.named kid))
  | looked (r : Except Failure KeyChain) (hkind : c.kind ≠ .rotate) :
    Did cfg y i c .hget (y.setPhase i c (returns r))
  | observed : Did cfg y i c .observe (y.setPhase i c (observe cfg y.store c.now))
  | refused {key : Option KeyChain} (f : Failure)
    (hfresh : ∀ k ∈ key, validKID k.kid = true ∧ k.kid ∉ y.created.map KeyChain.kid) :
    Did cfg y i c (.create key)
      { y.setPhase i c (.returned (.error f)) with created := key.toList ++ y.created }
  | created {key : Option KeyChain} {observed : Text} {k : KeyChain}
    (hphase : c.phase = .creating observed)
    (hfresh : ∀ k ∈ key, validKID k.kid = true ∧ k.kid ∉ y.created.map KeyChain.kid)
    (hprepare : prepareStorePayload cfg key c.now = .ok k) :
    Did cfg y i c (.create key)
      { y.setPhase i c (.storing observed k) with created := key.toList ++ y.created }
  | stored {observed : Text} {key : KeyChain} (lost : Bool)
    (hphase : c.phase = .storing observed key) :
    Did cfg y i c (.store lost)
      { y.setPhase i c (if lost then .returned (.error .ended)
          else returns (decode cfg (store cfg y.store c.kind observed key).1 c.now)) with
        store := (store cfg y.store c.kind observed key).2 }
  | deleted (lost : Bool) (hkind : c.kind = .deleteAll) :
    Did cfg y i c (.delete lost)
      { y.setPhase i c (if lost then .returned (.error .ended) else .returned (.ok none)) with
        store := .empty }
  | failed : Did cfg y i c .fail (y.setPhase i c (.returned (.error .ended)))

theorem did_of_stepCall {a : Act} (hs : stepCall cfg y i c a = some y') : Did cfg y i c a y' := by
  unfold stepCall at hs
  split at hs
  · split at hs <;> try cases hs
    next hkind _ =>
      split at hs <;> cases hs
      · exact .absent hkind
      · exact .named _ hkind
  · split at hs <;> cases hs
    · next hkind _ => exact .looked _ (hkind ▸ nofun)
    · next hkind _ => exact .looked _ (hkind ▸ nofun)
  · split at hs <;> cases hs
    exact .observed
  · split at hs <;> try cases hs
    next hphase =>
      obtain ⟨hfresh, hs⟩ := ite_none_right_eq_some.mp hs
      split at hs <;> cases hs
      · exact .refused _ hfresh
      · next hprepare => exact .created hphase hfresh hprepare
  · split at hs <;> cases hs
    next hphase => exact .stored _ hphase
  · split at hs <;> cases hs
    next hkind _ => exact .deleted _ hkind
  · split at hs <;> cases hs
    exact .failed

theorem Found.cons {now : ℤ} (hfound : Found cfg h i now cur) : Found cfg (ev :: h) i now cur :=
  hfound.imp_right exists_mem_cons_of_exists

variable {phase : Phase}

/-- **A call moves on**, and something is stored or created. -/
theorem Inv.advance (hinv : Inv cfg h y) (hi : y.calls[i]? = some c) {s' : Store}
    {created : List KeyChain} (hstore : StoreOk s')
    (hstored : ∀ kid k, s'.keys.get kid = some k → k ∈ created)
    (hsub : ∀ k ∈ y.created, k ∈ created) (hdistinct : (created.map KeyChain.kid).Nodup)
    (hvalid : ∀ k ∈ created, k.kid ≠ [])
    (hstoring : ∀ observed key, phase = .storing observed key → key ∈ created)
    (hobserved : ∀ observed, c.kind = .rotate → phase.Observed observed →
      observed = [] ∨ ∃ cur ∈ created, cur.kid = observed ∧ Found cfg (ev :: h) i c.now cur)
    :
    Inv cfg (ev :: h) { y.setPhase i c phase with store := s', created := created } := by
  refine ⟨hstore, hstored, hdistinct, hvalid, fun j d observed key hj hphase => ?_,
    fun j d observed hj hkind hphase => ?_⟩
  · rcases getElem?_set_cases hj with ⟨rfl, rfl⟩ | ⟨-, hj⟩
    · exact hstoring observed key hphase
    · exact hsub key (hinv.storing j d observed key hj hphase)
  · rcases getElem?_set_cases hj with ⟨rfl, rfl⟩ | ⟨-, hj⟩
    · exact hobserved observed hkind hphase
    · refine (hinv.observed j d observed hj hkind hphase).imp_right ?_
      rintro ⟨cur, hmem, hkid, hfound⟩
      exact ⟨cur, hsub cur hmem, hkid, hfound.cons⟩

theorem Inv.rest (hinv : Inv cfg h y) (hi : y.calls[i]? = some c) {s' : Store} (hstore : StoreOk s')
    (hstored : ∀ kid k, s'.keys.get kid = some k → k ∈ y.created)
    (hstoring : ∀ observed key, phase ≠ .storing observed key)
    (hobserved : ∀ observed, ¬phase.Observed observed) :
    Inv cfg (ev :: h) { y.setPhase i c phase with store := s' } :=
  hinv.advance hi hstore hstored (fun _ hk => hk) hinv.distinct hinv.valid
    (fun observed key hphase => absurd hphase (hstoring observed key))
    fun observed _ hphase => absurd hphase (hobserved observed)

theorem returns_ne_storing (r : Except Failure KeyChain) (observed : Text) (key : KeyChain) :
    returns r ≠ .storing observed key := by
  cases r with
  | error f | ok k => exact nofun

theorem not_observed_returns (r : Except Failure KeyChain) (observed : Text) :
    ¬(returns r).Observed observed := by
  cases r with
  | error f | ok k => exact id

section

variable (hinv : Inv cfg h y)
include hinv

theorem Inv.returns (hi : y.calls[i]? = some c)
    (r : Except Failure KeyChain) : Inv cfg (ev :: h) (y.setPhase i c (Redis.returns r)) :=
  hinv.rest hi hinv.store hinv.stored (returns_ne_storing r) (not_observed_returns r)

theorem Inv.observe (hi : y.calls[i]? = some c)
    (hy' : y' = y.setPhase i c (observe cfg y.store c.now)) :
    Inv cfg (⟨y, .act i .observe, y'⟩ :: h) y' := by
  subst hy'
  rcases observe_cases hinv.store cfg c.now with
    ⟨-, hphase⟩ | ⟨cur, hcur, ⟨f, hf, hphase⟩ | ⟨-, hphase⟩⟩
  · rw [hphase]
    refine hinv.advance hi hinv.store hinv.stored (fun _ hk => hk) hinv.distinct hinv.valid
      nofun fun observed _ hobserved => .inl ?_
    exact hobserved.symm
  · rw [hphase]
    refine hinv.advance hi hinv.store hinv.stored (fun _ hk => hk) hinv.distinct hinv.valid
      nofun fun observed _ hobserved => .inr ?_
    obtain ⟨kid, -, hget⟩ := bind_eq_some_iff.mp hcur
    exact ⟨cur, hinv.stored kid cur hget, hobserved, ⟨f, hf⟩, _, mem_cons_self, rfl, hcur⟩
  · rw [hphase]
    exact hinv.returns hi (.ok cur)

omit hinv in
theorem prepareStorePayload_eq {key : Option KeyChain} {now : ℤ} {k : KeyChain}
    (hprepare : prepareStorePayload cfg key now = .ok k) :
    key = some k ∧ k.expired now = false := by
  unfold prepareStorePayload at hprepare
  split at hprepare
  · cases hprepare
  · split at hprepare
    · cases hprepare
    next hexpired =>
      split at hprepare
      · cases hprepare
      · split at hprepare <;> cases hprepare
        exact ⟨rfl, eq_false_of_ne_true hexpired⟩

/-- A new key is created, and the call moves on with what it had seen. -/
theorem Inv.create {key : Option KeyChain} (hi : y.calls[i]? = some c)
    (hfresh : ∀ k ∈ key, validKID k.kid = true ∧ k.kid ∉ y.created.map KeyChain.kid)
    (hstoring : ∀ o k, phase = .storing o k → k ∈ key)
    (hphase : ∀ o, phase.Observed o → c.phase.Observed o) :
    Inv cfg (ev :: h) { y.setPhase i c phase with created := key.toList ++ y.created } := by
  have hsub : ∀ k ∈ y.created, k ∈ key.toList ++ y.created :=
    fun k hk => mem_append_right _ hk
  refine hinv.advance hi hinv.store (fun kid k hget => hsub k (hinv.stored kid k hget)) hsub
    ?_ (fun k hk => ?_) (fun o k hk => ?_) fun o hkind hobserved => ?_
  · cases key with
    | none => exact hinv.distinct
    | some k => exact nodup_cons.mpr ⟨(hfresh k rfl).2, hinv.distinct⟩
  · rcases mem_append.mp hk with hnew | hold
    · have hkid := (hfresh k (Option.mem_toList.mp hnew)).1
      rintro hnil
      rw [hnil] at hkid
      exact nomatch hkid
    · exact hinv.valid k hold
  · exact mem_append_left _ (Option.mem_toList.mpr (hstoring o k hk))
  · refine (hinv.observed i c o hi hkind (hphase o hobserved)).imp_right ?_
    rintro ⟨cur, hmem, hkid, hfound⟩
    exact ⟨cur, hsub cur hmem, hkid, hfound.cons⟩

theorem Inv.stored_put {key : KeyChain} (hkey : key ∈ y.created) :
    ∀ kid k, (y.store.put cfg key).keys.get kid = some k → k ∈ y.created := by
  have hretains : Retains cfg key y.store (y.store.put cfg key) := retains_put hinv.store.same
  intro kid k hget
  by_cases hkid : kid = key.kid
  · rw [hkid, hretains.payload] at hget
    cases hget
    exact hkey
  · exact hinv.stored kid k (hretains.others kid k hkid hget)

/-- **Redis after the script**: the key was put, or nothing has changed. -/
theorem store_cases (kind : Kind) (observed : Text) (key : KeyChain) :
    store cfg y.store kind observed key = (key, y.store.put cfg key) ∨
      kind = .rotate ∧ (store cfg y.store kind observed key).2 = y.store := by
  unfold store
  split
  · rcases rotateCAS_cases hinv.store cfg observed key with ⟨hput, -⟩ | ⟨cur, -, -, hsame⟩
    · exact .inl hput
    · exact .inr ⟨rfl, by rw [hsame]⟩
  · exact .inl rfl

theorem Inv.storeOk (kind : Kind) {observed : Text} {key : KeyChain}
    (hkey : key ∈ y.created) : StoreOk (Redis.store cfg y.store kind observed key).2 ∧
      ∀ kid k, (Redis.store cfg y.store kind observed key).2.keys.get kid = some k →
        k ∈ y.created := by
  rcases store_cases hinv kind observed key with hput | ⟨-, hsame⟩
  · rw [hput]
    exact ⟨hinv.store.put (hinv.valid key hkey), hinv.stored_put hkey⟩
  · rw [hsame]
    exact ⟨hinv.store, hinv.stored⟩

omit hinv in
theorem stored_empty (kid : Text) (k : KeyChain) (hget : Store.empty.keys.get kid = some k) :
    k ∈ y.created :=
  nomatch hget

theorem Inv.stepCall {a : Act} (hi : y.calls[i]? = some c)
    (hs : stepCall cfg y i c a = some y') : Inv cfg (⟨y, .act i a, y'⟩ :: h) y' := by
  cases did_of_stepCall hs with
  | absent | failed => exact hinv.returns hi (.error _)
  | named => exact hinv.rest hi hinv.store hinv.stored nofun fun _ => id
  | looked => exact hinv.returns hi _
  | observed => exact hinv.observe hi rfl
  | refused _ hfresh => exact hinv.create hi hfresh nofun fun _ => False.elim
  | created hphase hfresh hprepare =>
    refine hinv.create hi hfresh (fun o k' hstoring => ?_) fun o hobserved => ?_
    · cases hstoring
      exact (prepareStorePayload_eq hprepare).1
    · rw [hphase]
      exact hobserved
  | stored lost hphase =>
    obtain ⟨hok, hstored⟩ := hinv.storeOk c.kind (hinv.storing i c _ _ hi hphase)
    refine hinv.rest hi hok hstored ?_ ?_
    · split_ifs
      · exact nofun
      · exact returns_ne_storing _
    · split_ifs
      · exact fun _ => id
      · exact not_observed_returns _
  | deleted =>
    refine hinv.rest hi storeOk_empty stored_empty ?_ ?_
    · split_ifs <;> exact nofun
    · split_ifs <;> exact fun _ => id

/-- **Every step keeps the invariant.** -/
theorem Inv.step {l : Label} (hs : step cfg y l = some y') : Inv cfg (⟨y, l, y'⟩ :: h) y' := by
  cases l with
  | call kind now =>
    cases hs
    refine ⟨hinv.store, hinv.stored, hinv.distinct, hinv.valid,
      fun j d observed key hj hphase => ?_, fun j d observed hj hkind hphase => ?_⟩
    · rcases getElem?_concat hj with hj | ⟨-, rfl⟩
      · exact hinv.storing j d observed key hj hphase
      · cases kind <;> exact nomatch hphase
    · rcases getElem?_concat hj with hj | ⟨-, rfl⟩
      · refine (hinv.observed j d observed hj hkind hphase).imp_right ?_
        rintro ⟨cur, hmem, hkid, hfound⟩
        exact ⟨cur, hmem, hkid, hfound.cons⟩
      · obtain rfl : kind = .rotate := hkind
        exact hphase.elim
  | expire =>
    obtain ⟨-, ⟨⟩⟩ := ite_none_right_eq_some.mp hs
    refine ⟨storeOk_empty, stored_empty, hinv.distinct, hinv.valid, hinv.storing,
      fun j d observed hj hkind hphase => ?_⟩
    refine (hinv.observed j d observed hj hkind hphase).imp_right ?_
    rintro ⟨cur, hmem, hkid, hfound⟩
    exact ⟨cur, hmem, hkid, hfound.cons⟩
  | act i a =>
    obtain ⟨c, hi, hs⟩ := bind_eq_some_iff.mp hs
    exact hinv.stepCall hi hs

end

theorem inv_new : Inv cfg [] .new :=
  ⟨storeOk_empty, nofun, nodup_nil, nofun, nofun, nofun⟩

end Steps

/-! ### Rotations -/

def Usable (cfg : Config) (s : Store) (now : ℤ) (key : KeyChain) : Prop :=
  s.currentKey = some key ∧ decode cfg key now = .ok key

section Rotations

variable {cfg : Config} {h : List Ev} {y y' : Sys} {l : Label} {i : ℕ} {c : Call} {now : ℤ}
  {key : KeyChain}

theorem step_store {lost : Bool} (hs : step cfg y (.act i (.store lost)) = some y')
    (hi : y.calls[i]? = some c) {observed : Text} (hphase : c.phase = .storing observed key) :
    y' = { y.setPhase i c (if lost then .returned (.error .ended)
        else returns (decode cfg (store cfg y.store c.kind observed key).1 c.now)) with
      store := (store cfg y.store c.kind observed key).2 } := by
  obtain ⟨c', hi', hs⟩ := bind_eq_some_iff.mp hs
  obtain rfl := mem_unique hi hi'
  rw [stepCall, hphase] at hs
  exact (Option.some.inj hs).symm

variable (hinv : Inv cfg h y) (hs : Redis.step cfg y l = some y')

include hinv hs in
theorem Inv.rotates : Rotates cfg h ⟨y, l, y'⟩ := by
  rintro i lost c observed key rfl hi hkind hphase
  have hy' := step_store hs hi hphase
  have hstore : Redis.store cfg y.store c.kind observed key =
      rotateCAS cfg y.store observed key := by
    rw [hkind]
    rfl
  rw [hstore] at hy'
  rcases rotateCAS_cases hinv.store cfg observed key with ⟨hput, hwhy⟩ | ⟨cur, hcur, hne, hsame⟩
  · refine .inl ⟨by rw [hy', hput], hwhy.imp_right ?_⟩
    rintro ⟨cur, hcur, hkid⟩
    refine ⟨cur, hcur, hkid, ?_⟩
    obtain ⟨kid, -, hget⟩ := bind_eq_some_iff.mp hcur
    have hmem := hinv.stored kid cur hget
    have hobs : c.phase.Observed observed := by
      rw [hphase]
      rfl
    rcases hinv.observed i c observed hi hkind hobs with hnil | ⟨cur', hmem', hkid', hfound⟩
    · exact absurd (hkid.trans hnil) (hinv.valid cur hmem)
    · -- Both were created, and kids are not used twice.
      obtain rfl : cur' = cur :=
        inj_on_of_nodup_map hinv.distinct hmem' hmem (hkid'.trans hkid.symm)
      exact hfound
  · refine .inr ⟨by rw [hy', hsame], cur, hcur, hne, fun hlost => ?_⟩
    rw [hy', hsame, hlost]
    change ((y.calls.set i _)[i]?).map Call.phase = _
    rw [getElem?_set_of_some hi]
    rfl

include hinv hs in
theorem Inv.stores : Stores cfg ⟨y, l, y'⟩ := by
  rintro i lost c observed key rfl hi hphase
  have hy' := step_store hs hi hphase
  rcases store_cases hinv c.kind observed key with hput | ⟨hkind, hsame⟩
  · refine .inl ?_
    rw [hput] at hy'
    rw [hy']
    exact retains_put hinv.store.same
  · exact .inr ⟨hkind, by rw [hy', hsame]⟩

theorem returns_eq {r : Except Failure KeyChain} (hr : returns r = .returned (.ok (some key))) :
    r = .ok key := by
  cases r with
  | error f => exact nomatch hr
  | ok k =>
    cases hr
    rfl

include hinv hs in
/-- **A rotation that returns a key** leaves it as the current one, and it can be used. -/
theorem Inv.usable_of_returnsKey (hret : ReturnsKey now key ⟨y, l, y'⟩) :
    Usable cfg y'.store now key := by
  obtain ⟨i, a, c, c', rfl, hi, hkind, rfl, hi', hphase⟩ := hret
  obtain ⟨d, hd, hs⟩ := bind_eq_some_iff.mp hs
  obtain rfl := mem_unique hi hd
  have hmoved : ∀ {phase : Phase} {s : Store} {created : List KeyChain},
      y' = { y.setPhase i c phase with store := s, created := created } →
      phase = .returned (.ok (some key)) := by
    rintro phase s created rfl
    obtain rfl := mem_unique (getElem?_set_of_some hi) hi'
    exact hphase
  cases did_of_stepCall hs with
  | absent hk | named _ hk | deleted _ hk => exact nomatch hkind.symm.trans hk
  | looked _ hk => exact absurd hkind hk
  | refused | created | failed => exact nomatch hmoved rfl
  | observed =>
    have hphase' := hmoved rfl
    rcases observe_cases hinv.store cfg c.now with
      ⟨-, hobs⟩ | ⟨cur, hcur, ⟨f, -, hobs⟩ | ⟨hok, hobs⟩⟩
    · exact nomatch hobs.symm.trans hphase'
    · exact nomatch hobs.symm.trans hphase'
    · cases hobs.symm.trans hphase'
      exact ⟨hcur, hok⟩
  | @stored observed k lost _ =>
    have hphase' := hmoved rfl
    cases lost with
    | true => exact nomatch hphase'
    | false =>
      have hdecode := returns_eq hphase'
      obtain rfl := eq_of_decode hdecode
      refine ⟨?_, hdecode⟩
      rw [hkind]
      change (rotateCAS cfg y.store observed k).2.currentKey =
        some (rotateCAS cfg y.store observed k).1
      rcases rotateCAS_cases hinv.store cfg observed k with ⟨hput, -⟩ | ⟨cur, hcur, -, hsame⟩
      · rw [hput]
        exact currentKey_put hinv.store
      · rw [hsame]
        exact hcur

theorem store_stepCall {a : Act} (hs : stepCall cfg y i c a = some y')
    (hstore : ∀ lost, a ≠ .store lost) (hdelete : ∀ lost, a ≠ .delete lost) :
    y'.store = y.store := by
  cases did_of_stepCall hs with
  | stored lost => exact absurd rfl (hstore lost)
  | deleted lost => exact absurd rfl (hdelete lost)
  | _ => rfl

include hinv hs in
/-- **A key that can be used stays**, as long as only rotations with this clock store something. -/
theorem Inv.usable_step (hquiet : Ev.quiet now ⟨y, l, y'⟩ = true)
    (husable : Usable cfg y.store now key) : Usable cfg y'.store now key := by
  cases l with
  | call kind now =>
    cases hs
    exact husable
  | expire => exact nomatch hquiet
  | act i a =>
    obtain ⟨c, hi, hs'⟩ := bind_eq_some_iff.mp hs
    by_cases hdelete : ∃ lost, a = .delete lost
    · obtain ⟨lost, rfl⟩ := hdelete
      exact nomatch hquiet
    by_cases hstore : ∃ lost, a = .store lost
    · obtain ⟨lost, rfl⟩ := hstore
      obtain ⟨hkind, rfl⟩ : c.kind = .rotate ∧ c.now = now := by
        change (y.calls[i]?.any fun c => decide (c.kind = .rotate ∧ c.now = now)) = true at hquiet
        rw [hi] at hquiet
        exact of_decide_eq_true hquiet
      obtain ⟨observed, k, hphase⟩ : ∃ observed k, c.phase = .storing observed k := by
        cases did_of_stepCall hs' with
        | stored _ hphase => exact ⟨_, _, hphase⟩
      rcases hinv.rotates hs i lost c observed k rfl hi hkind hphase with
        ⟨-, hnone | ⟨cur, hcur, -, ⟨f, hf⟩, -⟩⟩ | ⟨hsame, -⟩
      · exact nomatch hnone.symm.trans husable.1
      · -- The rotation has found the key to be of no use, at the same time.
        obtain rfl := mem_unique hcur husable.1
        exact nomatch hf.symm.trans husable.2
      · rw [show y'.store = y.store from hsame]
        exact husable
    · rw [store_stepCall hs' (fun lost heq => hstore ⟨lost, heq⟩)
        fun lost heq => hdelete ⟨lost, heq⟩]
      exact husable

end Rotations

/-! ### Runs -/

section Runs

variable {cfg : Config} {h : List Ev} {y : Sys} {now : ℤ}

theorem inv_of_run (hr : Run (step cfg) .new h y) : Inv cfg h y := by
  induction hr with
  | nil => exact inv_new
  | snoc _ hs ih => exact ih.step hs

/-- **What a rotation with this clock has returned is the current key**, since the last step of
another kind. -/
theorem usable_of_run {recent old : List Ev} (hr : Run (step cfg) .new (recent ++ old) y)
    (hquiet : ∀ ev ∈ recent, ev.quiet now = true) {key : KeyChain} {ev : Ev} (hmem : ev ∈ recent)
    (hret : ReturnsKey now key ev) : Usable cfg y.store now key := by
  induction recent generalizing y with
  | nil => exact nomatch hmem
  | cons ev' recent ih =>
    obtain ⟨-, hq⟩ := forall_mem_cons.mp hquiet
    cases hr with
    | snoc hr' hs =>
      have hinv := inv_of_run hr'
      rcases mem_cons.mp hmem with rfl | hold
      · exact hinv.usable_of_returnsKey hs hret
      · exact hinv.usable_step hs (hquiet _ mem_cons_self) (ih hr' hq hold)

/-- **The repository rotates by compare and set.** A `Rotate` replaces the current key only if that
one is missing, or is the one that it has looked at and could not use; rotations with one clock, and
nothing else in between, return one key; and after a key was stored, pointer, hash and sorted set
fit. -/
theorem rotates_by_cas (hr : Run (step cfg) .new h y) :
    Always (Rotates cfg) h ∧
    (∀ now recent old, h = recent ++ old → (∀ ev ∈ recent, ev.quiet now = true) →
      ∀ ev ∈ recent, ∀ ev' ∈ recent, ∀ key key', ReturnsKey now key ev →
        ReturnsKey now key' ev' → key = key') ∧
    ∀ ev ∈ h, Stores cfg ev := by
  refine ⟨?_, ?_, ?_⟩
  · exact hr.always inv_new (fun h y l y' hinv hs => hinv.step hs)
      fun h y l y' hinv hs => hinv.rotates hs
  · rintro now recent old rfl hquiet ev hmem ev' hmem' key key' hret hret'
    have husable := usable_of_run hr hquiet hmem hret
    have husable' := usable_of_run hr hquiet hmem' hret'
    exact mem_unique husable.1 husable'.1
  · refine always_iff_forall_mem.mp ?_
    exact hr.always inv_new (fun h y l y' hinv hs => hinv.step hs)
      fun h y l y' hinv hs => hinv.stores hs

end Runs

/-! ### Two runs -/

theorem two_le_ten : 2 ≤ 10 := by decide

/-- The default capacity, no `KeyTTL`, and payloads that can be decoded. -/
def tenKeys : Config where
  capacity := 10
  keyTTL := 0
  retentionLeeway := 0
  maxKeyBytes := 32768
  encodeError _ := none
  payloadLength _ := 300
  two_le_capacity := two_le_ten

/-- A key that is created at `0`. -/
def keyUntil (kid : String) (expiresAt : ℤ) : KeyChain :=
  ⟨ascii kid, ascii "HS256", 0, some expiresAt, []⟩

/-- Two racing rotations find nothing, and both create a key; they return the one that was stored
first. -/
theorem rotates_by_cas_racing : ∃ h y, Run (step tenKeys) .new h y ∧ y.calls.map Call.phase =
      [.returned (.ok (some (keyUntil "a" 80))), .returned (.ok (some (keyUntil "a" 80)))] ∧
    (∀ ev ∈ h, Ev.quiet 5 ev = true) ∧
    ∀ ev ∈ h, ∀ ev' ∈ h, ∀ key key', ReturnsKey 5 key ev → ReturnsKey 5 key' ev' → key = key' := by
  obtain ⟨h, y, hr, hphases, hquiet⟩ := exists_run (step tenKeys) .new
    [.call .rotate 5, .call .rotate 5, .act 0 .observe, .act 1 .observe,
      .act 0 (.create (some (keyUntil "a" 80))), .act 1 (.create (some (keyUntil "b" 80))),
      .act 0 (.store false), .act 1 (.store false)]
    (fun h y => y.calls.map Call.phase =
        [.returned (.ok (some (keyUntil "a" 80))), .returned (.ok (some (keyUntil "a" 80)))] ∧
      ∀ ev ∈ h, Ev.quiet 5 ev = true)
    (by decide +kernel)
  exact ⟨h, y, hr, hphases, hquiet, (rotates_by_cas hr).2.1 5 h [] (append_nil h).symm hquiet⟩

/-- **The current key is refused**: a `Rotate` at `100` finds no key; at `50` a key is stored that
expires at `80`. The `Rotate` stores nothing, and returns `ErrInvalidKey` instead of that key. -/
theorem current_refused : ∃ h y, Run (step tenKeys) .new h y ∧
    ∃ ev older, h = ev :: older ∧ ev.label = .act 0 (.store false) ∧
      (ev.before.calls[0]?.map Call.kind) = some .rotate ∧
      ev.before.store.currentKey = some (keyUntil "b" 80) ∧
      (keyUntil "b" 80).kid ≠ [] ∧
      (ev.before.calls[0]?.map Call.phase) = some (.storing [] (keyUntil "a" 200)) ∧
      (ev.after.calls[0]?.map Call.phase) = some (.returned (.error .invalidKey)) := by
  exact exists_run _ _ [.call .rotate 100, .call .forcedRotate 50, .act 0 .observe,
      .act 0 (.create (some (keyUntil "a" 200))), .act 1 (.create (some (keyUntil "b" 80))),
      .act 1 (.store false), .act 0 (.store false)] _ (by decide +kernel)

end Bluetape.Jwt.Redis
