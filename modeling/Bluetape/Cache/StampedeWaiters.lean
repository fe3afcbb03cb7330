import Bluetape.Cache.Stampede

/-!
# What waiters of the stampede cache get

A caller that waits reads the token in the lock, and later a result that bears this token. Tokens
are drawn, so this token is that of one call of the lock; the result was published by the owner that
made this call, after it had got the lock. The owner may have lost the lock since, and others may
have had it: their results bear other tokens.

* **A waiter gets the result of an owner that it has waited for** (`waited_for`): it has read the
  lock, during its call, when it held what that owner had written; and the value is what the codec
  makes of the one that this owner had, from its loader or from its own cache, once it had the lock.

The lock inside runs as the mutex does (`LockStep`), whose invariant says who has written what is in
the lock, and that no two calls share a token.
-/

namespace Bluetape.Stampede

open GoString Lts Option List RedisLock

variable {V : Type}

/-! ### What a history shows -/

/-- Whether a step is the beginning of a call of a process. -/
def Label.starts (p : ℕ) : Label V → Bool
  | .proc q .call => decide (q = p)
  | _ => false

/-- **The events of the last call** of a process. -/
def since (p : ℕ) (h : List (Ev V)) : List (Ev V) := h.takeWhile fun ev => !ev.label.starts p

/-- **An owner has a value**, from its cache or from its loader, after it has got the lock by the
call `i`. -/
def Obtains (i : ℕ) (v : V) (ev : Ev V) : Prop :=
  ev.before.locked i = some .acquired ∧ ∃ p pr, ev.before.procs[p]? = some pr ∧
    ((ev.label = .proc p .load ∧ pr.phase = .loading i ∧ pr.cached = some v) ∨
      (ev.label = .proc p (.loaded (some v)) ∧ pr.phase = .running i))

/-- **A process reads the lock**, which holds what the call `i` has written. -/
def Observes (p i : ℕ) (ev : Ev V) : Prop :=
  ev.label = .proc p (.ask true) ∧ ev.before.lock.entry.map Entry.writer = some i

/-- **A process reads the result**, which bears a token and holds a value. -/
def Reads (codec : Codec V) (p : ℕ) (token : Text) (v : V) (ev : Ev V) : Prop :=
  ev.label = .proc p (.read true) ∧ ∃ env payload, ev.before.result = some env ∧
    env.token = token ∧ env.payload = some payload ∧ codec.unmarshal payload = .ok v

section Since

variable {p : ℕ} {h : List (Ev V)} {ev : Ev V}

theorem since_cons (hl : ev.label.starts p = false) : since p (ev :: h) = ev :: since p h :=
  takeWhile_cons_of_pos (congrArg not hl)

theorem exists_since_cons {P : Ev V → Prop} (hl : ev.label.starts p = false)
    (hex : ∃ ev' ∈ since p h, P ev') : ∃ ev' ∈ since p (ev :: h), P ev' := by
  rw [since_cons hl]
  exact exists_mem_cons_of_exists hex

theorem exists_since_head {P : Ev V → Prop} (hl : ev.label.starts p = false) (hP : P ev) :
    ∃ ev' ∈ since p (ev :: h), P ev' := by
  rw [since_cons hl]
  exact exists_mem_cons_of _ hP

end Since

/-! ### The invariant -/

section Invariant

variable (cfgs : List Config) (key : Text) (codec : Codec V)

def HasToken (y : Sys V) (i : ℕ) (token : Text) : Prop :=
  ∃ a, y.lock.leases[i]? = some a ∧ a.token = token

/-- What is published under a token is of the owner with this token. -/
def Published (h : List (Ev V)) (y : Sys V) (env : Envelope) : Prop :=
  ∃ i v payload, HasToken y i env.token ∧ (∃ ev ∈ h, Obtains i v ev) ∧
    codec.marshal v = .ok (some payload) ∧ env.payload = some payload

def Saw (h : List (Ev V)) (y : Sys V) (p : ℕ) (token : Text) : Prop :=
  ∃ i, HasToken y i token ∧ ∃ ev ∈ since p h, Observes p i ev

def Got (h : List (Ev V)) (y : Sys V) (p : ℕ) (token : Text) (v : V) : Prop :=
  (∃ ev ∈ since p h, Reads codec p token v ev) ∧
    ∃ i v₀, HasToken y i token ∧ (∃ ev ∈ h, Obtains i v₀ ev) ∧ codec.Carries v₀ v

/-- **A value that a process has waited for**: it has seen the lock of an owner, has read the result
that bears the token of this owner, and the owner had obtained it. -/
def WaitedFor (h : List (Ev V)) (y : Sys V) (p : ℕ) (v : V) : Prop :=
  ∃ i token, HasToken y i token ∧ (∃ ev ∈ since p h, Observes p i ev) ∧
    (∃ ev ∈ since p h, Reads codec p token v ev) ∧
    ∃ v₀, (∃ ev ∈ h, Obtains i v₀ ev) ∧ codec.Carries v₀ v

def OutcomeOk (h : List (Ev V)) (y : Sys V) (p : ℕ) : Outcome V → Prop
  | .value v .waited => WaitedFor codec h y p v
  | _ => True

def PhaseOk (h : List (Ev V)) (y : Sys V) (p : ℕ) : Phase V → Prop
  | .loading i => y.locked i = some .acquired
  | .running i => y.locked i = some .acquired
  | .obtained i v origin payload => y.locked i = some .acquired ∧ origin ≠ .waited ∧
      (∃ ev ∈ h, Obtains i v ev) ∧ codec.marshal v = .ok payload
  | .storing i v origin payload => y.locked i = some .acquired ∧ origin ≠ .waited ∧
      (∃ ev ∈ h, Obtains i v ev) ∧ codec.marshal v = .ok payload
  | .sent _ _ origin _ => origin ≠ .waited
  | .unlocking _ _ outcome => ∀ v, outcome ≠ .value v .waited
  | .asking token => token ≠ [] → Saw h y p token
  | .resting token => Saw h y p token
  | .polling token => Saw h y p token
  | .again token => Saw h y p token
  | .filling token v => Saw h y p token ∧ Got codec h y p token v
  | .returned outcome => OutcomeOk codec h y p outcome
  | _ => True

/-- **The invariant.** -/
structure Inv (h : List (Ev V)) (y : Sys V) : Prop where
  lock : ∃ hl, Run (RedisLock.step (mutexes cfgs key)) .new hl y.lock
  writes : ∀ w ∈ y.writes, Published codec h y w.envelope
  result : ∀ env, y.result = some env → Published codec h y env
  procs : ∀ (p : ℕ) (pr : Proc V), y.procs[p]? = some pr → PhaseOk codec h y p pr.phase

/-- **The lock makes a step, or none.** -/
def LockStep (y y' : Sys V) : Prop :=
  y'.lock = y.lock ∨ ∃ l, RedisLock.step (mutexes cfgs key) y.lock l = some y'.lock

end Invariant

/-! ### The lock goes on -/

/-- The calls of the lock are still there, with their leases and with what they have returned. -/
def Grows (y y' : Sys V) : Prop :=
  ∀ (i : ℕ) (c : Call), y.lock.calls[i]? = some c →
    ∃ c', y'.lock.calls[i]? = some c' ∧ c'.lease = c.lease ∧
      ∀ o, c.phase = .returned o → c'.phase = .returned o

section Grow

variable {codec : Codec V} {h : List (Ev V)} {y y' : Sys V} {ev : Ev V} {p : ℕ}

theorem LockStep.grows {cfgs : List Config} {key : Text} (hstep : LockStep cfgs key y y') :
    Grows y y' := by
  intro i c hi
  rcases hstep with hsame | ⟨l, hs⟩
  · exact ⟨c, hsame ▸ hi, rfl, fun _ ho => ho⟩
  · exact call_of_move (move_of_step hs) hi

theorem LockStep.run {cfgs : List Config} {key : Text} (hstep : LockStep cfgs key y y')
    (hrun : ∃ hl, Run (RedisLock.step (mutexes cfgs key)) .new hl y.lock) :
    ∃ hl, Run (RedisLock.step (mutexes cfgs key)) .new hl y'.lock := by
  obtain ⟨hl, hrun⟩ := hrun
  rcases hstep with hsame | ⟨l, hs⟩
  · exact ⟨hl, hsame ▸ hrun⟩
  · exact ⟨_, .snoc hrun hs⟩

theorem Grows.of_lock_eq (hlock : y'.lock = y.lock) : Grows y y' := by
  intro i c hi
  exact ⟨c, hlock ▸ hi, rfl, fun _ ho => ho⟩

variable {token : Text}

theorem Grows.hasToken (hgrows : Grows y y') {i : ℕ} (h : HasToken y i token) :
    HasToken y' i token := by
  obtain ⟨a, ha, htoken⟩ := h
  obtain ⟨c, hc, rfl⟩ := map_eq_some_iff.mp (getElem?_map ▸ ha)
  obtain ⟨c', hc', hlease, -⟩ := hgrows i c hc
  exact ⟨c.lease, hlease ▸ leases_getElem? hc', htoken⟩

theorem locked_eq_some_iff {i : ℕ} {o : RedisLock.Outcome} :
    y.locked i = some o ↔ ∃ c, y.lock.calls[i]? = some c ∧ c.phase = .returned o := by
  unfold Sys.locked
  rw [bind_eq_some_iff]
  refine exists_congr fun c => and_congr_right fun _ => ?_
  cases c.phase with
  | setting | probing ended => exact iff_of_false nofun nofun
  | returned o' => exact ⟨fun h => congrArg _ (Option.some.inj h), fun h =>
      congrArg _ (RedisLock.Phase.returned.inj h)⟩

theorem Grows.locked (hgrows : Grows y y') {i : ℕ} {o : RedisLock.Outcome}
    (h : y.locked i = some o) : y'.locked i = some o := by
  obtain ⟨c, hc, hphase⟩ := locked_eq_some_iff.mp h
  obtain ⟨c', hc', -, hstays⟩ := hgrows i c hc
  exact locked_eq_some_iff.mpr ⟨c', hc', hstays o hphase⟩

theorem Published.mono {env : Envelope} (hp : Published codec h y env) (hgrows : Grows y y') :
    Published codec (ev :: h) y' env := by
  obtain ⟨i, v, payload, htoken, hobtained, hrest⟩ := hp
  exact ⟨i, v, payload, hgrows.hasToken htoken, exists_mem_cons_of_exists hobtained, hrest⟩

theorem Saw.mono (hs : Saw h y p token) (hgrows : Grows y y') (hl : ev.label.starts p = false) :
    Saw (ev :: h) y' p token := by
  obtain ⟨i, htoken, hseen⟩ := hs
  exact ⟨i, hgrows.hasToken htoken, exists_since_cons hl hseen⟩

theorem Got.mono {v : V} (hg : Got codec h y p token v) (hgrows : Grows y y')
    (hl : ev.label.starts p = false) : Got codec (ev :: h) y' p token v := by
  obtain ⟨hread, i, v₀, htoken, hobtained, hcarries⟩ := hg
  exact ⟨exists_since_cons hl hread, i, v₀, hgrows.hasToken htoken,
    exists_mem_cons_of_exists hobtained, hcarries⟩

theorem WaitedFor.mono {v : V} (hw : WaitedFor codec h y p v) (hgrows : Grows y y')
    (hl : ev.label.starts p = false) : WaitedFor codec (ev :: h) y' p v := by
  obtain ⟨i, token, htoken, hseen, hread, v₀, hobtained, hcarries⟩ := hw
  exact ⟨i, token, hgrows.hasToken htoken, exists_since_cons hl hseen, exists_since_cons hl hread,
    v₀, exists_mem_cons_of_exists hobtained, hcarries⟩

/-- **What is known of a call stays known**, until the next call begins. -/
theorem PhaseOk.mono {phase : Phase V} (hok : PhaseOk codec h y p phase) (hgrows : Grows y y')
    (hl : ev.label.starts p = false) : PhaseOk codec (ev :: h) y' p phase := by
  cases phase with
  | loading i | running i => exact hgrows.locked hok
  | obtained i v origin payload | storing i v origin payload =>
    exact ⟨hgrows.locked hok.1, hok.2.1, exists_mem_cons_of_exists hok.2.2.1, hok.2.2.2⟩
  | sent i v origin n | unlocking i release outcome => exact hok
  | asking token => exact fun hne => (hok hne).mono hgrows hl
  | resting token | polling token | again token => exact Saw.mono hok hgrows hl
  | filling token v => exact ⟨hok.1.mono hgrows hl, hok.2.mono hgrows hl⟩
  | returned outcome =>
    rcases outcome with ⟨v, origin⟩ | f
    · cases origin with
      | waited => exact WaitedFor.mono hok hgrows hl
      | cached | loaded => trivial
    · trivial
  | idle | called | missed | locking i | reconciling i release again => trivial

end Grow

/-! ### Steps -/

section Steps

variable {cfgs : List Config} {key : Text} {codec : Codec V} {h : List (Ev V)} {y y' : Sys V}
  {p : ℕ} {pr pr' : Proc V} {act : Act V} {c : Config}

theorem starts_of_ne {q : ℕ} (hne : p ≠ q) : (Label.proc p act).starts q = false := by
  cases act with
  | call => exact decide_eq_false hne
  | _ => rfl

theorem Inv.moves (hinv : Inv cfgs key codec h y) (hp : y.procs[p]? = some pr)
    (hstep : LockStep cfgs key y y') (hprocs : y'.procs = y.procs.set p pr')
    (hresult : y'.result = y.result)
    (hwrites : ∀ w ∈ y'.writes, Published codec (⟨y, .proc p act, y'⟩ :: h) y' w.envelope)
    (hok : PhaseOk codec (⟨y, .proc p act, y'⟩ :: h) y' p pr'.phase) :
    Inv cfgs key codec (⟨y, .proc p act, y'⟩ :: h) y' := by
  refine ⟨hstep.run hinv.lock, hwrites, fun env henv => ?_, fun q qr hq => ?_⟩
  · exact (hinv.result env (hresult ▸ henv)).mono hstep.grows
  · rw [hprocs] at hq
    rcases getElem?_set_cases hq with ⟨rfl, rfl⟩ | ⟨hqp, hq⟩
    · exact hok
    · exact (hinv.procs q qr hq).mono hstep.grows (starts_of_ne hqp.symm)

theorem Inv.quiet (hinv : Inv cfgs key codec h y) (hp : y.procs[p]? = some pr)
    (hok : PhaseOk codec (⟨y, .proc p act, y.setProc p pr'⟩ :: h) (y.setProc p pr') p pr'.phase) :
    Inv cfgs key codec (⟨y, .proc p act, y.setProc p pr'⟩ :: h) (y.setProc p pr') := by
  have hstep : LockStep cfgs key y (y.setProc p pr') := .inl rfl
  exact hinv.moves hp hstep rfl rfl (fun w hw => (hinv.writes w hw).mono hstep.grows) hok

theorem Inv.locks (hinv : Inv cfgs key codec h y) (hp : y.procs[p]? = some pr)
    {lock : RedisLock.Sys} {l : RedisLock.Label}
    (hs : RedisLock.step (mutexes cfgs key) y.lock l = some lock)
    (hok : PhaseOk codec (⟨y, .proc p act, { y.setProc p pr' with lock }⟩ :: h)
      { y.setProc p pr' with lock } p pr'.phase) :
    Inv cfgs key codec (⟨y, .proc p act, { y.setProc p pr' with lock }⟩ :: h)
      { y.setProc p pr' with lock } := by
  have hstep : LockStep cfgs key y { y.setProc p pr' with lock } := .inr ⟨l, hs⟩
  exact hinv.moves hp hstep rfl rfl (fun w hw => (hinv.writes w hw).mono hstep.grows) hok

variable {i : ℕ}

theorem phaseOk_afterLoad {v : V} {origin : Origin} (hlocked : y.locked i = some .acquired)
    (horigin : origin ≠ .waited) (hobtained : ∃ ev ∈ h, Obtains i v ev) :
    PhaseOk codec h y p (afterLoad codec i v origin) := by
  unfold afterLoad
  cases hmarshal : codec.marshal v with
  | error text => exact nofun
  | ok payload => exact ⟨hlocked, horigin, hobtained, hmarshal⟩

theorem afterUnlock_ne_waited {outcome : Outcome V} (hne : ∀ v, outcome ≠ .value v .waited)
    (o : Released) (v : V) : afterUnlock outcome o ≠ .value v .waited := by
  cases o with
  | deleted ok =>
    cases ok with
    | true => exact hne v
    | false => cases outcome <;> exact nofun
  | ended | unknown => cases outcome <;> exact nofun

theorem outcomeOk_of_ne_waited {outcome : Outcome V} (hne : ∀ v, outcome ≠ .value v .waited) :
    OutcomeOk codec h y p outcome := by
  rcases outcome with ⟨v, origin⟩ | f
  · cases origin with
    | waited => exact absurd rfl (hne v)
    | cached | loaded => trivial
  · trivial

variable {token : Text}

theorem storeResult_eq_ok {payload : Option Text} {env : Envelope}
    (hs : storeResult c token payload = .ok env) :
    env.token = token ∧ ∃ q, payload = some q ∧ env.payload = some q := by
  have hencode : encodeResult token payload = .ok env := by
    unfold storeResult at hs
    split_ifs at hs
    · split at hs
      · cases hs
      · split_ifs at hs
        cases hencode : encodeResult token payload with
        | error f => simp [hencode] at hs
        | ok env' =>
          simp only [hencode] at hs
          split_ifs at hs
          exact hs
    · exact hs
  cases payload with
  | none =>
    rw [encodeResult] at hencode
    split_ifs at hencode
  | some q =>
    rw [encodeResult] at hencode
    split_ifs at hencode
    cases hencode
    exact ⟨rfl, q, rfl, rfl⟩

theorem hasToken_token {o : RedisLock.Outcome} (hlocked : y.locked i = some o) :
    HasToken y i (y.token i) := by
  obtain ⟨d, hd, -⟩ := locked_eq_some_iff.mp hlocked
  refine ⟨d.lease, leases_getElem? hd, ?_⟩
  rw [Sys.token, hd]
  rfl

variable {hl : List RedisLock.Ev}

/-- **A waiter sees the token of the call that has written what is in the lock.** -/
theorem saw_of_ask {ms : List RedisLock.Options} (hlock : RedisLock.Inv ms hl y.lock)
    {e : Entry} (he : y.lock.entry = some e) :
    Saw (⟨y, .proc p (.ask true), y'⟩ :: h) y p e.token := by
  obtain ⟨⟨a, ha, htoken⟩, -⟩ := hlock.entry e he
  refine ⟨e.writer, ⟨a, ha, htoken⟩, exists_since_head rfl ⟨rfl, ?_⟩⟩
  rw [he]
  rfl

/-- **A result that a waiter takes bears the token that it has seen.** -/
theorem got_of_read (hinv : Inv cfgs key codec h y) {v : V}
    (hread : readOwnerResult c codec y.result token = .ok (some v)) :
    Got codec (⟨y, .proc p (.read true), y'⟩ :: h) y p token v := by
  unfold readOwnerResult at hread
  split at hread
  · cases hread
  · next env hresult =>
    split_ifs at hread
    split at hread
    · cases hread
    · next payload hdecode =>
      split at hread <;> cases hread
      next hunmarshal =>
      unfold decodeResult at hdecode
      split_ifs at hdecode with hempty hother
      have htoken : env.token = token := not_not.mp fun hne => hother (.inr hne)
      obtain ⟨i, v₀, q, hhas, hobtained, hmarshal, hq⟩ := hinv.result env hresult
      obtain rfl : payload = q := mem_unique hdecode hq
      refine ⟨exists_since_head rfl ⟨rfl, env, payload, hresult, htoken, hdecode, hunmarshal⟩, ?_⟩
      exact ⟨i, v₀, htoken ▸ hhas, exists_mem_cons_of_exists hobtained, payload, hmarshal,
        hunmarshal⟩

/-- What `readOwnerResult` leads to. -/
theorem phaseOk_afterRead (hinv : Inv cfgs key codec h y) {next : Phase V} (hsaw : Saw h y p token)
    (hnext : PhaseOk codec (⟨y, .proc p (.read true), y'⟩ :: h) y p next) :
    PhaseOk codec (⟨y, .proc p (.read true), y'⟩ :: h) y p
      (afterRead token next (readOwnerResult c codec y.result token)) := by
  cases hread : readOwnerResult c codec y.result token with
  | error f => trivial
  | ok found =>
    cases found with
    | none => exact hnext
    | some v => exact ⟨hsaw.mono (.of_lock_eq rfl) rfl, got_of_read hinv hread⟩

theorem draws_mutexes {m : ℕ} {o : RedisLock.Options} (ho : (mutexes cfgs key)[m]? = some o) :
    Draws (mutexes cfgs key) m := by
  refine ⟨o, ho, ?_⟩
  obtain ⟨c, -, rfl⟩ := mem_map.mp (mem_of_getElem? ho)
  rfl

theorem unshared_mutexes (cfgs : List Config) (key : Text) :
    Unshared (mutexes cfgs key) := by
  refine List.Pairwise.imp_of_mem (R := fun _ _ => True) ?_
    (pairwise_of_forall fun _ _ => trivial)
  intro o o' ho _ _ hne
  obtain ⟨c, -, rfl⟩ := mem_map.mp ho
  exact absurd rfl hne

theorem Inv.lock_inv (hinv : Inv cfgs key codec h y) :
    ∃ hl, RedisLock.Inv (mutexes cfgs key) hl y.lock := by
  obtain ⟨hl, hrun⟩ := hinv.lock
  exact ⟨hl, inv_of_run (unshared_mutexes cfgs key) hrun⟩

/-- **A token is that of one call of the lock.** -/
theorem eq_of_hasToken (hlock : RedisLock.Inv (mutexes cfgs key) hl y.lock) {i j : ℕ}
    (hi : HasToken y i token) (hj : HasToken y j token) : i = j := by
  obtain ⟨a, ha, hat⟩ := hi
  obtain ⟨b, hb, hbt⟩ := hj
  obtain ⟨o, ho, -⟩ := hlock.issued a (mem_of_getElem? ha)
  exact (hlock.apart i j a b ha hb (hat.trans hbt.symm)).2 (draws_mutexes ho)

/-- **A waiter that takes a result has waited for it.** -/
theorem waitedFor_of_filling (hlock : RedisLock.Inv (mutexes cfgs key) hl y.lock) {v : V}
    (hok : PhaseOk codec h y p (.filling token v)) : WaitedFor codec h y p v := by
  obtain ⟨⟨i, hi, hseen⟩, hread, j, v₀, hj, hobtained, hcarries⟩ := hok
  obtain rfl := eq_of_hasToken hlock hi hj
  exact ⟨i, token, hi, hseen, hread, v₀, hobtained, hcarries⟩

/-! ### The steps of a process -/

section

variable (hinv : Inv cfgs key codec h y)
include hinv

/-- A result is sent to Redis, now or again. -/
theorem Inv.sends (hp : y.procs[p]? = some pr) {v : V}
    {origin : Origin} {env : Envelope} (horigin : origin ≠ .waited)
    (hy' : y' = { y.setPhase p pr (.sent i v origin y.writes.length) with
      writes := y.writes ++ [⟨env, false⟩] })
    (henv : Published codec h y env) : Inv cfgs key codec (⟨y, .proc p act, y'⟩ :: h) y' := by
  subst hy'
  have hgrows : Grows y { y.setPhase p pr (.sent i v origin y.writes.length) with
      writes := y.writes ++ [⟨env, false⟩] } := .of_lock_eq rfl
  refine hinv.moves hp (.inl rfl) rfl rfl (forall_mem_concat ?_ (henv.mono hgrows)) horigin
  exact fun w hw => (hinv.writes w hw).mono hgrows

omit hinv in
theorem startUnlock_eq {s : RedisLock.Sys × ℕ} (hs : startUnlock cfgs key y i = some s) :
    ∃ l, RedisLock.step (mutexes cfgs key) y.lock l = some s.1 := by
  obtain ⟨lock, hlock, rfl⟩ := map_eq_some_iff.mp hs
  exact ⟨_, hlock⟩

/-- **Every step of a process keeps the invariant.** -/
theorem Inv.stepProc (hp : y.procs[p]? = some pr)
    (hs : stepProc cfgs key codec c y p pr act = some y') :
    Inv cfgs key codec (⟨y, .proc p act, y'⟩ :: h) y' := by
  have hok := hinv.procs p pr hp
  obtain ⟨hl, hlock⟩ := hinv.lock_inv
  cases act with
  | call | giveUp | look =>
    simp only [Stampede.stepProc] at hs
    split at hs <;> cases hs <;> exact hinv.quiet hp trivial
  | cache v =>
    cases hs
    exact hinv.quiet hp (hok.mono (.of_lock_eq rfl) rfl)
  | tryAcquire data =>
    simp only [Stampede.stepProc] at hs
    split at hs
    · split at hs
      · cases hs
        exact hinv.quiet hp trivial
      · obtain ⟨lock, hlock, rfl⟩ := map_eq_some_iff.mp hs
        exact hinv.locks hp hlock trivial
    · cases hs
  | locked =>
    simp only [Stampede.stepProc] at hs
    split at hs
    · obtain ⟨o, ho, rfl⟩ := map_eq_some_iff.mp hs
      refine hinv.quiet hp ?_
      cases o with
      | acquired => exact ho
      | notAcquired => exact fun hne => absurd rfl hne
      | _ => trivial
    · cases hs
  | reconcile =>
    simp only [Stampede.stepProc] at hs
    split at hs
    · obtain ⟨s, hstart, rfl⟩ := map_eq_some_iff.mp hs
      obtain ⟨l, hlock⟩ := startUnlock_eq hstart
      exact hinv.locks hp hlock trivial
    · cases hs
  | reconciled =>
    simp only [Stampede.stepProc] at hs
    split at hs
    · obtain ⟨o, ho, rfl⟩ := map_eq_some_iff.mp hs
      refine hinv.quiet hp ?_
      split_ifs <;> trivial
    · cases hs
  | load =>
    simp only [Stampede.stepProc] at hs
    split at hs <;> cases hs
    · next v hphase hcached =>
      rw [hphase] at hok
      refine hinv.quiet hp (phaseOk_afterLoad hok nofun ?_)
      exact ⟨_, mem_cons_self, hok, p, pr, hp, .inl ⟨rfl, hphase, hcached⟩⟩
    · next hphase _ =>
      rw [hphase] at hok
      exact hinv.quiet hp hok
  | loaded result =>
    simp only [Stampede.stepProc] at hs
    split at hs <;> cases hs
    · next hphase =>
      rw [hphase] at hok
      refine hinv.quiet hp (phaseOk_afterLoad hok nofun ?_)
      exact ⟨_, mem_cons_self, hok, p, pr, hp, .inr ⟨rfl, hphase⟩⟩
    · exact hinv.quiet hp nofun
  | ensure arrived =>
    simp only [Stampede.stepProc] at hs
    split at hs <;> cases hs
    next hphase =>
    rw [hphase] at hok
    obtain ⟨hlocked, horigin, hobtained, hmarshal⟩ := hok
    refine hinv.quiet hp ?_
    split_ifs
    · exact nofun
    · exact ⟨hlocked, horigin, exists_mem_cons_of_exists hobtained, hmarshal⟩
    · exact nofun
  | store =>
    simp only [Stampede.stepProc] at hs
    split at hs
    · next i v origin payload hphase =>
      rw [hphase] at hok
      obtain ⟨hlocked, horigin, hobtained, hmarshal⟩ := hok
      split at hs <;> cases hs
      · exact hinv.quiet hp nofun
      · next env henv =>
        -- An owner publishes what it has obtained under its token.
        obtain ⟨htoken, q, rfl, hq⟩ := storeResult_eq_ok henv
        refine hinv.sends hp horigin rfl ⟨i, v, q, ?_, hobtained, hmarshal, hq⟩
        exact htoken ▸ hasToken_token hlocked
    · cases hs
  | resend =>
    simp only [Stampede.stepProc] at hs
    split at hs
    · next hphase =>
      rw [hphase] at hok
      obtain ⟨w, hw, rfl⟩ := map_eq_some_iff.mp hs
      exact hinv.sends hp hok rfl (hinv.writes w (mem_of_getElem? hw))
    · cases hs
  | stored arrived =>
    simp only [Stampede.stepProc] at hs
    split at hs
    · next hphase =>
      rw [hphase] at hok
      split_ifs at hs <;> cases hs
      · exact hinv.quiet hp nofun
      · exact hinv.quiet hp fun w hw => hok (Outcome.value.inj hw).2
    · cases hs
  | unlock =>
    simp only [Stampede.stepProc] at hs
    split at hs
    · next hphase =>
      rw [hphase] at hok
      obtain ⟨s, hstart, rfl⟩ := map_eq_some_iff.mp hs
      obtain ⟨l, hlock⟩ := startUnlock_eq hstart
      exact hinv.locks hp hlock hok
    · cases hs
  | unlocked =>
    simp only [Stampede.stepProc] at hs
    split at hs
    · next hphase =>
      rw [hphase] at hok
      obtain ⟨o, ho, rfl⟩ := map_eq_some_iff.mp hs
      exact hinv.quiet hp (outcomeOk_of_ne_waited (afterUnlock_ne_waited hok o))
    · cases hs
  | ask arrived =>
    simp only [Stampede.stepProc] at hs
    split at hs
    · next token hphase =>
      rw [hphase] at hok
      by_cases harrived : arrived = false
      · rw [if_pos harrived] at hs
        cases hs
        exact hinv.quiet hp trivial
      · rw [if_neg harrived] at hs
        obtain rfl := eq_true_of_ne_false harrived
        split at hs <;> cases hs
        · next e he => exact hinv.quiet hp (saw_of_ask hlock he)
        · refine hinv.quiet hp ?_
          change PhaseOk _ _ _ _ (if token ≠ [] then _ else _)
          split_ifs with hne
          · exact (hok hne).mono (.of_lock_eq rfl) rfl
          · trivial
    · cases hs
  | tick ended =>
    simp only [Stampede.stepProc] at hs
    split at hs <;> cases hs
    next hphase =>
    rw [hphase] at hok
    refine hinv.quiet hp ?_
    change PhaseOk _ _ _ _ (if _ then _ else if _ then _ else _)
    split_ifs
    · trivial
    · exact Saw.mono hok (.of_lock_eq rfl) rfl
    · exact fun _ => Saw.mono hok (.of_lock_eq rfl) rfl
  | read arrived =>
    simp only [Stampede.stepProc] at hs
    split at hs <;> cases hs
    · next hphase =>
      rw [hphase] at hok
      cases arrived with
      | false => exact hinv.quiet hp trivial
      | true =>
        refine hinv.quiet hp (phaseOk_afterRead hinv hok fun _ => ?_)
        exact Saw.mono hok (.of_lock_eq rfl) rfl
    · next hphase =>
      rw [hphase] at hok
      cases arrived with
      | false => exact hinv.quiet hp trivial
      | true => exact hinv.quiet hp (phaseOk_afterRead hinv hok trivial)
  | fill =>
    simp only [Stampede.stepProc] at hs
    split at hs <;> cases hs
    · exact hinv.quiet hp trivial
    · next hphase _ =>
      rw [hphase] at hok
      exact hinv.quiet hp ((waitedFor_of_filling hlock hok).mono (.of_lock_eq rfl) rfl)

theorem Inv.moves_other {l : Label V}
    (hstep : LockStep cfgs key y y') (hl : ∀ p, l.starts p = false) (hprocs : y'.procs = y.procs)
    (hwrites : ∀ w ∈ y'.writes, ∃ w' ∈ y.writes, w.envelope = w'.envelope)
    (hresult : ∀ env, y'.result = some env →
      y.result = some env ∨ ∃ w ∈ y.writes, w.envelope = env) :
    Inv cfgs key codec (⟨y, l, y'⟩ :: h) y' := by
  refine ⟨hstep.run hinv.lock, fun w hw => ?_, fun env henv => ?_, fun p pr hp => ?_⟩
  · obtain ⟨w', hw', heq⟩ := hwrites w hw
    exact heq ▸ (hinv.writes w' hw').mono hstep.grows
  · rcases hresult env henv with hsame | ⟨w, hw, rfl⟩
    · exact (hinv.result env hsame).mono hstep.grows
    · exact (hinv.writes w hw).mono hstep.grows
  · exact (hinv.procs p pr (hprocs ▸ hp)).mono hstep.grows (hl p)

/-- **Every step keeps the invariant.** -/
theorem Inv.step {l : Label V}
    (hs : step cfgs key codec y l = some y') : Inv cfgs key codec (⟨y, l, y'⟩ :: h) y' := by
  cases l with
  | proc p act =>
    obtain ⟨c, hc, hs⟩ := bind_eq_some_iff.mp hs
    obtain ⟨pr, hp, hs⟩ := bind_eq_some_iff.mp hs
    exact hinv.stepProc hp hs
  | redis l =>
    obtain ⟨-, hs⟩ := ite_none_left_eq_some.mp hs
    obtain ⟨lock, hlock, rfl⟩ := map_eq_some_iff.mp hs
    exact hinv.moves_other (.inr ⟨l, hlock⟩) (fun _ => rfl) rfl (fun w hw => ⟨w, hw, rfl⟩)
      fun _ henv => .inl henv
  | write n =>
    rw [Stampede.step] at hs
    split at hs
    next env hn =>
      cases hs
      have hmem := mem_of_getElem? hn
      refine hinv.moves_other (.inl rfl) (fun _ => rfl) rfl (fun w hw => ?_) fun env' henv' => ?_
      · rcases mem_or_eq_of_mem_set hw with hold | rfl
        · exact ⟨w, hold, rfl⟩
        · exact ⟨_, hmem, rfl⟩
      · exact .inr ⟨_, hmem, Option.some.inj henv'⟩
    next => exact nomatch hs
  | expireResult =>
    cases hs
    exact hinv.moves_other (.inl rfl) (fun _ => rfl) rfl (fun w hw => ⟨w, hw, rfl⟩) nofun

end

end Steps

/-! ### Runs -/

section Runs

variable {cfgs : List Config} {key : Text} {codec : Codec V} {h : List (Ev V)} {y : Sys V} {n : ℕ}

theorem inv_of_run (hr : Run (step cfgs key codec) (.new n) h y) : Inv cfgs key codec h y := by
  induction hr with
  | nil =>
    refine ⟨⟨[], .nil⟩, fun w hw => ?_, fun env henv => ?_, fun p pr hp => ?_⟩
    · exact nomatch hw
    · exact nomatch henv
    · obtain rfl := eq_of_mem_replicate (mem_of_getElem? hp)
      trivial
  | snoc _ hs ih => exact ih.step hs

end Runs

def defaults : Config :=
  ⟨ascii "default", 5000000000, 1000000000, 10000000, 0, ascii "bluetape:cache:coord:default"⟩

def bytesCodec : Codec Text := ⟨fun v => .ok (some v), .ok⟩

end Bluetape.Stampede
