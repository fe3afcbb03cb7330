import Bluetape.Library.Run

/-!
# Coordination of the operations on a key

Operations on a key of a `TieredCache` that go to Redis share a coordinator. It has a token,
which one operation at a time holds, and a flight, on which the calls that load the key wait
together. Coordinators are made when the first operation on a key asks for one, and retired
when the last has let go of it, so the same key may have several over time.

What matters to the tier is that **two operations on a key do not hold the token at the same time**
(`Registry.Ok.unique`). For one coordinator that is how its channel works; that a retired
coordinator does not live on beside its successor is because the references are counted:
`Registry.Ok` says who holds what (`Holder`), and that the counters agree. Each section of the code
keeps it.
-/

namespace Bluetape.RedisValue

open Lts Function Option List

/-- `keyCoordinator`; a flight is the number of it. -/
structure Coordinator where
  token : Bool
  flight : Option ℕ
  externalRef : ℕ
  tokenUsers : ℕ
  deriving DecidableEq, Repr

/-- `newKeyCoordinator`. -/
def Coordinator.new : Coordinator := ⟨true, none, 0, 0⟩

/-- `idleLocked`. -/
def Coordinator.idle (o : Coordinator) : Bool :=
  decide (o.externalRef = 0 ∧ o.tokenUsers = 0 ∧ o.flight = none)

/-- `coordinatorRegistry`, with all coordinators and flights there have been; a flight has a
result once it is published. -/
structure Registry (K ρ : Type) where
  items : K → Option ℕ
  coordinators : List Coordinator
  flights : List (Option ρ)

variable {K ρ : Type}

namespace Registry

/-- `newCoordinatorRegistry`. -/
def new : Registry K ρ := ⟨fun _ => none, [], []⟩

def update (r : Registry K ρ) (c : ℕ) (o : Coordinator) : Registry K ρ :=
  { r with coordinators := r.coordinators.set c o }

/-- `tokenUsers` goes up: the first section of `acquireToken`. -/
def enlist (r : Registry K ρ) (c : ℕ) : Option (Registry K ρ) :=
  (r.coordinators[c]?).map fun o => r.update c { o with tokenUsers := o.tokenUsers + 1 }

/-- `tokenUsers` goes down: `acquireToken` that gives up, and the first section of
`releaseToken`. `none` is the panic. -/
def delist (r : Registry K ρ) (c : ℕ) : Option (Registry K ρ) :=
  (r.coordinators[c]?).bind fun o =>
    if 0 < o.tokenUsers then some (r.update c { o with tokenUsers := o.tokenUsers - 1 }) else none

def takeToken (r : Registry K ρ) (c : ℕ) : Option (Registry K ρ) :=
  (r.coordinators[c]?).bind fun o =>
    if o.token then some (r.update c { o with token := false }) else none

/-- The token is sent to the channel, which has room for one. -/
def putToken (r : Registry K ρ) (c : ℕ) : Option (Registry K ρ) :=
  (r.coordinators[c]?).bind fun o =>
    if o.token then none else some (r.update c { o with token := true })

/-- `joinFlight`: the flight, and whether the caller leads it. -/
def joinFlight (r : Registry K ρ) (c : ℕ) : Option (Registry K ρ × ℕ × Bool) :=
  (r.coordinators[c]?).map fun o =>
    match o.flight with
    | some f => (r, f, false)
    | none =>
      ({ r.update c { o with flight := some r.flights.length } with
        flights := r.flights ++ [none] }, r.flights.length, true)

/-- What `waitFlight` waits for. -/
def published (r : Registry K ρ) (f : ℕ) : Option ρ := (r.flights[f]?).bind id

def publishFlight (r : Registry K ρ) (c f : ℕ) (result : ρ) : Option (Registry K ρ) :=
  (r.coordinators[c]?).map fun o =>
    if o.flight = some f ∧ (r.published f).isNone then
      { r.update c { o with flight := none } with flights := r.flights.set f (some result) }
    else r

section

variable [DecidableEq K]

def acquire (r : Registry K ρ) (k : K) : Registry K ρ × ℕ :=
  match r.items k with
  | some c =>
    ({ r with coordinators := r.coordinators.modify c fun o =>
        { o with externalRef := o.externalRef + 1 } }, c)
  | none =>
    ({ r with
      items := Function.update r.items k (some r.coordinators.length)
      coordinators := r.coordinators ++ [{ Coordinator.new with externalRef := 1 }] },
      r.coordinators.length)

/-- `release`; `none` is the panic. -/
def release (r : Registry K ρ) (k : K) (c : ℕ) : Option (Registry K ρ) :=
  if r.items k ≠ some c then some r
  else (r.coordinators[c]?).bind fun o =>
    if 0 < o.externalRef then
      let o' : Coordinator := { o with externalRef := o.externalRef - 1 }
      some { r.update c o' with
        items := if o'.idle then Function.update r.items k none else r.items }
    else none

end

end Registry

/-! ### Who holds what -/

/-- What an operation holds: a coordinator that it has acquired for a key, and its token. -/
structure Holder (K : Type) where
  coordinator : Option (K × ℕ)
  token : Bool

open Holder

def Holder.refers (c : ℕ) (h : Holder K) : Bool := h.coordinator.any fun p => decide (p.2 = c)

def Holder.holds (c : ℕ) (h : Holder K) : Bool := h.token && h.refers c

variable {h : Holder K}

theorem Holder.refers_iff {c : ℕ} : h.refers c = true ↔ ∃ k, h.coordinator = some (k, c) := by
  cases hc : h.coordinator with
  | none => simp [refers, hc]
  | some p => simp [refers, hc, Prod.ext_iff]

theorem Holder.refers_of_some {k : K} {c : ℕ} (hc : h.coordinator = some (k, c)) (d : ℕ) :
    h.refers d = decide (c = d) := by
  rw [refers, hc, Option.any_some]

theorem Holder.refers_of_none (hc : h.coordinator = none) (d : ℕ) : h.refers d = false := by
  rw [refers, hc, Option.any_none]

/-- **What is held is what the registry says**: a coordinator that somebody refers to is the
one of its key; the references are counted; and a token is in the channel or with one
holder. -/
structure Registry.Ok (r : Registry K ρ) (hs : List (Holder K)) : Prop where
  items_lt : ∀ k c, r.items k = some c → c < r.coordinators.length
  refers_ok : ∀ h ∈ hs, ∀ k c, h.coordinator = some (k, c) → r.items k = some c
  count_refers : ∀ c o, r.coordinators[c]? = some o → hs.countP (refers c) = o.externalRef
  count_holds : ∀ c o, r.coordinators[c]? = some o →
    hs.countP (holds c) + (if o.token then 1 else 0) = 1

namespace Registry

variable {r r' : Registry K ρ} {hs : List (Holder K)} {i : ℕ} {h : Holder K} {k : K} {c : ℕ}

theorem ok_new : Ok (.new : Registry K ρ) [] where
  items_lt := nofun
  refers_ok := nofun
  count_refers := nofun
  count_holds := nofun

section

variable (hok : r.Ok hs)
include hok

/-- **No two operations hold the token of a key.** -/
theorem Ok.unique {j : ℕ} {h' : Holder K} {c' : ℕ} (hi : hs[i]? = some h) (hj : hs[j]? = some h')
    (hc : h.coordinator = some (k, c)) (hc' : h'.coordinator = some (k, c')) (ht : h.token = true)
    (ht' : h'.token = true) : i = j := by
  have hk := hok.refers_ok h (mem_of_getElem? hi) k c hc
  have hk' := hok.refers_ok h' (mem_of_getElem? hj) k c' hc'
  obtain rfl : c = c' := mem_unique hk hk'
  have hh : h.holds c = true := by simp [holds, refers, ht, hc]
  have hh' : h'.holds c = true := by simp [holds, refers, ht', hc']
  have hlt := hok.items_lt k c hk
  have hcount := hok.count_holds c _ (getElem?_eq_getElem hlt)
  by_contra hne
  -- with one of the two replaced by nobody, the other is still counted
  have hset := countP_set_add (holds c) hi (⟨none, false⟩ : Holder K)
  have hpos : 0 < (hs.set i ⟨none, false⟩).countP (holds c) := by
    refine countP_pos_iff.mpr ⟨h', ?_, hh'⟩
    exact mem_of_getElem? ((getElem?_set_ne hne).trans hj)
  rw [if_pos hh, if_neg (by simp [holds])] at hset
  omega

theorem Ok.append : r.Ok (hs ++ [⟨none, false⟩]) where
  items_lt := hok.items_lt
  refers_ok := forall_mem_concat hok.refers_ok nofun
  count_refers := fun c o ho => by
    rw [countP_append, hok.count_refers c o ho]
    simp [refers]
  count_holds := fun c o ho => by
    simpa [holds] using hok.count_holds c o ho

theorem Ok.flights (fs : List (Option ρ)) : Ok { r with flights := fs } hs :=
  ⟨hok.items_lt, hok.refers_ok, hok.count_refers, hok.count_holds⟩

theorem Ok.update {o : Coordinator} (o' : Coordinator) (ho : r.coordinators[c]? = some o)
    (href : o'.externalRef = o.externalRef) (htok : o'.token = o.token) :
    Ok (r.update c o') hs where
  items_lt := fun k d hk => by
    change d < (r.coordinators.set c o').length
    rw [length_set]
    exact hok.items_lt k d hk
  refers_ok := hok.refers_ok
  count_refers :=
    forall_getElem?_set hok.count_refers ((hok.count_refers c o ho).trans href.symm)
  count_holds := forall_getElem?_set hok.count_holds (htok ▸ hok.count_holds c o ho)

theorem Ok.enlist (hr : r.enlist c = some r') : r'.Ok hs := by
  obtain ⟨o, ho, rfl⟩ := map_eq_some_iff.mp hr
  exact hok.update _ ho rfl rfl

theorem Ok.delist (hr : r.delist c = some r') : r'.Ok hs := by
  obtain ⟨o, ho, hr'⟩ := bind_eq_some_iff.mp hr
  split_ifs at hr'
  cases hr'
  exact hok.update _ ho rfl rfl

theorem Ok.joinFlight {f : ℕ} {leader : Bool} (hr : r.joinFlight c = some (r', f, leader)) :
    r'.Ok hs := by
  obtain ⟨o, ho, hr'⟩ := map_eq_some_iff.mp hr
  split at hr'
  · obtain rfl := congrArg Prod.fst hr'
    exact hok
  · obtain rfl := congrArg Prod.fst hr'
    exact (hok.update { o with flight := some r.flights.length } ho rfl rfl).flights _

theorem Ok.publishFlight {f : ℕ} {result : ρ} (hr : r.publishFlight c f result = some r') :
    r'.Ok hs := by
  obtain ⟨o, ho, rfl⟩ := map_eq_some_iff.mp hr
  split_ifs
  · exact (hok.update { o with flight := none } ho rfl rfl).flights _
  · exact hok

/-- **An operation changes with its coordinator**, and with what it counts there. -/
theorem Ok.set {o o' : Coordinator} {h' : Holder K} {items : K → Option ℕ} (hi : hs[i]? = some h)
    (ho : r.coordinators[c]? = some o) (hh : ∀ d, d ≠ c → h.refers d = false)
    (hh' : ∀ d, d ≠ c → h'.refers d = false)
    (href : o'.externalRef + (if h.refers c then 1 else 0) =
      o.externalRef + if h'.refers c then 1 else 0)
    (htoken : (if o'.token then 1 else 0) + (if h'.holds c then 1 else 0) =
      (if o.token then 1 else 0) + if h.holds c then 1 else 0)
    (hlt : ∀ k d, items k = some d → d < r.coordinators.length)
    (hitems : ∀ g ∈ hs.set i h', ∀ k d, g.coordinator = some (k, d) → items k = some d) :
    Ok { r.update c o' with items := items } (hs.set i h') where
  items_lt := fun k d hk => by
    change d < (r.coordinators.set c o').length
    rw [length_set]
    exact hlt k d hk
  refers_ok := hitems
  count_refers := fun d p hd => by
    have hset := countP_set_add (refers d) hi h'
    rcases getElem?_set_cases hd with ⟨rfl, rfl⟩ | ⟨hne, hd⟩
    · have hold := hok.count_refers d o ho
      omega
    · rw [hh d hne, hh' d hne] at hset
      exact (Nat.add_right_cancel hset).trans (hok.count_refers d p hd)
  count_holds := fun d p hd => by
    have hset := countP_set_add (holds d) hi h'
    rcases getElem?_set_cases hd with ⟨rfl, rfl⟩ | ⟨hne, hd⟩
    · have hold := hok.count_holds d o ho
      omega
    · rw [holds, holds, hh d hne, hh' d hne, Bool.and_false, Bool.and_false] at hset
      exact Nat.add_right_cancel hset ▸ hok.count_holds d p hd

/-- The token of a coordinator goes to an operation that refers to it, or comes back. -/
theorem Ok.setToken {o : Coordinator} (ho : r.coordinators[c]? = some o) (hi : hs[i]? = some h)
    (hc : h.coordinator = some (k, c)) (hh : h.token = !o.token) :
    Ok (r.update c { o with token := !o.token }) (hs.set i { h with token := o.token }) := by
  have hother : ∀ d, d ≠ c → h.refers d = false := fun d hd => by
    rw [refers_of_some hc, decide_eq_false hd.symm]
  refine hok.set hi ho hother hother rfl ?_ hok.items_lt
    (forall_mem_set hok.refers_ok (hok.refers_ok h (mem_of_getElem? hi)))
  · have hself : h.refers c = true := by rw [refers_of_some hc, decide_eq_true rfl]
    change _ + (if o.token && h.refers c then 1 else 0) = _ + if h.token && h.refers c then 1 else 0
    rw [hself, hh, Bool.and_true, Bool.and_true, Nat.add_comm]

/-- **Who takes the token holds it.** -/
theorem Ok.takeToken (hi : hs[i]? = some h) (hc : h.coordinator = some (k, c))
    (hh : h.token = false) (hr : r.takeToken c = some r') :
    r'.Ok (hs.set i { h with token := true }) := by
  obtain ⟨o, ho, hr'⟩ := bind_eq_some_iff.mp hr
  split_ifs at hr' with htok
  cases hr'
  have hset := hok.setToken ho hi hc (by rw [hh, htok]; rfl)
  rw [htok] at hset
  exact hset

theorem Ok.putToken (hi : hs[i]? = some h) (hc : h.coordinator = some (k, c)) (hh : h.token = true)
    (hr : r.putToken c = some r') : r'.Ok (hs.set i { h with token := false }) := by
  obtain ⟨o, ho, hr'⟩ := bind_eq_some_iff.mp hr
  have htok : o.token = false := by
    by_contra hne
    rw [if_pos (by simpa using hne)] at hr'
    cases hr'
  rw [htok] at hr'
  cases hr'
  have hset := hok.setToken ho hi hc (by rw [hh, htok]; rfl)
  rw [htok] at hset
  exact hset

end

section

variable [DecidableEq K]

/-- An operation refers to the coordinator of its key, or to one that no key has. -/
theorem Ok.refer (hok : r.Ok hs) {o : Coordinator} (hi : hs[i]? = some h)
    (hc : h.coordinator = none) (hh : h.token = false) (ho : r.coordinators[c]? = some o)
    (hk : ∀ d, r.items k = some d → d = c) :
    Ok { r.update c { o with externalRef := o.externalRef + 1 } with
        items := Function.update r.items k (some c) }
      (hs.set i { h with coordinator := some (k, c) }) := by
  have hnew : ∀ d, refers d { h with coordinator := some (k, c) } = decide (c = d) :=
    refers_of_some rfl
  refine hok.set hi ho (fun d _ => refers_of_none hc d) (fun d hd => ?_) ?_ ?_
    (fun k' d hk' => ?_) fun g hg k' d hd => ?_
  · rw [hnew, decide_eq_false hd.symm]
  · rw [hnew, refers_of_none hc, decide_eq_true rfl]
    rfl
  · simp only [holds, hh, Bool.false_and]
  · rcases update_eq_some hk' with ⟨-, rfl⟩ | ⟨-, hold⟩
    · exact (List.getElem?_eq_some_iff.mp ho).1
    · exact hok.items_lt k' d hold
  · rcases mem_or_eq_of_mem_set hg with hg | rfl
    · have hold := hok.refers_ok g hg k' d hd
      by_cases heq : k' = k
      · subst heq
        rw [update_self, hk d hold]
      · rwa [update_of_ne heq]
    · cases hd
      exact update_self _ _ _

omit [DecidableEq K] in
/-- Nobody refers to a new coordinator. -/
theorem Ok.extend (hok : r.Ok hs) : Ok { r with coordinators := r.coordinators ++ [.new] } hs := by
  have hfresh : hs.countP (refers r.coordinators.length) = 0 := by
    refine countP_eq_zero.mpr fun g hg href => ?_
    obtain ⟨k', hk'⟩ := refers_iff.mp href
    exact absurd (hok.items_lt k' _ (hok.refers_ok g hg k' _ hk')) (lt_irrefl _)
  refine ⟨fun k' d hk' => ?_, hok.refers_ok, forall_getElem?_concat hok.count_refers hfresh,
    forall_getElem?_concat hok.count_holds ?_⟩
  · refine (hok.items_lt k' d hk').trans ?_
    simp
  · refine congrArg (· + 1) (Nat.le_zero.mp (hfresh ▸ countP_mono_left fun g _ hg => ?_))
    exact (Bool.and_eq_true_iff.mp hg).2

/-- **Who acquires a coordinator refers to the one of the key.** -/
theorem Ok.acquire (hok : r.Ok hs) (hi : hs[i]? = some h) (hc : h.coordinator = none)
    (hh : h.token = false) (hr : r.acquire k = (r', c)) :
    r'.Ok (hs.set i { h with coordinator := some (k, c) }) := by
  unfold Registry.acquire at hr
  cases hk : r.items k with
  | some d =>
    simp only [hk] at hr
    obtain ⟨rfl, rfl⟩ := Prod.mk.inj hr
    have ho := getElem?_eq_getElem (hok.items_lt k d hk)
    have hrefer := hok.refer hi hc hh ho fun e he => mem_unique he hk
    rw [← hk, update_eq_self] at hrefer
    rwa [modify_eq_set_getElem?, ho]
  | none =>
    simp only [hk] at hr
    cases hr
    have hrefer := hok.extend.refer hi hc hh getElem?_concat_length
      fun e he => (nomatch hk.symm.trans he)
    rwa [Registry.update, set_append_right _ _ le_rfl, Nat.sub_self] at hrefer

/-- **Who releases a coordinator leaves it to the others**: it is retired only if there are
none. -/
theorem Ok.release (hok : r.Ok hs) (hi : hs[i]? = some h) (hc : h.coordinator = some (k, c))
    (hh : h.token = false) (hr : r.release k c = some r') :
    r'.Ok (hs.set i { h with coordinator := none }) := by
  have hk := hok.refers_ok h (mem_of_getElem? hi) k c hc
  unfold Registry.release at hr
  rw [if_neg (not_not.mpr hk)] at hr
  obtain ⟨o, ho, hr'⟩ := bind_eq_some_iff.mp hr
  split_ifs at hr' with hpos
  cases hr'
  have hself : h.refers c = true := by rw [refers_of_some hc, decide_eq_true rfl]
  -- how many others refer to it
  have hothers : (hs.set i { h with coordinator := none }).countP (refers c) =
      o.externalRef - 1 := by
    have hset := countP_set_add (refers c) hi { h with coordinator := none }
    rw [hself, if_pos rfl, hok.count_refers c o ho] at hset
    change _ + 1 = _ + 0 at hset
    omega
  refine hok.set hi ho (fun d hd => ?_) (fun _ _ => rfl) ?_ ?_ (fun k' d hk' => ?_)
    fun g hg k' d hd => ?_
  · rw [refers_of_some hc, decide_eq_false hd.symm]
  · rw [hself]
    exact Nat.sub_add_cancel hpos
  · simp only [holds, hh, Bool.false_and]
  · split_ifs at hk'
    · exact hok.items_lt k' d (update_none_eq_some hk').2
    · exact hok.items_lt k' d hk'
  · have hk' : r.items k' = some d := by
      rcases mem_or_eq_of_mem_set hg with hold | rfl
      · exact hok.refers_ok g hold k' d hd
      · cases hd
    split_ifs with hidle
    · rw [update_of_ne, hk']
      rintro rfl
      -- then the coordinator would not be idle
      obtain rfl : c = d := mem_unique hk hk'
      have hzero : o.externalRef - 1 = 0 := (of_decide_eq_true hidle).1
      rw [hzero] at hothers
      exact countP_eq_zero.mp hothers g hg (refers_iff.mpr ⟨k', hd⟩)
    · exact hk'

end

end Registry

end Bluetape.RedisValue
