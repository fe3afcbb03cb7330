import Bluetape.Library.Run
import Mathlib.Algebra.Order.Ring.Int

/-!
# The process-local cache

`cache.Memory` under its mutex: the stored values, and for each key that is being loaded the name of
its flight. The critical sections are functions on the two maps, and every operation of the cache is
made of them (`Flights`).

Which value is stale cannot be read off a value. So a value carries where it comes from – the time
at which its loader was started, if a loader produced it (`Item`) – and a log (`Log`) keeps, for
each key, when the latest deletion began that has taken effect, and when the latest began that has
returned. Both are counted in steps of the whole system, and neither is read by the code.

What is kept is `Memory.Ok`: a stored value was not loaded before a deletion that has taken effect,
and a name was made after all of them. Every critical section keeps it, with one exception: storing
a value, which has to be new enough (`Memory.Ok.set`).
-/

namespace Bluetape.Cache

open Lts Function

/-! ### Values and where they come from -/

/-- A value, with the time at which the loader that produced it was started. A value that a
caller has set has none. -/
structure Item (V : Type) where
  value : V
  loadedAt : Option ℕ
  deriving DecidableEq, Repr

/-- The value was not produced by a loader that was started before `n`. -/
def Item.Since {V : Type} (item : Item V) (n : ℕ) : Prop :=
  ∀ s, item.loadedAt = some s → n ≤ s

instance instDecidableSince {V : Type} (item : Item V) (n : ℕ) : Decidable (item.Since n) :=
  decidable_of_iff (item.loadedAt.all fun s => decide (n ≤ s)) (by
    cases h : item.loadedAt <;> simp [Item.Since, h])

theorem Item.Since.mono {V : Type} {item : Item V} {n n' : ℕ} (h : item.Since n')
    (hle : n ≤ n') : item.Since n := fun s hs => hle.trans (h s hs)

/-- An entry of the cache. -/
structure Entry (V : Type) where
  /-- `value`. -/
  item : Item V
  /-- `expiresAt`, unless it is zero. -/
  expiresAt : Option ℤ
  deriving DecidableEq, Repr

def Entry.expired {V : Type} (e : Entry V) (now : ℤ) : Bool :=
  e.expiresAt.any fun t => !decide (now < t)

/-! ### The critical sections -/

/-- The fields of `Memory` under its mutex. -/
structure Memory (K V : Type) where
  values : K → Option (Entry V)
  /-- `flightKeys`; the name of a flight is a number. -/
  flightKeys : K → Option ℕ
  nextFlight : ℕ

variable {K V : Type}

/-- `NewMemory`. -/
def Memory.new : Memory K V := ⟨fun _ => none, fun _ => none, 0⟩

section

variable [DecidableEq K]

/-- `Get`: a value that has expired is dropped, and with it the name of a flight. -/
def Memory.get (m : Memory K V) (now : ℤ) (k : K) : Memory K V × Option (Item V) :=
  match m.values k with
  | none => (m, none)
  | some e =>
    if e.expired now then
      ({ m with
        values := update m.values k none
        flightKeys := update m.flightKeys k none }, none)
    else (m, some e.item)

/-- `Set`; the clock is read before the mutex is taken. -/
def Memory.set (m : Memory K V) (now : ℤ) (k : K) (item : Item V) (ttl : ℤ) : Memory K V :=
  { m with
    values := update m.values k (some ⟨item, if 0 < ttl then some (now + ttl) else none⟩) }

/-- `Delete`. -/
def Memory.delete (m : Memory K V) (k : K) : Memory K V :=
  { m with
    values := update m.values k none
    flightKeys := update m.flightKeys k none }

/-- `Clear`. -/
def Memory.clear (m : Memory K V) : Memory K V :=
  { m with values := fun _ => none, flightKeys := fun _ => none }

/-- `flightKey`: the name of the key's flight, a new one if it has none. -/
def Memory.flightKey (m : Memory K V) (k : K) : Memory K V × ℕ :=
  match m.flightKeys k with
  | some x => (m, x)
  | none =>
    ({ m with
      flightKeys := update m.flightKeys k (some (m.nextFlight + 1))
      nextFlight := m.nextFlight + 1 }, m.nextFlight + 1)

def Memory.deleteFlightKey (m : Memory K V) (k : K) : Memory K V :=
  { m with flightKeys := update m.flightKeys k none }

/-! ### Deletions -/

/-- What a deletion is of: a `Delete` of one key, or a `Clear` of all. -/
inductive Scope (K : Type) where
  | key (k : K)
  | all

/-- The keys of a scope. -/
def Scope.covers : Scope K → K → Bool
  | .key k, k' => decide (k' = k)
  | .all, _ => true

/-- `Delete` or `Clear`. -/
def Memory.erase (m : Memory K V) : Scope K → Memory K V
  | .key k => m.delete k
  | .all => m.clear

/-- **A deletion drops the value and the name of each key it is of.** -/
theorem Memory.erase_eq_some {m : Memory K V} {scope : Scope K} {k : K} :
    (∀ e, (m.erase scope).values k = some e → scope.covers k = false ∧ m.values k = some e) ∧
      ∀ x, (m.erase scope).flightKeys k = some x →
        scope.covers k = false ∧ m.flightKeys k = some x := by
  cases scope with
  | key k' =>
    by_cases hk : k = k'
    · subst hk
      simp [Memory.erase, Memory.delete]
    · simp [Memory.erase, Memory.delete, Scope.covers, hk]
  | all => simp [Memory.erase, Memory.clear]

theorem Memory.nextFlight_erase {m : Memory K V} {scope : Scope K} :
    (m.erase scope).nextFlight = m.nextFlight := by
  cases scope <;> rfl

end

/-! ### The log -/

/-- **What has happened**, as far as staleness depends on it. Times are counted in steps. -/
structure Log (K : Type) where
  time : ℕ
  /-- When the latest deletion of the key began that has taken effect. -/
  erased : K → ℕ
  /-- When the latest deletion of the key began that has returned. -/
  returned : K → ℕ
  /-- For each name of a flight that has been made, its key, and `erased` at that time. -/
  births : ℕ → Option (K × ℕ)

def Log.new : Log K := ⟨0, fun _ => 0, fun _ => 0, fun _ => none⟩

def Log.tick (l : Log K) : Log K := { l with time := l.time + 1 }

section

variable [DecidableEq K]

/-- A deletion that began at `begun` takes effect. -/
def Log.erase (l : Log K) (scope : Scope K) (begun : ℕ) : Log K :=
  { l with erased := fun k => if scope.covers k then max (l.erased k) begun else l.erased k }

/-- A deletion that began at `begun` returns. -/
def Log.finish (l : Log K) (scope : Scope K) (begun : ℕ) : Log K :=
  { l with returned := fun k => if scope.covers k then max (l.returned k) begun else l.returned k }

def Log.bear (l : Log K) (x : ℕ) (k : K) : Log K :=
  { l with births := update l.births x (some ((l.births x).getD (k, l.erased k))) }

end

/-- **The log goes on**: times do not decrease, and what is noted of a name stays. -/
structure Log.Le (l l' : Log K) : Prop where
  time_le : l.time ≤ l'.time
  erased_le : ∀ k, l.erased k ≤ l'.erased k
  returned_le : ∀ k, l.returned k ≤ l'.returned k
  births_eq : ∀ x b, l.births x = some b → l'.births x = some b

/-- **What holds of a log.** -/
structure Log.Ok (l : Log K) : Prop where
  returned_le_erased : ∀ k, l.returned k ≤ l.erased k
  erased_le_time : ∀ k, l.erased k ≤ l.time
  birth_le_erased : ∀ x k e, l.births x = some (k, e) → e ≤ l.erased k

namespace Log

variable {l : Log K}

theorem Le.refl (l : Log K) : l.Le l := ⟨le_rfl, fun _ => le_rfl, fun _ => le_rfl, fun _ _ h => h⟩

theorem le_tick : l.Le l.tick := { Le.refl l with time_le := Nat.le_succ _ }

theorem ok_new : Ok (.new : Log K) :=
  ⟨fun _ => le_rfl, fun _ => le_rfl, nofun⟩

theorem Ok.tick (h : l.Ok) : l.tick.Ok :=
  { h with erased_le_time := fun k => (h.erased_le_time k).trans (Nat.le_succ _) }

variable [DecidableEq K] {scope : Scope K} {begun : ℕ}

theorem erased_le_erase (k : K) : l.erased k ≤ (l.erase scope begun).erased k := by
  simp only [Log.erase]
  split_ifs
  · exact le_max_left _ _
  · exact le_rfl

variable {k : K}

theorem begun_le_erase (h : scope.covers k = true) : begun ≤ (l.erase scope begun).erased k := by
  simp only [Log.erase, h, if_true]
  exact le_max_right _ _

theorem erased_erase_of_not (h : scope.covers k = false) :
    (l.erase scope begun).erased k = l.erased k := by
  simp [Log.erase, h]

theorem le_erase : l.Le (l.erase scope begun) := { Le.refl l with erased_le := erased_le_erase }

theorem Ok.erase (h : l.Ok) (hbegun : begun ≤ l.time) : (l.erase scope begun).Ok where
  returned_le_erased := fun k => (h.returned_le_erased k).trans (erased_le_erase k)
  erased_le_time := fun k => by
    simp only [Log.erase]
    split_ifs
    · exact max_le (h.erased_le_time k) hbegun
    · exact h.erased_le_time k
  birth_le_erased := fun x k e hb => (h.birth_le_erased x k e hb).trans (erased_le_erase k)

theorem le_finish : l.Le (l.finish scope begun) where
  time_le := le_rfl
  erased_le := fun _ => le_rfl
  returned_le := fun k => by
    simp only [Log.finish]
    split_ifs
    · exact le_max_left _ _
    · exact le_rfl
  births_eq := fun _ _ h => h

theorem Ok.finish (h : l.Ok) (hbegun : ∀ k, scope.covers k = true → begun ≤ l.erased k) :
    (l.finish scope begun).Ok :=
  { h with
    returned_le_erased := fun k => by
      simp only [Log.finish]
      split_ifs with hk
      · exact max_le (h.returned_le_erased k) (hbegun k hk)
      · exact h.returned_le_erased k }

variable {x : ℕ}

omit [DecidableEq K] in
theorem bear_of_some {k k' : K} {e : ℕ} (h : l.births x = some (k', e)) : l.bear x k = l := by
  have hself : update l.births x (some (k', e)) = l.births := by
    rw [← h]
    exact update_eq_self x l.births
  rw [Log.bear, h, Option.getD_some, hself]

omit [DecidableEq K] in
theorem births_bear_self (h : l.births x = none) :
    (l.bear x k).births x = some (k, l.erased k) := by
  simp [Log.bear, h]

omit [DecidableEq K] in
theorem births_bear_of_ne {x x' : ℕ} (h : x' ≠ x) :
    (l.bear x k).births x' = l.births x' := update_of_ne h _ _

omit [DecidableEq K] in
theorem le_bear (h : l.births x = none) : l.Le (l.bear x k) :=
  { Le.refl l with
    births_eq := fun x' b hb => by
      have hne : x' ≠ x := by
        rintro rfl
        exact nomatch hb.symm.trans h
      rw [births_bear_of_ne hne]
      exact hb }

omit [DecidableEq K] in
theorem Ok.bear (h : l.Ok) (hx : l.births x = none) : (l.bear x k).Ok :=
  { h with
    birth_le_erased := fun x' k' e hb => by
      by_cases hne : x' = x
      · rw [hne, births_bear_self hx] at hb
        cases hb
        exact le_rfl
      · rw [births_bear_of_ne hne] at hb
        exact h.birth_le_erased x' k' e hb }

end Log

/-! ### What every critical section keeps -/

/-- **No stored value is stale, and no name is**: both are from after every deletion of
their key that has taken effect. -/
structure Memory.Ok (l : Log K) (m : Memory K V) : Prop where
  since : ∀ k e, m.values k = some e → e.item.Since (l.erased k)
  named : ∀ k x, m.flightKeys k = some x → l.births x = some (k, l.erased k)
  unborn : ∀ x b, l.births x = some b → x ≤ m.nextFlight

namespace Memory

variable {l : Log K} {m : Memory K V}

theorem ok_new : Ok (.new : Log K) (.new : Memory K V) where
  since := nofun
  named := nofun
  unborn := nofun

theorem Ok.tick (h : Ok l m) : Ok l.tick m := ⟨h.since, h.named, h.unborn⟩

variable [DecidableEq K] {k : K} {now : ℤ}

theorem Ok.finish (h : Ok l m) {scope : Scope K} {begun : ℕ} : Ok (l.finish scope begun) m :=
  ⟨h.since, h.named, h.unborn⟩

theorem Ok.deleteFlightKey (h : Ok l m) : Ok l (m.deleteFlightKey k) :=
  { h with named := fun k' x hx => h.named k' x (update_none_eq_some hx).2 }

/-- **Reading keeps it, and what is read is not stale.** -/
theorem Ok.get (h : Ok l m) (now : ℤ) (k : K) :
    Ok l (m.get now k).1 ∧ ∀ item, (m.get now k).2 = some item → item.Since (l.erased k) := by
  rw [Memory.get]
  cases hvalue : m.values k with
  | none => exact ⟨h, nofun⟩
  | some e =>
    by_cases hexpired : e.expired now = true
    · simp only [hexpired, if_true]
      refine ⟨?_, nofun⟩
      exact { h with
        since := fun k' e' he => h.since k' e' (update_none_eq_some he).2
        named := fun k' x hx => h.named k' x (update_none_eq_some hx).2 }
    · simp only [hexpired, Bool.false_eq_true, if_false]
      refine ⟨h, fun item hitem => ?_⟩
      cases hitem
      exact h.since k e hvalue

/-- **Storing keeps it if the value is not stale.** -/
theorem Ok.set (h : Ok l m) {item : Item V} {ttl : ℤ} (hitem : item.Since (l.erased k)) :
    Ok l (m.set now k item ttl) :=
  { h with
    since := fun k' e he => by
      rcases update_eq_some he with ⟨rfl, rfl⟩ | ⟨-, he'⟩
      · exact hitem
      · exact h.since k' e he' }

/-- **A deletion keeps it**: what it leaves is of other keys. -/
theorem Ok.erase (h : Ok l m) {scope : Scope K} {begun : ℕ} :
    Ok (l.erase scope begun) (m.erase scope) where
  since := fun k' e he => by
    obtain ⟨hnot, he'⟩ := Memory.erase_eq_some.1 e he
    rw [Log.erased_erase_of_not hnot]
    exact h.since k' e he'
  named := fun k' x hx => by
    obtain ⟨hnot, hx'⟩ := Memory.erase_eq_some.2 x hx
    rw [Log.erased_erase_of_not hnot]
    exact h.named k' x hx'
  unborn := fun x b hb => by
    rw [Memory.nextFlight_erase]
    exact h.unborn x b hb

/-- **Naming a flight keeps it**, and the name is from after every deletion. -/
theorem Ok.flightKey (h : Ok l m) (hl : l.Ok) :
    Ok (l.bear (m.flightKey k).2 k) (m.flightKey k).1 ∧ (l.bear (m.flightKey k).2 k).Ok ∧
      l.Le (l.bear (m.flightKey k).2 k) ∧
      (l.bear (m.flightKey k).2 k).births (m.flightKey k).2 = some (k, l.erased k) := by
  rw [Memory.flightKey]
  cases hname : m.flightKeys k with
  | some x =>
    have hbirth := h.named k x hname
    rw [Log.bear_of_some hbirth]
    exact ⟨h, hl, Log.Le.refl l, hbirth⟩
  | none =>
    simp only
    have hnew : l.births (m.nextFlight + 1) = none := by
      by_contra hsome
      obtain ⟨b, hb⟩ := Option.ne_none_iff_exists'.mp hsome
      exact absurd (h.unborn _ b hb) (by omega)
    refine ⟨⟨h.since, fun k' x hx => ?_, fun x b hb => ?_⟩, hl.bear hnew, Log.le_bear hnew,
      Log.births_bear_self hnew⟩
    · rcases update_eq_some hx with ⟨rfl, rfl⟩ | ⟨-, hx'⟩
      · exact Log.births_bear_self hnew
      · exact (Log.le_bear hnew).births_eq x _ (h.named k' x hx')
    · by_cases hx : x = m.nextFlight + 1
      · exact hx.le
      · rw [Log.births_bear_of_ne hx] at hb
        exact (h.unborn x b hb).trans (Nat.le_succ _)

end Memory

end Bluetape.Cache
