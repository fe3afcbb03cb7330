import Bluetape.Leader.Options
import Bluetape.Library.Run
import Bluetape.Library.SortedSet

/-!
# When accepted options keep a leader alone

A Redis elector holds the key for its lease and renews it on a timer. In the best of
worlds – every command takes no time and never fails, and every timer fires exactly at its
interval – is there never more than one elector of a key that reports to be the leader?

It depends on two options that nothing compares. Redis lets the key go at its deadline, while the
elector learns of it only when its timer fires, so it stays the leader alone **exactly** if its
`RenewInterval` is shorter than its `Lease` in whole milliseconds, as far as Redis is told of it
(`exclusive_iff`). Options that fail this are accepted: a lease of a second leaves the interval at
its default of three (`default_interval_outlasts_lease`). The SQL elector refuses them.

The runs are those of any number of electors of one key. Time is a step of its own, which never goes
past a timer that is due (`Sys.advance`); the timers are kept as a sorted set, whose members are the
electors that report to be the leader.
-/

namespace Bluetape.Leader.Exclusive

open Go Lts SortedSet Option

/-! ### The electors of a key -/

/-- **The electors of one key**: the rest of their options may differ. -/
structure Competition (ι : Type) where
  options : ι → Accepted
  key : String
  key_eq : ∀ i, (options i).key = key

section

variable {ι : Type} (c : Competition ι) (i : ι)

def Competition.renewInterval : ℤ := (c.options i).options.renewInterval

/-- How long the key lives once it is set: the client rounds less than a millisecond up to
one, and anything else down to milliseconds. -/
def Competition.setTTL : ℤ :=
  (if (c.options i).options.lease < millisecond then 1 else (c.options i).leaseMillis) * millisecond

/-- How long the key lives once it is renewed: the lease in whole milliseconds, which may be
none. -/
def Competition.renewTTL : ℤ := (c.options i).leaseMillis * millisecond

theorem Competition.renewInterval_pos : 0 < c.renewInterval i := (c.options i).renewInterval_pos

theorem Competition.renewTTL_le_setTTL : c.renewTTL i ≤ c.setTTL i := by
  refine Int.mul_le_mul_of_nonneg_right ?_ (by decide)
  split_ifs with hshort
  · rw [Accepted.leaseMillis, Int.ediv_eq_zero_of_lt (c.options i).lease_pos.le hshort]
    decide
  · exact le_rfl

/-- The two differ only for a lease below a millisecond, which is renewed for no time. -/
theorem Competition.renewTTL_eq (h : c.renewTTL i ≠ c.setTTL i) : c.renewTTL i = 0 := by
  rw [Competition.renewTTL, Competition.setTTL] at h
  split_ifs at h with hshort
  · rw [Competition.renewTTL, Accepted.leaseMillis,
      Int.ediv_eq_zero_of_lt (c.options i).lease_pos.le hshort, Int.zero_mul]
  · exact absurd rfl h

end

structure Owner (ι : Type) where
  elector : ι
  expireAt : ℤ
  deriving DecidableEq

/-- The key, the time, and the electors that report to be the leader. -/
structure Sys (ι : Type) where
  owner : Option (Owner ι)
  /-- The electors with `owned` set, each with the time its timer fires next. -/
  timers : SortedSet ι
  clock : ℤ

open Sys

def Sys.init (ι : Type) : Sys ι := ⟨none, empty, 0⟩

variable {ι : Type} [DecidableEq ι]

def Sys.isLeader (y : Sys ι) (i : ι) : Bool := (y.timers.score i).isSome

/-- **At most one elector reports to be the leader.** -/
def AtMostOne (y : Sys ι) : Prop :=
  ∀ i j, y.isLeader i = true → y.isLeader j = true → i = j

/-- What a command finds of the key, which is gone at its deadline. -/
def Sys.found (y : Sys ι) : Option (Owner ι) :=
  y.owner.filter fun o => decide (y.clock < o.expireAt)

/-! ### What the electors do -/

variable (c : Competition ι)

def Sys.grant (y : Sys ι) (i : ι) : Sys ι :=
  { y with
    owner := some ⟨i, y.clock + c.setTTL i⟩
    timers := y.timers.add (y.clock + c.renewInterval i) i }

/-- The key is given its lease again, and the timer runs on. -/
def Sys.renewed (y : Sys ι) (i : ι) : Sys ι :=
  { y with
    owner := some ⟨i, y.clock + c.renewTTL i⟩
    timers := y.timers.add (y.clock + c.renewInterval i) i }

/-- An attempt of `Campaign`, whose `SetNX` fails if the key is there. An elector that is
the leader does not attempt. -/
def Sys.campaign (y : Sys ι) (i : ι) : Option (Sys ι) :=
  if y.isLeader i then none
  else
    match y.found with
    | none => some (y.grant c i)
    | some _ => some y

/-- The timer of an elector fires: `renewScript`, and `clearOwnershipAfterLoss` if it did
not find the elector's token. -/
def Sys.tick (y : Sys ι) (i : ι) : Option (Sys ι) :=
  if y.timers.score i ≠ some y.clock then none
  else if y.found.any fun o => decide (o.elector = i) then some (y.renewed c i)
  else some { y with timers := y.timers.remove i }

/-- `Resign` of a leader: the timer is stopped, and `releaseScript` removes the key if it
holds the elector's token. -/
def Sys.resign (y : Sys ι) (i : ι) : Option (Sys ι) :=
  if y.isLeader i then
    some { y with
      owner := y.found.filter fun o => decide (o.elector ≠ i)
      timers := y.timers.remove i }
  else none

def Sys.advance (y : Sys ι) (t : ℤ) : Option (Sys ι) :=
  if y.clock ≤ t ∧ ∀ timer ∈ y.timers.rows, t ≤ timer.2 then some { y with clock := t } else none

inductive Action (ι : Type) where
  | campaign (i : ι)
  | tick (i : ι)
  | resign (i : ι)
  | advance (t : ℤ)

/-- **One step.** -/
def step (y : Sys ι) : Action ι → Option (Sys ι)
  | .campaign i => y.campaign c i
  | .tick i => y.tick c i
  | .resign i => y.resign i
  | .advance t => y.advance t

/-! ### What a step does -/

variable {c}

/-- **What a step does.** -/
inductive Move (c : Competition ι) (y : Sys ι) : Sys ι → Prop
  | granted {i : ι} : y.found = none → Move c y (y.grant c i)
  | denied : Move c y y
  | renewed {i : ι} : y.timers.score i = some y.clock → Move c y (y.renewed c i)
  | lost {i : ι} : y.timers.score i = some y.clock → (∀ o, y.found = some o → o.elector ≠ i) →
      Move c y { y with timers := y.timers.remove i }
  | resigned {i : ι} : Move c y { y with
      owner := y.found.filter fun o => decide (o.elector ≠ i)
      timers := y.timers.remove i }
  | advanced {t : ℤ} : y.clock ≤ t → (∀ i u, y.timers.score i = some u → t ≤ u) →
      Move c y { y with clock := t }

theorem move_of_step {y y' : Sys ι} {a : Action ι} (h : step c y a = some y') : Move c y y' := by
  cases a with
  | campaign i =>
    obtain ⟨-, h⟩ := ite_none_left_eq_some.mp h
    split at h <;> cases h
    next hfound => exact .granted hfound
    · exact .denied
  | tick i =>
    obtain ⟨hdue, h⟩ := ite_none_left_eq_some.mp h
    split_ifs at h with hmine <;> cases h
    · exact .renewed (not_not.mp hdue)
    · refine .lost (not_not.mp hdue) fun o ho hoi => hmine ?_
      rw [ho, any_some, decide_eq_true hoi]
  | resign i =>
    obtain ⟨-, ⟨⟩⟩ := ite_none_right_eq_some.mp h
    exact .resigned
  | advance t =>
    obtain ⟨hguard, ⟨⟩⟩ := ite_none_right_eq_some.mp h
    exact .advanced hguard.1 fun i u hu => hguard.2 (i, u) (score_eq_some.mp hu)

/-! ### Intervals shorter than the lease -/

/-- **The key outlasts the timer of whoever leads.** -/
def Inv (y : Sys ι) : Prop :=
  ∀ i u, y.timers.score i = some u →
    y.clock ≤ u ∧ ∃ expireAt, y.owner = some ⟨i, expireAt⟩ ∧ u < expireAt

variable {y : Sys ι}

theorem Inv.found (hinv : Inv y) {i : ι} {u : ℤ} (hu : y.timers.score i = some u) :
    ∃ expireAt, y.found = some ⟨i, expireAt⟩ ∧ u < expireAt := by
  obtain ⟨hclock, expireAt, howner, hlt⟩ := hinv i u hu
  refine ⟨expireAt, ?_, hlt⟩
  rw [Sys.found, howner, filter_some_pos]
  exact decide_eq_true (lt_of_le_of_lt hclock hlt)

theorem Inv.atMostOne (hinv : Inv y) : AtMostOne y := by
  intro i j hi hj
  obtain ⟨u, hu⟩ := isSome_iff_exists.mp hi
  obtain ⟨v, hv⟩ := isSome_iff_exists.mp hj
  obtain ⟨-, d, hd, -⟩ := hinv i u hu
  obtain ⟨-, d', hd', -⟩ := hinv j v hv
  exact congrArg Owner.elector (mem_unique hd hd')

theorem Inv.hold {i : ι} {lifetime : ℤ} (halone : ∀ j u, y.timers.score j = some u → j = i)
    (hinterval : c.renewInterval i < lifetime) :
    Inv { y with
      owner := some ⟨i, y.clock + lifetime⟩
      timers := y.timers.add (y.clock + c.renewInterval i) i } := by
  intro j u hu
  have hpos := c.renewInterval_pos i
  rcases score_of_add hu with ⟨rfl, rfl⟩ | ⟨hji, hu'⟩
  · refine ⟨?_, _, rfl, ?_⟩
    · change y.clock ≤ y.clock + c.renewInterval j
      omega
    · omega
  · exact absurd (halone j u hu') hji

theorem inv_step (hshort : ∀ i, c.renewInterval i < c.renewTTL i) {y y' : Sys ι}
    {a : Action ι} (hinv : Inv y) (h : step c y a = some y') : Inv y' := by
  cases move_of_step h with
  | granted hfound =>
    refine Inv.hold (fun j u hu => ?_) ((hshort _).trans_le (c.renewTTL_le_setTTL _))
    obtain ⟨expireAt, hmine, -⟩ := hinv.found hu
    exact nomatch hmine.symm.trans hfound
  | denied => exact hinv
  | renewed hdue =>
    refine Inv.hold (fun j u hu => ?_) (hshort _)
    exact hinv.atMostOne j _ (by simp [isLeader, hu]) (by simp [isLeader, hdue])
  | lost hdue hnot =>
    obtain ⟨expireAt, hmine, -⟩ := hinv.found hdue
    exact absurd rfl (hnot _ hmine)
  | resigned =>
    intro j u hu
    obtain ⟨hji, hu'⟩ := score_of_remove hu
    obtain ⟨expireAt, hmine, hlt⟩ := hinv.found hu'
    refine ⟨(hinv j u hu').1, expireAt, ?_, hlt⟩
    rw [hmine, filter_some_pos]
    exact decide_eq_true hji
  | advanced _ htimers =>
    intro j u hu
    obtain ⟨-, howner⟩ := hinv j u hu
    exact ⟨htimers j u hu, howner⟩

/-! ### Intervals that are not -/

theorem campaign_of_found_none {i : ι} (hi : y.timers.score i = none) (hfound : y.found = none) :
    step c y (.campaign i) = some (y.grant c i) := by
  simp only [step, campaign, isLeader, hi, hfound, isSome_none, Bool.false_eq_true, if_false]

theorem exists_run_two {h : List (Event (Sys ι) (Action ι))}
    (hr : Run (step c) (.init ι) h y) {i j : ι} (hij : i ≠ j) (hi : y.isLeader i = true)
    (hj : y.timers.score j = none) (hfound : y.found = none) :
    ∃ h y, Run (step c) (.init ι) h y ∧ ¬ AtMostOne y := by
  refine ⟨_, _, hr.snoc (campaign_of_found_none hj hfound), fun hone => hij (hone i j ?_ ?_)⟩
  · change ((y.timers.add _ j).score i).isSome = true
    rw [score_add_of_ne hij]
    exact hi
  · change ((y.timers.add _ j).score j).isSome = true
    rw [score_add_self, isSome_some]

theorem timers_grant_init {i k : ι} {u : ℤ}
    (hu : ((init ι).grant c i).timers.score k = some u) : k = i ∧ u = c.renewInterval i := by
  rcases score_of_add hu with ⟨rfl, rfl⟩ | ⟨-, hu'⟩
  · exact ⟨rfl, zero_add _⟩
  · exact nomatch hu'

theorem run_advance {i : ι} {t : ℤ} (h0 : 0 ≤ t) (ht : t ≤ c.renewInterval i) :
    ∃ h, Run (step c) (.init ι) h { (init ι).grant c i with clock := t } := by
  have hgrant := Run.nil.snoc (campaign_of_found_none (c := c) (y := .init ι) (i := i) rfl rfl)
  refine ⟨_, hgrant.snoc (e := .advance t) ?_⟩
  refine if_pos ⟨h0, fun timer htimer => ?_⟩
  obtain ⟨-, hu⟩ := timers_grant_init (score_eq_some.mpr htimer)
  omega

/-- **An interval that is no shorter lets a second leader in**: at the end of the lease, or,
if Redis is told of none, after the first renewal. -/
theorem exists_run_not_atMostOne {i j : ι} (hij : i ≠ j)
    (hlong : c.renewTTL i ≤ c.renewInterval i) :
    ∃ h y, Run (step c) (.init ι) h y ∧ ¬ AtMostOne y := by
  have hpos := c.renewInterval_pos i
  have hlead : (((init ι).grant c i).timers.score i) = some (0 + c.renewInterval i) :=
    score_add_self
  have hother : ((init ι).grant c i).timers.score j = none := by
    change (add _ _ i).score j = none
    rw [score_add_of_ne hij.symm]
    rfl
  by_cases hset : c.setTTL i ≤ c.renewInterval i
  · have hnonneg : 0 ≤ c.setTTL i :=
      (Int.mul_nonneg (c.options i).leaseMillis_nonneg (by decide)).trans (c.renewTTL_le_setTTL i)
    obtain ⟨h, hr⟩ := run_advance (c := c) (i := i) hnonneg hset
    refine exists_run_two hr hij (by simp [isLeader, hlead]) hother ?_
    change (some (⟨i, 0 + c.setTTL i⟩ : Owner ι)).filter _ = none
    simp
  · -- the timer fires while the key is there, and the renewal takes it away
    have hzero := c.renewTTL_eq i (by omega)
    obtain ⟨h, hr⟩ := run_advance (c := c) (i := i) hpos.le le_rfl
    have hfound : ({ (init ι).grant c i with clock := c.renewInterval i } : Sys ι).found =
        some ⟨i, 0 + c.setTTL i⟩ := by
      refine filter_some_pos (decide_eq_true ?_)
      change c.renewInterval i < 0 + c.setTTL i
      omega
    have htick : step c { (init ι).grant c i with clock := c.renewInterval i } (.tick i) =
        some (renewed c { (init ι).grant c i with clock := c.renewInterval i } i) := by
      simp only [step, tick, hfound, any_some, decide_true, if_true]
      refine if_neg (not_not.mpr ?_)
      rw [hlead, zero_add]
    refine exists_run_two (hr.snoc htick) hij ?_ ?_ ?_
    · change ((add _ _ i).score i).isSome = true
      rw [score_add_self, isSome_some]
    · change (add _ _ i).score j = none
      rw [score_add_of_ne hij.symm]
      exact hother
    · change (some (⟨i, c.renewInterval i + c.renewTTL i⟩ : Owner ι)).filter _ = none
      simp [hzero, renewed]

/-! ### The two together -/

/-- **Of the electors of a key at most one reports to be the leader, in any run, exactly
if** the interval of each that has a competitor is shorter than its lease in whole
milliseconds. -/
theorem exclusive_iff (c : Competition ι) :
    (∀ h y, Run (step c) (.init ι) h y → AtMostOne y) ↔
      ∀ i j, i ≠ j → c.renewInterval i < c.renewTTL i := by
  constructor
  · intro hall i j hij
    by_contra hlong
    obtain ⟨h, y, hr, hnot⟩ := exists_run_not_atMostOne hij (not_lt.mp hlong)
    exact hnot (hall h y hr)
  · intro hshort h y hr i j hi hj
    by_contra hij
    -- there are two electors, so every one has a competitor
    have hall : ∀ k, c.renewInterval k < c.renewTTL k := by
      intro k
      by_cases hki : k = i
      · exact hshort k j (hki ▸ hij)
      · exact hshort k i hki
    have hinit : Inv (.init ι) := nofun
    exact hij ((hr.invariant hinit fun _ _ _ hinv hstep => inv_step hall hinv hstep).atMostOne
      i j hi hj)

/-! ### A lease of a second -/

def secondLease : Options := ⟨"reports", "worker", second, 0, ""⟩

/-- What `Normalize` makes of it. -/
def secondLeaseNormalized : Options :=
  ⟨"reports", "worker", second, 3 * second, "bluetape:leader"⟩

theorem normalize_secondLease : secondLease.normalize = .ok secondLeaseNormalized := by
  decide +kernel

def twoElectors : Competition (Fin 2) where
  options := fun _ => ⟨secondLeaseNormalized, secondLease, normalize_secondLease⟩
  key := "bluetape:leader:reports"
  key_eq := by decide +kernel

/-- **The default interval outlasts a lease of a second**: when the second is over, the
other elector gets the key, and the first does not know for two seconds more. -/
theorem default_interval_outlasts_lease :
    ∃ h y, Run (step twoElectors) (.init (Fin 2)) h y ∧ ¬ AtMostOne y := by
  obtain ⟨h, y, hr, h0, h1⟩ := exists_run (step twoElectors) (.init (Fin 2))
    [.campaign 0, .advance second, .campaign 1]
    (fun _ y => y.isLeader 0 = true ∧ y.isLeader 1 = true) (by decide +kernel)
  exact ⟨h, y, hr, fun hone => (nomatch hone 0 1 h0 h1)⟩

end Bluetape.Leader.Exclusive
