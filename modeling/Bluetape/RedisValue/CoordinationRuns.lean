import Bluetape.RedisValue.Coordination

/-!
# Runs of the coordination

Any number of operations on any keys, each with a coordinator of its own key: it takes the token or
gives up, puts it back, joins a flight and publishes it, and releases the coordinator, which is the
last it does. The sections are those of `Bluetape.RedisValue.Registry`. An operation is sequential:
it does not release in the middle of `acquireToken` or `releaseToken`. But it may release while it
still holds the token or leads a flight, and `GetOrLoad` does when its loader panics: the release is
deferred, the rest is not.

Whatever they do, **no two operations have the token of a key**, and no counter underflows. The
references are counted (`Counts`), so that a coordinator stays in the registry while anybody refers
to it or has its token. Who left the token behind is counted among its users, and so the coordinator
is not replaced – but it stays forever (`abandoned_coordinator_stays`). Otherwise **a coordinator
that nobody refers to is not in the registry** (`coordination_exclusive`).
-/

namespace Bluetape.RedisValue.Coordination

open Lts Function Option List

/-- Where an operation is with the token. -/
inductive TokenPhase where
  | free
  /-- In `acquireToken`, counted among the users. -/
  | waiting
  | held
  /-- In `releaseToken`, not counted any more. -/
  | returning
  deriving DecidableEq, Repr

/-- Counted among the users. -/
def TokenPhase.enlisted : TokenPhase → Bool
  | .waiting => true
  | .held => true
  | _ => false

/-- It has the token. -/
def TokenPhase.has : TokenPhase → Bool
  | .held => true
  | .returning => true
  | _ => false

/-- An operation, from when it has acquired its coordinator. -/
structure Op (K : Type) where
  key : K
  coordinator : ℕ
  referring : Bool
  token : TokenPhase
  leads : Option ℕ
  deriving DecidableEq

open Op

/-- The registry and the operations. -/
structure Sys (K ρ : Type) where
  registry : Registry K ρ
  ops : List (Op K)

/-- No operation. -/
def Sys.new {K ρ : Type} : Sys K ρ := ⟨.new, []⟩

/-- What an operation does. -/
inductive Action (ρ : Type) where
  /-- `acquireToken` begins. -/
  | enlist
  /-- `acquireToken` receives the token. -/
  | takeToken
  /-- `acquireToken` gives up with its context. -/
  | cancel
  /-- `releaseToken` begins. -/
  | delist
  /-- `releaseToken` sends the token. -/
  | putToken
  | joinFlight
  | publishFlight (result : ρ)
  | release
  deriving DecidableEq, Repr

/-- What happens. -/
inductive Label (K ρ : Type) where
  | acquire (k : K)
  | act (i : ℕ) (a : Action ρ)
  deriving DecidableEq, Repr

variable {K ρ : Type}

/-- An operation that has acquired the coordinator of a key. -/
def Op.begun (k : K) (c : ℕ) : Op K := ⟨k, c, true, .free, none⟩

/-- It has let go. -/
def Op.released (op : Op K) : Op K := { op with referring := false }

section Step

variable [DecidableEq K]

/-- What an operation does to the registry, and what becomes of it. -/
def Op.act (op : Op K) (r : Registry K ρ) : Action ρ → Option (Registry K ρ × Op K)
  | .enlist =>
    if op.token = .free then
      (r.enlist op.coordinator).map fun r' => (r', { op with token := .waiting })
    else none
  | .takeToken =>
    if op.token = .waiting then
      (r.takeToken op.coordinator).map fun r' => (r', { op with token := .held })
    else none
  | .cancel =>
    if op.token = .waiting then
      (r.delist op.coordinator).map fun r' => (r', { op with token := .free })
    else none
  | .delist =>
    if op.token = .held then
      (r.delist op.coordinator).map fun r' => (r', { op with token := .returning })
    else none
  | .putToken =>
    if op.token = .returning then
      (r.putToken op.coordinator).map fun r' => (r', { op with token := .free })
    else none
  | .joinFlight =>
    (r.joinFlight op.coordinator).map fun x =>
      (x.1, if x.2.2 then { op with leads := some x.2.1 } else op)
  | .publishFlight result =>
    op.leads.bind fun f => (r.publishFlight op.coordinator f result).map fun r' =>
      (r', { op with leads := none })
  | .release =>
    if op.token = .free ∨ op.token = .held then
      (r.release op.key op.coordinator).map fun r' => (r', op.released)
    else none

/-- **One step of the operations.** -/
def step (y : Sys K ρ) : Label K ρ → Option (Sys K ρ)
  | .acquire k =>
    some ⟨(y.registry.acquire k).1, y.ops ++ [.begun k (y.registry.acquire k).2]⟩
  | .act i a =>
    (y.ops[i]?).bind fun op =>
      if op.referring then
        (op.act y.registry a).map fun x => ⟨x.1, y.ops.set i x.2⟩
      else none

end Step

/-- A step. -/
abbrev Ev (K ρ : Type) : Type := Event (Sys K ρ) (Label K ρ)

/-- An operation lets go of its coordinator with the token, or with a flight that it has not
published. -/
def abandons (ev : Ev K ρ) : Bool :=
  match ev.label with
  | .act i .release =>
    (ev.before.ops[i]?).any fun op => decide (op.token ≠ .free ∨ op.leads ≠ none)
  | _ => false

/-! ### What is counted -/

/-- It refers to this coordinator. -/
def Op.refers (c : ℕ) (op : Op K) : Bool := op.referring && decide (op.coordinator = c)

/-- It is counted there. -/
def Op.enlisted (c : ℕ) (op : Op K) : Bool := op.token.enlisted && decide (op.coordinator = c)

/-- It has the token there. -/
def Op.has (c : ℕ) (op : Op K) : Bool := op.token.has && decide (op.coordinator = c)

/-- **What the registry counts is what the operations have**, and a coordinator stays while somebody
refers to it or has its token. -/
structure Counts (items : K → Option ℕ) (cs : List Coordinator) (ops : List (Op K)) : Prop where
  items_lt : ∀ k c, items k = some c → c < cs.length
  items_injective : ∀ k k' c, items k = some c → items k' = some c → k = k'
  coordinator_lt : ∀ op ∈ ops, op.coordinator < cs.length
  attached : ∀ op ∈ ops, op.referring = true ∨ op.token = .held →
    items op.key = some op.coordinator
  inside : ∀ op ∈ ops, op.token = .waiting ∨ op.token = .returning → op.referring = true
  refs : ∀ (c : ℕ) (o : Coordinator), cs[c]? = some o → ops.countP (refers c) = o.externalRef
  users : ∀ (c : ℕ) (o : Coordinator), cs[c]? = some o → ops.countP (enlisted c) = o.tokenUsers
  tokens : ∀ (c : ℕ) (o : Coordinator), cs[c]? = some o →
    ops.countP (has c) + (if o.token then 1 else 0) = 1
  kept : ∀ (k : K) (c : ℕ) (o : Coordinator), items k = some c → cs[c]? = some o → o.idle = false

/-- **Every flight that a coordinator has is led by an operation**, and not published. -/
structure Flights (cs : List Coordinator) (flights : List (Option ρ)) (ops : List (Op K)) :
    Prop where
  unpublished : ∀ (c : ℕ) (o : Coordinator) (f : ℕ), cs[c]? = some o → o.flight = some f →
    flights[f]? = some none
  injective : ∀ (c d : ℕ) (o p : Coordinator) (f : ℕ), cs[c]? = some o → cs[d]? = some p →
    o.flight = some f → p.flight = some f → c = d
  led : ∀ (c : ℕ) (o : Coordinator) (f : ℕ), cs[c]? = some o → o.flight = some f →
    ∃ op ∈ ops, op.coordinator = c ∧ op.leads = some f

section Counts

variable {items : K → Option ℕ} {cs : List Coordinator} {ops : List (Op K)} {i : ℕ} {op op' : Op K}
  {o o' : Coordinator}

theorem Counts.not_idle (h : Counts items cs ops) (hmem : op ∈ ops) (href : op.referring = true)
    (ho : cs[op.coordinator]? = some o) : 0 < o.externalRef := by
  rw [← h.refs _ o ho]
  refine countP_pos_iff.mpr ⟨op, hmem, ?_⟩
  rw [refers, href, decide_eq_true rfl]
  rfl

theorem Counts.exists_coordinator (h : Counts items cs ops) (hmem : op ∈ ops) :
    ∃ o, cs[op.coordinator]? = some o :=
  ⟨_, getElem?_eq_getElem (h.coordinator_lt op hmem)⟩

section Change

variable (h : Counts items cs ops) (hi : ops[i]? = some op) (ho : cs[op.coordinator]? = some o)
  (hc : op'.coordinator = op.coordinator)
include hi ho hc

/-- **A count of operations keeps up with their coordinators** when one operation changes with its
coordinator. -/
theorem tallies_set {R : ℕ → Coordinator → Prop} {g : Op K → Bool}
    (h : ∀ (c : ℕ) (p : Coordinator), cs[c]? = some p →
      R (ops.countP fun op => g op && decide (op.coordinator = c)) p)
    (hR : ∀ m n, m + (if g op then 1 else 0) = n + (if g op' then 1 else 0) → R n o → R m o')
    (c : ℕ) (p : Coordinator) (hp : (cs.set op.coordinator o')[c]? = some p) :
    R ((ops.set i op').countP fun op => g op && decide (op.coordinator = c)) p := by
  have hset := countP_set_add (fun op : Op K => g op && decide (op.coordinator = c)) hi op'
  rcases getElem?_set_cases hp with ⟨rfl, rfl⟩ | ⟨hne, hold⟩
  · refine hR _ _ ?_ (h _ o ho)
    simpa [hc] using hset
  · -- it counts nothing for another coordinator
    simp only [hc, hne.symm, decide_false, Bool.and_false, if_neg Bool.false_ne_true] at hset
    exact Nat.add_right_cancel hset ▸ h c p hold

variable (hkey : op'.key = op.key) (href : op.referring = true)
  (husers : o'.tokenUsers + (if op.token.enlisted then 1 else 0) =
    o.tokenUsers + if op'.token.enlisted then 1 else 0)
  (htoken : (if o'.token then 1 else 0) + (if op'.token.has then 1 else 0) =
    (if o.token then 1 else 0) + if op.token.has then 1 else 0)
include h hkey href husers htoken

/-- **An operation changes with its coordinator**, which is retired if it is idle: nobody refers to
it then, or has its token. -/
theorem Counts.set {items' : K → Option ℕ}
    (hinside : op'.token = .waiting ∨ op'.token = .returning → op'.referring = true)
    (hext : o'.externalRef + 1 = o.externalRef + if op'.referring then 1 else 0)
    (hitems : ∀ k c, items' k = some c ↔ items k = some c ∧ (o'.idle = true → k ≠ op.key)) :
    Counts items' (cs.set op.coordinator o') (ops.set i op') := by
  have hmem := mem_of_getElem? hi
  have hown := h.attached op hmem (.inl href)
  have hrefs : ∀ (c : ℕ) (p : Coordinator), (cs.set op.coordinator o')[c]? = some p →
      (ops.set i op').countP (refers c) = p.externalRef := by
    refine tallies_set (R := fun n p => n = p.externalRef) hi ho hc h.refs fun m n hmn hn => ?_
    rw [href, if_pos rfl] at hmn
    omega
  have hused : ∀ (c : ℕ) (p : Coordinator), (cs.set op.coordinator o')[c]? = some p →
      (ops.set i op').countP (enlisted c) = p.tokenUsers := by
    refine tallies_set (R := fun n p => n = p.tokenUsers) hi ho hc h.users fun m n hmn hn => ?_
    omega
  -- a coordinator that is idle is not needed by anybody
  have hfree : o'.idle = true → ∀ p ∈ ops.set i op',
      p.referring = true ∨ p.token = .held → p.coordinator ≠ op.coordinator := by
    intro hidle p hp hatt hc
    obtain ⟨hzero, hnone, -⟩ := of_decide_eq_true hidle
    have hself : (cs.set op.coordinator o')[op.coordinator]? = some o' := getElem?_set_of_some ho
    rcases hatt with hp1 | hp1
    · have := countP_eq_zero.mp ((hrefs _ o' hself).trans hzero) p hp
      rw [refers, hp1, hc, decide_eq_true rfl] at this
      exact this rfl
    · have := countP_eq_zero.mp ((hused _ o' hself).trans hnone) p hp
      rw [enlisted, hp1, hc, decide_eq_true rfl] at this
      exact this rfl
  constructor
  · intro k c hk
    rw [length_set]
    exact h.items_lt k c ((hitems k c).mp hk).1
  · intro k k' c hk hk'
    exact h.items_injective k k' c ((hitems k c).mp hk).1 ((hitems k' c).mp hk').1
  · rw [length_set]
    exact forall_mem_set h.coordinator_lt (hc ▸ h.coordinator_lt op hmem)
  · intro p hp hatt
    have hold : items p.key = some p.coordinator := by
      rcases mem_or_eq_of_mem_set hp with hold | rfl
      · exact h.attached p hold hatt
      · rwa [hkey, hc]
    refine (hitems _ _).mpr ⟨hold, fun hidle heq => hfree hidle p hp hatt ?_⟩
    rw [heq, hown] at hold
    exact (Option.some.inj hold).symm
  · exact forall_mem_set h.inside hinside
  · exact hrefs
  · exact hused
  · refine tallies_set (R := fun n p => n + (if p.token then 1 else 0) = 1) hi ho hc h.tokens
      fun m n hmn hn => ?_
    omega
  · intro k c p hk hp
    obtain ⟨hold, hne⟩ := (hitems k c).mp hk
    rcases getElem?_set_cases hp with ⟨rfl, rfl⟩ | ⟨-, hp⟩
    · refine Bool.eq_false_iff.mpr fun hidle => ?_
      exact hne hidle (h.items_injective k op.key _ hold hown)
    · exact h.kept k c p hold hp

/-- An operation that still refers to its coordinator does not retire it. -/
theorem Counts.change (href' : op'.referring = true) (hext : o'.externalRef = o.externalRef) :
    Counts items (cs.set op.coordinator o') (ops.set i op') := by
  have hpos := h.not_idle (mem_of_getElem? hi) href ho
  refine h.set hi ho hc hkey href husers htoken (fun _ => href') (by rw [href', hext, if_pos rfl])
    fun k c => ⟨fun hk => ⟨hk, fun hidle => ?_⟩, And.left⟩
  have := (of_decide_eq_true hidle).1
  omega

end Change

section Registry

variable [DecidableEq K]

section

variable (h : Counts items cs ops)
include h

theorem Counts.release (hi : ops[i]? = some op)
    (href : op.referring = true) (htoken : op.token = .free ∨ op.token = .held)
    (ho : cs[op.coordinator]? = some o) (ho' : o' = { o with externalRef := o.externalRef - 1 }) :
    Counts (if o'.idle then update items op.key none else items)
      (cs.set op.coordinator o') (ops.set i op.released) := by
  have hpos := h.not_idle (mem_of_getElem? hi) href ho
  subst ho'
  have hc : op.released.coordinator = op.coordinator := rfl
  refine h.set hi ho hc rfl href ?_ ?_ (fun hins => ?_) (Nat.sub_add_cancel hpos) fun k c => ?_
  · rfl
  · rfl
  · change op.token = .waiting ∨ op.token = .returning at hins
    rcases htoken with ht | ht <;> simp [ht] at hins
  · split_ifs with hidle
    · refine ⟨fun hk => ?_, fun ⟨hold, hne⟩ => (update_of_ne (hne hidle) _ _).trans hold⟩
      obtain ⟨hne, hold⟩ := update_none_eq_some hk
      exact ⟨hold, fun _ => hne⟩
    · exact ⟨fun hk => ⟨hk, fun hidle' => absurd hidle' hidle⟩, And.left⟩

/-- **An operation begins** with the coordinator of its key, or with one that no key has. -/
theorem Counts.acquire {k : K} {c : ℕ} (hlt : c < cs.length)
    (hown : ∀ k', items k' = some c → k' = k) (hk : ∀ d, items k = some d → d = c) :
    Counts (update items k (some c))
      (cs.modify c fun o => { o with externalRef := o.externalRef + 1 })
      (ops ++ [begun k c]) := by
  have hget : ∀ (d : ℕ) (p : Coordinator), (cs.modify c fun o =>
      { o with externalRef := o.externalRef + 1 })[d]? = some p → ∃ o, cs[d]? = some o ∧
      p = if c = d then { o with externalRef := o.externalRef + 1 } else o := by
    intro d p hp
    rw [getElem?_modify] at hp
    obtain ⟨o, ho, rfl⟩ := map_eq_some_iff.mp hp
    exact ⟨o, ho, rfl⟩
  constructor
  · intro k' d hk'
    rw [length_modify]
    rcases update_eq_some hk' with ⟨rfl, rfl⟩ | ⟨-, hold⟩
    · exact hlt
    · exact h.items_lt k' d hold
  · intro k₁ k₂ d hk₁ hk₂
    rcases update_eq_some hk₁ with ⟨rfl, rfl⟩ | ⟨hne₁, hold₁⟩
    · rcases update_eq_some hk₂ with ⟨rfl, -⟩ | ⟨-, hold₂⟩
      · rfl
      · exact (hown k₂ hold₂).symm
    · rcases update_eq_some hk₂ with ⟨rfl, rfl⟩ | ⟨-, hold₂⟩
      · exact hown k₁ hold₁
      · exact h.items_injective k₁ k₂ d hold₁ hold₂
  · rw [length_modify]
    exact forall_mem_concat h.coordinator_lt hlt
  · refine forall_mem_concat (fun op hop hatt => ?_) fun _ => update_self _ _ _
    have hkey := h.attached op hop hatt
    by_cases heq : op.key = k
    · rw [heq] at hkey
      rw [heq, update_self, hk _ hkey]
    · rwa [update_of_ne heq]
  · exact forall_mem_concat h.inside fun _ => rfl
  · intro d p hp
    obtain ⟨o, ho, rfl⟩ := hget d p hp
    rw [countP_append, h.refs d o ho]
    by_cases hcd : c = d <;> simp [refers, begun, hcd]
  · intro d p hp
    obtain ⟨o, ho, rfl⟩ := hget d p hp
    rw [countP_append, h.users d o ho]
    split_ifs <;> rfl
  · intro d p hp
    obtain ⟨o, ho, rfl⟩ := hget d p hp
    rw [countP_append, apply_ite Coordinator.token, ite_self]
    exact h.tokens d o ho
  · intro k' d p hk' hp
    obtain ⟨o, ho, rfl⟩ := hget d p hp
    split_ifs with hcd
    · exact decide_eq_false fun hidle => Nat.succ_ne_zero _ hidle.1
    · rcases update_eq_some hk' with ⟨-, rfl⟩ | ⟨-, hold⟩
      · exact absurd rfl hcd
      · exact h.kept k' d o hold ho

theorem Counts.acquire_old {k : K} {c : ℕ} (hk : items k = some c) :
    Counts items (cs.modify c fun o => { o with externalRef := o.externalRef + 1 })
      (ops ++ [begun k c]) := by
  have hacquire := h.acquire (h.items_lt k c hk)
    (fun k' hk' => h.items_injective k' k c hk' hk) fun d hd => mem_unique hd hk
  rwa [← hk, update_eq_self] at hacquire

omit [DecidableEq K] in
/-- Nobody has anything to do with a new coordinator. -/
theorem Counts.extend : Counts items (cs ++ [.new]) ops := by
  have hnone : ∀ b : Op K → Bool,
      ops.countP (fun op => b op && decide (op.coordinator = cs.length)) = 0 := by
    intro b
    refine countP_eq_zero.mpr fun op hop hcon => ?_
    have := of_decide_eq_true (Bool.and_eq_true_iff.mp hcon).2
    exact absurd (h.coordinator_lt op hop) (this ▸ lt_irrefl _)
  have hlen : cs.length < (cs ++ [Coordinator.new]).length := by simp
  refine ⟨fun k c hk => (h.items_lt k c hk).trans hlen, h.items_injective,
    fun op hop => (h.coordinator_lt op hop).trans hlen, h.attached, h.inside,
    forall_getElem?_concat h.refs (hnone referring),
    forall_getElem?_concat h.users (hnone fun op => op.token.enlisted),
    forall_getElem?_concat h.tokens (congrArg (· + 1) (hnone fun op => op.token.has)),
    fun k d p hk hp => ?_⟩
  · rcases getElem?_concat hp with hold | ⟨rfl, rfl⟩
    · exact h.kept k d p hk hold
    · exact absurd (h.items_lt k _ hk) (lt_irrefl _)

theorem Counts.acquire_new {k : K} (hk : items k = none) :
    Counts (update items k (some cs.length))
      (cs ++ [{ Coordinator.new with externalRef := 1 }])
      (ops ++ [begun k cs.length]) := by
  have hacquire := h.extend.acquire (k := k) (c := cs.length) (by simp)
    (fun k' hk' => absurd (h.items_lt k' _ hk') (lt_irrefl _))
    fun d hd => (nomatch hk.symm.trans hd)
  have hmodify : ∀ f, (cs ++ [Coordinator.new]).modify cs.length f = cs ++ [f .new] := by
    simp [modify_eq_set_getElem?]
  rwa [hmodify] at hacquire

end

end Registry

end Counts

/-! ### Flights -/

section Flights

variable {cs cs' : List Coordinator} {flights : List (Option ρ)} {ops ops' : List (Op K)} {i : ℕ}
  {op op' : Op K} {o o' : Coordinator}

theorem Flights.same (h : Flights cs flights ops)
    (hcs : ∀ (c : ℕ) (p : Coordinator) (f : ℕ), cs'[c]? = some p → p.flight = some f →
      ∃ q, cs[c]? = some q ∧ q.flight = some f)
    (hops : ∀ op ∈ ops, ∃ op' ∈ ops', op'.coordinator = op.coordinator ∧ op'.leads = op.leads) :
    Flights cs' flights ops' where
  unpublished c p f hp hf := by
    obtain ⟨q, hq, hf⟩ := hcs c p f hp hf
    exact h.unpublished c q f hq hf
  injective c d p p' f hp hp' hf hf' := by
    obtain ⟨q, hq, hf⟩ := hcs c p f hp hf
    obtain ⟨q', hq', hf'⟩ := hcs d p' f hp' hf'
    exact h.injective c d q q' f hq hq' hf hf'
  led c p f hp hf := by
    obtain ⟨q, hq, hf⟩ := hcs c p f hp hf
    obtain ⟨op, hop, hc, hleads⟩ := h.led c q f hq hf
    obtain ⟨op', hop', hc', hleads'⟩ := hops op hop
    exact ⟨op', hop', hc'.trans hc, hleads'.trans hleads⟩

section

variable (h : Flights cs flights ops) (hi : ops[i]? = some op)
include h hi

theorem Flights.change (ho : cs[op.coordinator]? = some o) (hc : op'.coordinator = op.coordinator)
    (hleads : op'.leads = op.leads) (hflight : o'.flight = o.flight) :
    Flights (cs.set op.coordinator o') flights (ops.set i op') := by
  refine h.same (fun c p f hp hf => ?_) fun op'' hop'' => ?_
  · rcases getElem?_set_cases hp with ⟨rfl, rfl⟩ | ⟨-, hold⟩
    · exact ⟨o, ho, hflight.symm.trans hf⟩
    · exact ⟨p, hold, hf⟩
  · by_cases heq : op'' = op
    · subst heq
      refine ⟨op', ?_, hc, hleads⟩
      exact mem_of_getElem? (getElem?_set_of_some hi)
    · exact ⟨op'', mem_set_of_ne hi hop'' heq, rfl, rfl⟩

/-- **An operation begins a flight.** -/
theorem Flights.join (o : Coordinator) :
    Flights (cs.set op.coordinator { o with flight := some flights.length }) (flights ++ [none])
      (ops.set i { op with leads := some flights.length }) := by
  have hlt : ∀ (c : ℕ) (p : Coordinator) (f : ℕ), cs[c]? = some p → p.flight = some f →
      f < flights.length := fun c p f hp hf =>
    (List.getElem?_eq_some_iff.mp (h.unpublished c p f hp hf)).1
  constructor
  · intro c p f hp hf
    rcases getElem?_set_cases hp with ⟨-, rfl⟩ | ⟨-, hold⟩
    · cases hf
      exact getElem?_concat_length
    · rw [getElem?_append_left (hlt c p f hold hf)]
      exact h.unpublished c p f hold hf
  · intro c d p q f hp hq hf hf'
    rcases getElem?_set_cases hp with ⟨rfl, rfl⟩ | ⟨-, hold⟩
    · cases hf
      rcases getElem?_set_cases hq with ⟨rfl, -⟩ | ⟨-, hold'⟩
      · rfl
      · exact absurd (hlt d q _ hold' hf') (lt_irrefl _)
    · rcases getElem?_set_cases hq with ⟨-, rfl⟩ | ⟨-, hold'⟩
      · cases hf'
        exact absurd (hlt c p _ hold hf) (lt_irrefl _)
      · exact h.injective c d p q f hold hold' hf hf'
  · intro c p f hp hf
    rcases getElem?_set_cases hp with ⟨rfl, rfl⟩ | ⟨hne, hold⟩
    · refine ⟨_, mem_of_getElem? (getElem?_set_self ?_), rfl, hf⟩
      exact (List.getElem?_eq_some_iff.mp hi).1
    · obtain ⟨op'', hop'', hc, hleads⟩ := h.led c p f hold hf
      refine ⟨op'', mem_set_of_ne hi hop'' ?_, hc, hleads⟩
      rintro rfl
      exact hne hc.symm

/-- **An operation publishes its flight**, if it is still the one of the coordinator. -/
theorem Flights.publish {f : ℕ} {result : ρ} (ho : cs[op.coordinator]? = some o)
    (hf : o.flight = some f) :
    Flights (cs.set op.coordinator { o with flight := none }) (flights.set f (some result))
      (ops.set i { op with leads := none }) := by
  have hother : ∀ (c : ℕ) (p : Coordinator) (g : ℕ),
      (cs.set op.coordinator { o with flight := none })[c]? = some p → p.flight = some g →
      c ≠ op.coordinator ∧ cs[c]? = some p ∧ f ≠ g := by
    intro c p g hp hg
    rcases getElem?_set_cases hp with ⟨-, rfl⟩ | ⟨hne, hold⟩
    · exact nomatch hg
    · refine ⟨hne, hold, ?_⟩
      rintro rfl
      exact hne (h.injective c op.coordinator p o f hold ho hg hf)
  constructor
  · intro c p g hp hg
    obtain ⟨-, hold, hfg⟩ := hother c p g hp hg
    rw [getElem?_set_ne hfg]
    exact h.unpublished c p g hold hg
  · intro c d p q g hp hq hg hg'
    obtain ⟨-, hold, -⟩ := hother c p g hp hg
    obtain ⟨-, hold', -⟩ := hother d q g hq hg'
    exact h.injective c d p q g hold hold' hg hg'
  · intro c p g hp hg
    obtain ⟨hne, hold, -⟩ := hother c p g hp hg
    obtain ⟨op'', hop'', hc, hleads⟩ := h.led c p g hold hg
    refine ⟨op'', mem_set_of_ne hi hop'' ?_, hc, hleads⟩
    rintro rfl
    exact hne hc.symm

/-- An operation that leads no flight of its coordinator forgets the one it led. -/
theorem Flights.forget {f : ℕ} (hleads : op.leads = some f)
    (hnot : ∀ o : Coordinator, cs[op.coordinator]? = some o → o.flight ≠ some f) :
    Flights cs flights (ops.set i { op with leads := none }) where
  unpublished := h.unpublished
  injective := h.injective
  led c p g hp hg := by
    obtain ⟨op'', hop'', hc, hleads''⟩ := h.led c p g hp hg
    refine ⟨op'', mem_set_of_ne hi hop'' ?_, hc, hleads''⟩
    rintro rfl
    obtain rfl := mem_unique hleads hleads''
    subst hc
    exact hnot p hp hg

end

end Flights

/-! ### Steps -/

/-- **The invariant.** -/
structure Inv (y : Sys K ρ) : Prop where
  counts : Counts y.registry.items y.registry.coordinators y.ops
  flights : Flights y.registry.coordinators y.registry.flights y.ops

theorem inv_new : Inv (.new : Sys K ρ) where
  counts := {
    items_lt := nofun
    items_injective := nofun
    coordinator_lt := nofun
    attached := nofun
    inside := nofun
    refs := nofun
    users := nofun
    tokens := nofun
    kept := nofun }
  flights := {
    unpublished := nofun
    injective := nofun
    led := nofun }

section Steps

variable {y : Sys K ρ} {i : ℕ} {op op' : Op K} {o o' : Coordinator}

theorem Inv.change (h : Inv y) (hi : y.ops[i]? = some op) (href : op.referring = true)
    (ho : y.registry.coordinators[op.coordinator]? = some o) {phase : TokenPhase}
    (hext : o'.externalRef = o.externalRef) (hflight : o'.flight = o.flight)
    (husers : o'.tokenUsers + (if op.token.enlisted then 1 else 0) =
      o.tokenUsers + if phase.enlisted then 1 else 0)
    (htoken : (if o'.token then 1 else 0) + (if phase.has then 1 else 0) =
      (if o.token then 1 else 0) + if op.token.has then 1 else 0) :
    Inv ⟨y.registry.update op.coordinator o', y.ops.set i { op with token := phase }⟩ :=
  ⟨h.counts.change hi ho rfl rfl href husers htoken href hext,
    h.flights.change hi ho rfl rfl hflight⟩

theorem Counts.leads (h : Counts y.registry.items y.registry.coordinators y.ops)
    (hi : y.ops[i]? = some op) (href : op.referring = true)
    (ho : y.registry.coordinators[op.coordinator]? = some o) (flight leads : Option ℕ) :
    Counts y.registry.items (y.registry.coordinators.set op.coordinator { o with flight := flight })
      (y.ops.set i { op with leads := leads }) :=
  h.change hi ho rfl rfl href rfl rfl href rfl

theorem set_eq_self {α : Type} {l : List α} {n : ℕ} {a : α} (h : l[n]? = some a) :
    l.set n a = l := by
  obtain ⟨hlt, rfl⟩ := List.getElem?_eq_some_iff.mp h
  exact set_getElem_self hlt

theorem Inv.joinFlight (h : Inv y) (hi : y.ops[i]? = some op) (href : op.referring = true)
    {r : Registry K ρ} {f : ℕ} {leader : Bool}
    (hr : y.registry.joinFlight op.coordinator = some (r, f, leader)) :
    Inv ⟨r, y.ops.set i (if leader then { op with leads := some f } else op)⟩ := by
  obtain ⟨o, ho, hr⟩ := map_eq_some_iff.mp hr
  cases hflight : o.flight with
  | some g =>
    rw [hflight] at hr
    obtain ⟨rfl, ⟨⟩⟩ := Prod.mk.inj hr
    rw [if_neg Bool.false_ne_true, set_eq_self hi]
    exact h
  | none =>
    rw [hflight] at hr
    obtain ⟨rfl, ⟨⟩⟩ := Prod.mk.inj hr
    exact ⟨h.counts.leads hi href ho _ _, h.flights.join hi o⟩

theorem Inv.publishFlight (h : Inv y) (hi : y.ops[i]? = some op) (href : op.referring = true)
    {r : Registry K ρ} {f : ℕ} {result : ρ} (hleads : op.leads = some f)
    (hr : y.registry.publishFlight op.coordinator f result = some r) :
    Inv ⟨r, y.ops.set i { op with leads := none }⟩ := by
  obtain ⟨o, ho, rfl⟩ := map_eq_some_iff.mp hr
  split_ifs with hcur
  · exact ⟨h.counts.leads hi href ho _ _, h.flights.publish hi ho hcur.1⟩
  · have hcounts := h.counts.leads hi href ho o.flight none
    rw [set_eq_self ho] at hcounts
    refine ⟨hcounts, h.flights.forget hi hleads fun p hp hf => hcur ?_⟩
    -- the flight of the coordinator is not published
    obtain rfl := mem_unique ho hp
    refine ⟨hf, ?_⟩
    rw [Registry.published, h.flights.unpublished _ o f ho hf]
    rfl

section Act

variable [DecidableEq K]

theorem Inv.release (h : Inv y) (hi : y.ops[i]? = some op) (href : op.referring = true)
    (htoken : op.token = .free ∨ op.token = .held) {r : Registry K ρ}
    (hr : y.registry.release op.key op.coordinator = some r) :
    Inv ⟨r, y.ops.set i op.released⟩ := by
  have hkey := h.counts.attached op (mem_of_getElem? hi) (.inl href)
  rw [Registry.release, if_neg (not_not.mpr hkey)] at hr
  obtain ⟨o, ho, hr⟩ := bind_eq_some_iff.mp hr
  obtain ⟨-, ⟨⟩⟩ := ite_none_right_eq_some.mp hr
  exact ⟨h.counts.release hi href htoken ho rfl, h.flights.change hi ho rfl rfl rfl⟩

omit [DecidableEq K] in
theorem of_section {p : Prop} [Decidable p] {o : Option (Registry K ρ)} {r : Registry K ρ}
    (hs : (if p then o.map fun r' => (r', op) else none) = some (r, op')) :
    p ∧ o = some r ∧ op = op' := by
  obtain ⟨hp, hs⟩ := ite_none_right_eq_some.mp hs
  obtain ⟨r', hr', ⟨⟩⟩ := map_eq_some_iff.mp hs
  exact ⟨hp, hr', rfl⟩

/-- **Every section keeps the invariant.** -/
theorem Inv.act (h : Inv y) (hi : y.ops[i]? = some op) (href : op.referring = true)
    {a : Action ρ} {r : Registry K ρ} (hs : op.act y.registry a = some (r, op')) :
    Inv ⟨r, y.ops.set i op'⟩ := by
  cases a with
  | enlist =>
    obtain ⟨htoken, hr, rfl⟩ := of_section hs
    obtain ⟨o, ho, rfl⟩ := map_eq_some_iff.mp hr
    exact h.change hi href ho rfl rfl (by rw [htoken]; rfl) (by rw [htoken]; rfl)
  | takeToken =>
    obtain ⟨htoken, hr, rfl⟩ := of_section hs
    obtain ⟨o, ho, hsec⟩ := bind_eq_some_iff.mp hr
    obtain ⟨hfull, ⟨⟩⟩ := ite_none_right_eq_some.mp hsec
    exact h.change hi href ho rfl rfl (by rw [htoken]; rfl) (by rw [htoken, hfull]; rfl)
  | cancel | delist =>
    obtain ⟨htoken, hr, rfl⟩ := of_section hs
    obtain ⟨o, ho, hsec⟩ := bind_eq_some_iff.mp hr
    obtain ⟨hpos, ⟨⟩⟩ := ite_none_right_eq_some.mp hsec
    refine h.change hi href ho rfl rfl ?_ (by rw [htoken]; rfl)
    rw [htoken]
    exact Nat.sub_add_cancel hpos
  | putToken =>
    obtain ⟨htoken, hr, rfl⟩ := of_section hs
    obtain ⟨o, ho, hsec⟩ := bind_eq_some_iff.mp hr
    obtain ⟨hempty, ⟨⟩⟩ := ite_none_left_eq_some.mp hsec
    refine h.change hi href ho rfl rfl (by rw [htoken]; rfl) ?_
    rw [htoken, Bool.eq_false_iff.mpr hempty]
    rfl
  | joinFlight =>
    obtain ⟨⟨r', f, leader⟩, hr', ⟨⟩⟩ := map_eq_some_iff.mp hs
    exact h.joinFlight hi href hr'
  | publishFlight result =>
    obtain ⟨f, hleads, hs⟩ := bind_eq_some_iff.mp hs
    obtain ⟨r', hr', ⟨⟩⟩ := map_eq_some_iff.mp hs
    exact h.publishFlight hi href hleads hr'
  | release =>
    obtain ⟨htoken, hr, rfl⟩ := of_section hs
    exact h.release hi href htoken hr

theorem Inv.acquire (h : Inv y) (k : K) :
    Inv ⟨(y.registry.acquire k).1, y.ops ++ [.begun k (y.registry.acquire k).2]⟩ := by
  have hops : ∀ (c : ℕ), ∀ op ∈ y.ops, ∃ op' ∈ y.ops ++ [begun k c],
      op'.coordinator = op.coordinator ∧ op'.leads = op.leads := fun c op hop =>
    ⟨op, mem_append_left _ hop, rfl, rfl⟩
  rw [Registry.acquire]
  cases hk : y.registry.items k with
  | some c =>
    refine ⟨h.counts.acquire_old hk, h.flights.same (fun d p f hp hf => ?_) (hops c)⟩
    rw [getElem?_modify] at hp
    obtain ⟨q, hq, rfl⟩ := map_eq_some_iff.mp hp
    refine ⟨q, hq, ?_⟩
    split_ifs at hf
    · exact hf
    · exact hf
  | none =>
    refine ⟨h.counts.acquire_new hk, h.flights.same (fun d p f hp hf => ?_) (hops _)⟩
    rcases mem_append.mp (mem_of_getElem? hp) with - | hnew
    · rw [getElem?_append] at hp
      split_ifs at hp
      · exact ⟨p, hp, hf⟩
      · rw [mem_singleton.mp (mem_of_getElem? hp)] at hf
        exact nomatch hf
    · rw [mem_singleton.mp hnew] at hf
      exact nomatch hf

theorem Inv.step {y' : Sys K ρ} {l : Label K ρ} (h : Inv y) (hs : step y l = some y') : Inv y' := by
  cases l with
  | acquire k =>
    cases hs
    exact h.acquire k
  | act i a =>
    obtain ⟨op, hi, hs⟩ := bind_eq_some_iff.mp hs
    obtain ⟨href, hs⟩ := ite_none_right_eq_some.mp hs
    obtain ⟨⟨r, op'⟩, hact, rfl⟩ := map_eq_some_iff.mp hs
    exact h.act hi href hact

/-! ### Runs -/

/-- An operation that has released its coordinator has left nothing behind. -/
def Tidy (y : Sys K ρ) : Prop :=
  ∀ op ∈ y.ops, op.referring = false → op.token = .free ∧ op.leads = none

/-- Only `release` ends the reference. -/
theorem referring_of_act {r r' : Registry K ρ} {a : Action ρ} (hs : op.act r a = some (r', op'))
    (href : op.referring = true) : op'.referring = true ∨ (a = .release ∧ op' = op.released) := by
  cases a with
  | joinFlight =>
    obtain ⟨⟨r₁, f, leader⟩, -, ⟨⟩⟩ := map_eq_some_iff.mp hs
    cases leader with
    | true | false => exact .inl href
  | publishFlight result =>
    obtain ⟨f, -, hs⟩ := bind_eq_some_iff.mp hs
    obtain ⟨r₁, -, ⟨⟩⟩ := map_eq_some_iff.mp hs
    exact .inl href
  | release =>
    obtain ⟨-, -, rfl⟩ := of_section hs
    exact .inr ⟨rfl, rfl⟩
  | _ =>
    obtain ⟨-, -, rfl⟩ := of_section hs
    exact .inl href

theorem Tidy.step {y' : Sys K ρ} {l : Label K ρ} (h : Tidy y) (hs : step y l = some y')
    (hclean : abandons ⟨y, l, y'⟩ = false) : Tidy y' := by
  cases l with
  | acquire k =>
    cases hs
    exact forall_mem_concat h nofun
  | act i a =>
    obtain ⟨op, hi, hs⟩ := bind_eq_some_iff.mp hs
    obtain ⟨href, hs⟩ := ite_none_right_eq_some.mp hs
    obtain ⟨⟨r, op'⟩, hact, rfl⟩ := map_eq_some_iff.mp hs
    refine forall_mem_set h fun hnot => ?_
    rcases referring_of_act hact href with href' | ⟨rfl, rfl⟩
    · exact nomatch hnot.symm.trans href'
    · change (y.ops[i]?).any _ = false at hclean
      rw [hi, Option.any_some, decide_eq_false_iff_not, not_or, not_not, not_not] at hclean
      exact hclean

end Act

end Steps

/-- A coordinator in the registry has an operation that refers to it, has its token or leads its
flight. -/
theorem Inv.exists_op {y : Sys K ρ} (h : Inv y) {k : K} {c : ℕ}
    (hk : y.registry.items k = some c) : ∃ op ∈ y.ops, op.coordinator = c ∧
      (op.referring = true ∨ op.token = .held ∨ op.leads ≠ none) := by
  obtain ⟨o, ho⟩ : ∃ o, y.registry.coordinators[c]? = some o :=
    ⟨_, getElem?_eq_getElem (h.counts.items_lt k c hk)⟩
  have hidle := of_decide_eq_false (h.counts.kept k c o hk ho)
  by_cases hext : o.externalRef = 0
  · by_cases husers : o.tokenUsers = 0
    · cases hflight : o.flight with
      | none => exact absurd ⟨hext, husers, hflight⟩ hidle
      | some f =>
        obtain ⟨op, hop, hc, hleads⟩ := h.flights.led c o f ho hflight
        exact ⟨op, hop, hc, .inr (.inr (hleads ▸ some_ne_none f))⟩
    · have hpos : 0 < y.ops.countP (enlisted c) := by
        rw [h.counts.users c o ho]
        exact Nat.pos_of_ne_zero husers
      obtain ⟨op, hop, henlisted⟩ := countP_pos_iff.mp hpos
      obtain ⟨htoken, hc⟩ := Bool.and_eq_true_iff.mp henlisted
      refine ⟨op, hop, of_decide_eq_true hc, ?_⟩
      cases hphase : op.token with
      | waiting => exact .inl (h.counts.inside op hop (.inl hphase))
      | held => exact .inr (.inl rfl)
      | free | returning =>
        rw [hphase] at htoken
        exact nomatch htoken
  · have hpos : 0 < y.ops.countP (refers c) := by
      rw [h.counts.refs c o ho]
      exact Nat.pos_of_ne_zero hext
    obtain ⟨op, hop, hrefers⟩ := countP_pos_iff.mp hpos
    obtain ⟨href, hc⟩ := Bool.and_eq_true_iff.mp hrefers
    exact ⟨op, hop, of_decide_eq_true hc, .inl href⟩

/-- **No two operations have the token of a key.** -/
theorem Inv.unique {y : Sys K ρ} (h : Inv y) {i j : ℕ} {op op' : Op K} (hi : y.ops[i]? = some op)
    (hj : y.ops[j]? = some op') (hkey : op.key = op'.key) (hop : op.token.has = true)
    (hop' : op'.token.has = true) : i = j := by
  have hatt : ∀ p ∈ y.ops, p.token.has = true → y.registry.items p.key = some p.coordinator := by
    intro p hp hhas
    cases hphase : p.token with
    | held => exact h.counts.attached p hp (.inr hphase)
    | returning => exact h.counts.attached p hp (.inl (h.counts.inside p hp (.inr hphase)))
    | free | waiting =>
      rw [hphase] at hhas
      exact nomatch hhas
  have hmem := mem_of_getElem? hi
  have hmem' := mem_of_getElem? hj
  have hc : op'.coordinator = op.coordinator := by
    have h1 := hatt op hmem hop
    have h2 := hatt op' hmem' hop'
    rw [← hkey, h1] at h2
    exact (Option.some.inj h2).symm
  obtain ⟨o, ho⟩ := h.counts.exists_coordinator hmem
  have hcount := h.counts.tokens op.coordinator o ho
  by_contra hne
  -- without the first, the second is still counted
  have hset := countP_set_add (has op.coordinator) hi { op with token := .free }
  have hpos : 0 < (y.ops.set i { op with token := .free }).countP (has op.coordinator) := by
    refine countP_pos_iff.mpr
      ⟨op', mem_of_getElem? ((getElem?_set_ne hne).trans hj), ?_⟩
    rw [has, hop', hc, decide_eq_true rfl]
    rfl
  have hself : has op.coordinator op = true := by
    rw [has, hop, decide_eq_true rfl]
    rfl
  rw [hself, if_pos rfl] at hset
  change _ + 1 = _ + 0 at hset
  omega

/-- **Coordination excludes.** No two operations have the token of a key, also when one of them has
left it behind; no counter underflows; and a coordinator in the registry has an operation that
refers to it, unless one has left its token or its flight behind. -/
theorem coordination_exclusive [DecidableEq K] {h : List (Ev K ρ)} {y : Sys K ρ}
    (hr : Run step .new h y) :
    (∀ (i j : ℕ) (op op' : Op K), y.ops[i]? = some op → y.ops[j]? = some op' → op.key = op'.key →
      op.token.has = true → op'.token.has = true → i = j) ∧
    (∀ op ∈ y.ops, op.referring = true → (y.registry.release op.key op.coordinator).isSome = true ∧
      (op.token.enlisted = true → (y.registry.delist op.coordinator).isSome = true)) ∧
    ∀ k c, y.registry.items k = some c →
      (∃ op ∈ y.ops, op.coordinator = c ∧
        (op.referring = true ∨ op.token = .held ∨ op.leads ≠ none)) ∧
      ((∀ ev ∈ h, abandons ev = false) →
        ∃ op ∈ y.ops, op.coordinator = c ∧ op.referring = true) := by
  have hinv : Inv y := hr.invariant inv_new fun _ _ _ hI hs => hI.step hs
  refine ⟨fun i j op op' => hinv.unique, fun op hop href => ⟨?_, fun henlisted => ?_⟩,
    fun k c hk => ⟨hinv.exists_op hk, fun hclean => ?_⟩⟩
  · obtain ⟨o, ho⟩ := hinv.counts.exists_coordinator hop
    rw [Registry.release, if_neg (not_not.mpr (hinv.counts.attached op hop (.inl href))), ho,
      Option.bind_some, if_pos (hinv.counts.not_idle hop href ho)]
    rfl
  · obtain ⟨o, ho⟩ := hinv.counts.exists_coordinator hop
    have hpos : 0 < o.tokenUsers := by
      rw [← hinv.counts.users _ o ho]
      refine countP_pos_iff.mpr ⟨op, hop, ?_⟩
      rw [enlisted, henlisted, decide_eq_true rfl]
      rfl
    rw [Registry.delist, ho, Option.bind_some, if_pos hpos]
    rfl
  · have htidy : Tidy y := hr.invariant_of_mem hclean nofun fun _ _ _ ht hs hc => ht.step hs hc
    obtain ⟨op, hop, hc, hsome⟩ := hinv.exists_op hk
    refine ⟨op, hop, hc, ?_⟩
    by_contra href
    obtain ⟨hfree, hnone⟩ := htidy op hop (Bool.eq_false_iff.mpr href)
    rcases hsome with h1 | h1 | h1
    · exact href h1
    · exact nomatch hfree.symm.trans h1
    · exact h1 hnone

/-- An operation takes the token of a key and lets go, and another one comes, with a coordinator
that is new. -/
theorem coordination_exclusive_twice :
    ∃ h y, Run (step (K := Unit) (ρ := Unit)) .new h y ∧ y.registry.items () = some 1 ∧
      ∃ op ∈ y.ops, op.coordinator = 1 ∧ op.referring = true := by
  obtain ⟨h, y, hr, hitem, hclean⟩ := exists_run (step (K := Unit) (ρ := Unit)) .new
    [.acquire (), .act 0 .enlist, .act 0 .takeToken, .act 0 .delist, .act 0 .putToken,
      .act 0 .release, .acquire (), .act 1 .enlist]
    (fun h y => y.registry.items () = some 1 ∧ ∀ ev ∈ h, abandons ev = false)
    (by decide +kernel)
  exact ⟨h, y, hr, hitem, ((coordination_exclusive hr).2.2 () 1 hitem).2 hclean⟩

/-- **A coordinator stays in the registry with nobody who refers to it.** `GetOrLoad` acquires it,
leads a flight and holds the token when its loader panics; only the release is deferred. -/
theorem abandoned_coordinator_stays :
    ∃ h y, Run (step (K := Unit) (ρ := Unit)) .new h y ∧ y.registry.items () = some 0 ∧
      ∀ op ∈ y.ops, op.referring = false := by
  exact exists_run _ _
    [.acquire (), .act 0 .joinFlight, .act 0 .enlist, .act 0 .takeToken, .act 0 .release] _
    (by decide +kernel)

end Bluetape.RedisValue.Coordination
