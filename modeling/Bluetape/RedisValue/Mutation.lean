import Bluetape.RedisValue.Tiered

/-!
# What a mutation leaves in the local tier

`Set` and `Delete` of a `TieredCache` change Redis first and the local tier afterwards, and
whatever goes wrong in between, they are meant not to leave a local value behind that the
mutation has superseded: the value is taken out of the local tier, or replaced, or the whole
tier is blocked and the error says so.

There are two ways around it (`Skips`). If the clock says, after the write, that nothing is left of
the time to live that Redis was given, `Set` returns without touching the local tier
(`stale_after_slow_set`); and if the context ends after it was looked at once more, but before the
tier is filled, `populateLocalHeld` returns the error of the context and leaves the tier as it is.
In all other executions of `Set` and `Delete`, from any state and among any operations on other
keys, the local tier holds nothing for the key afterwards, or the value that was written
(`tier_after_mutation`).

What other operations may do meanwhile is `Rely`, and that actions on other keys, short of a repair,
do no more than that is `rely_of_exec`.
-/

namespace Bluetape.RedisValue

open Function Conc.Protocol

open Conc (Exec)

variable {K V : Type}

/-! ### What is seen of an execution -/

/-- What a mutation has seen. -/
structure Seen where
  issued : Bool
  written : Bool
  readings : List ℤ
  /-- Whether the context had ended, each time it was looked at after the command. -/
  looks : List Bool
  deriving DecidableEq, Repr

/-- Nothing yet. -/
def Seen.none : Seen := ⟨false, false, [], []⟩

/-- An action is seen. -/
def Seen.see (w : Seen) : (Σ a : Act K V, Ans a) → Seen
  | ⟨.now, t⟩ => { w with readings := w.readings ++ [t] }
  | ⟨.ctxErr, ended⟩ => { w with looks := if w.issued then w.looks ++ [ended] else w.looks }
  | ⟨.remoteSet _ _ _, e⟩ => { w with issued := true, written := e.isNone }
  | ⟨.remoteDelete _, _⟩ => { w with issued := true }
  | _ => w

/-- What is seen of an execution that has done these actions. -/
def seen (tr : List (Σ a : Act K V, Ans a)) : Seen := tr.foldl Seen.see .none

/-- A `Set` or a `Delete`. -/
inductive Mutation (K V : Type) where
  | set (k : K) (v : V) (ttl : ℤ)
  | delete (k : K)

namespace Mutation

/-- The key. -/
def key : Mutation K V → K
  | .set k _ _ => k
  | .delete k => k

/-- What is written, if anything. -/
def value : Mutation K V → Option V
  | .set _ v _ => some v
  | .delete _ => none

/-- The time to live. -/
def ttl : Mutation K V → ℤ
  | .set _ _ ttl => ttl
  | .delete _ => 0

/-- The program of a mutation. -/
def program (cfg : Config K) : Mutation K V → Program K V (Result K V)
  | .set k v ttl => RedisValue.set cfg k v ttl
  | .delete k => RedisValue.delete cfg k

end Mutation

/-- **The local tier is left as it was**: the clock says that the value has expired in Redis
already; or the context, which had not ended right after the write, ends before the local tier
is filled. -/
def Skips (cfg : Config K) (m : Mutation K V) (w : Seen) : Prop :=
  w.looks = [false, true] ∨
    ∃ t₀ t₁, w.readings = [t₀, t₁] ∧ knownWriteLocalTTL cfg.localTTL m.ttl t₀ t₁ = none

/-- The tier was blocked. -/
def Result.isBlocked : Result K V → Bool
  | .error e => e.isBlocked
  | .ok _ => false

/-! ### Among operations on other keys -/

/-- **What operations on other keys may do meanwhile**: whatever it is, the value of the key
stays or expires, and the local state stays in its phase and generation or is blocked. -/
structure Rely (k : K) (s s' : Shared K V) : Prop where
  tier_eq : s'.tier k = s.tier k ∨ s'.tier k = none
  state_eq : (s'.state.phase = s.state.phase ∧ s'.state.generation = s.state.generation) ∨
    s'.state.phase = .blocked

theorem Rely.refl (k : K) (s : Shared K V) : Rely k s s := ⟨.inl rfl, .inl ⟨rfl, rfl⟩⟩

/-- An action that leaves the key alone. -/
def Act.foreign (k : K) : Act K V → Prop
  | .tierSet k' _ _ | .tierDelete k' => k' ≠ k
  | .tierClear | .beginRepair _ _ | .finishRepair _ _ => False
  | _ => True

variable [DecidableEq K] {s s' : Shared K V}

/-- **Actions on other keys do no more than that.** -/
theorem rely_of_exec {now : ℕ} {k : K} {a : Act K V} {c : Choice K V} {x : Ans a} (ha : a.foreign k)
    (h : exec now s a c = some (x, s')) : Rely k s s' := by
  cases did_of_exec h with
  | begun | beginEnded | beginMoved | healed | notHealed | tierClear | tierClearFailed =>
    exact nomatch ha
  | tierSet | tierDelete =>
    exact ⟨.inl (update_of_ne (Ne.symm ha) _ _), .inl ⟨rfl, rfl⟩⟩
  | tierSetFailed _ _ _ applied | tierDeleteFailed _ applied =>
    refine ⟨.inl ?_, .inl ⟨rfl, rfl⟩⟩
    cases applied with
    | true => exact update_of_ne (Ne.symm ha) _ _
    | false => rfl
  | drainEnded lease =>
    refine ⟨.inl rfl, ?_⟩
    unfold LocalState.abandonRepair
    split_ifs
    · exact .inr rfl
    · exact .inl ⟨rfl, rfl⟩
  | blocked hphase => exact ⟨.inl rfl, .inr rfl⟩
  | _ => exact ⟨.inl rfl, .inl ⟨rfl, rfl⟩⟩

/-! ### What a mutation knows -/

/-- What is known of the local tier. -/
inductive Known where
  | unknown
  | gone
  | fresh
  deriving DecidableEq, Repr

/-- What a mutation knows: what is seen of it, the generation under which it was admitted,
and the local value of its key. -/
structure Track where
  seen : Seen
  ticket : Option ℕ
  known : Known

/-- The local state is still in the generation, or blocked. -/
def Admitted (g : ℕ) (state : LocalState) : Prop :=
  (state.phase = .healthy ∧ state.generation = g) ∨ state.phase = .blocked

/-- What is known is so. -/
structure Knows (m : Mutation K V) (s : Shared K V) (g : Track) : Prop where
  ticket_ok : ∀ γ, g.ticket = some γ → Admitted γ s.state
  gone_ok : g.known = .gone → s.tier m.key = none
  fresh_ok : g.known = .fresh →
    s.tier m.key = none ∨ ∃ v, m.value = some v ∧ s.tier m.key = some ⟨v, none⟩

omit [DecidableEq K] in
theorem Knows.rely {m : Mutation K V} {g : Track} (h : Knows m s g) (hrely : Rely m.key s s') :
    Knows m s' g where
  ticket_ok := fun γ hγ => by
    rcases hrely.state_eq with ⟨hphase, hgen⟩ | hblocked
    · rw [Admitted, hphase, hgen]
      exact h.ticket_ok γ hγ
    · exact .inr hblocked
  gone_ok := fun hg => by
    rcases hrely.tier_eq with heq | hnone
    · rw [heq, h.gone_ok hg]
    · exact hnone
  fresh_ok := fun hf => by
    rcases hrely.tier_eq with heq | hnone
    · rw [heq]
      exact h.fresh_ok hf
    · exact .inl hnone

/-- What an action adds. -/
def Track.after (g : Track) (a : Act K V) (x : Ans a) : Track where
  seen := g.seen.see ⟨a, x⟩
  ticket :=
    match a, x with
    | .issueTicket γ, true => some γ
    | _, _ => g.ticket
  known :=
    match a, x with
    | .tierSet _ _ _, true => .fresh
    | .tierSet _ _ _, false => .unknown
    | .tierDelete _, true => .gone
    | .tierDelete _, false => .unknown
    | _, _ => g.known

/-- The answers there can be. -/
def Track.Possible (g : Track) : (a : Act K V) → Ans a → Prop
  | .classify γ, d => g.ticket = some γ → d ≠ .newerGeneration
  | .tryAcquireHealthy, l => ∀ γ, g.ticket = some γ → l = .lease γ ∨ l = .blocked
  | _, _ => True

/-- **What a mutation does**: of the local tier only its own key, and nothing else than its
value. -/
def mutating (m : Mutation K V) : Conc.Protocol (Act K V) Ans (Shared K V) Track where
  allowed := fun _ a =>
    match a with
    | .tierSet k item _ => k = m.key ∧ m.value = some item.value ∧ item.fetchedAt = none
    | .tierDelete k => k = m.key
    | .tierClear | .beginRepair _ _ | .awaitDrained _ | .finishRepair _ _ => False
    | _ => True
  move := fun _ _ g a x g' => g.Possible a x ∧ g' = g.after a x

omit [DecidableEq K] in
theorem Admitted.classify {γ : ℕ} {state : LocalState} (h : Admitted γ state) :
    state.classify γ ≠ .newerGeneration := by
  unfold LocalState.classify
  rcases h with ⟨hphase, hgen⟩ | hblocked
  · rw [if_pos ⟨hphase, hgen⟩]
    decide
  · simp [hblocked]

/-- **An action of a mutation keeps what it knows true.** -/
theorem Knows.act {m : Mutation K V} {now : ℕ} {g : Track} {a : Act K V} {c : Choice K V}
    {x : Ans a} (h : Knows m s g) (ha : (mutating m).allowed g a)
    (hexec : exec now s a c = some (x, s')) :
    ∃ g', (mutating m).move now s g a x g' ∧ Knows m s' g' := by
  refine ⟨g.after a x, ⟨?_, rfl⟩, ?_⟩
  · cases did_of_exec hexec with
    | classify γ => exact fun hγ => (h.ticket_ok γ hγ).classify
    | tryLease hphase =>
      intro γ hγ
      rcases h.ticket_ok γ hγ with ⟨-, hgen⟩ | hblocked
      · exact .inl (by rw [hgen])
      · rw [hphase] at hblocked
        exact nomatch hblocked
    | tryWait hphase =>
      intro γ hγ
      rcases h.ticket_ok γ hγ with ⟨hhealthy, -⟩ | hblocked
      · rw [hphase] at hhealthy
        exact nomatch hhealthy
      · rw [hphase] at hblocked
        exact nomatch hblocked
    | tryBlocked => exact fun _ _ => .inr rfl
    | _ => trivial
  · cases did_of_exec hexec with
    | begun | beginEnded | beginMoved | healed | notHealed | tierClear | tierClearFailed |
      drained | drainLost | drainEnded => exact nomatch ha
    | issueTicket γ =>
      refine ⟨fun γ' hγ' => ?_, h.gone_ok, h.fresh_ok⟩
      cases hticket : s.state.issueTicket γ with
      | true =>
        rw [hticket] at hγ'
        cases hγ'
        exact .inl (of_decide_eq_true hticket)
      | false =>
        rw [hticket] at hγ'
        exact h.ticket_ok γ' hγ'
    | blocked hphase => exact ⟨fun _ _ => .inr rfl, h.gone_ok, h.fresh_ok⟩
    | tierSet k item ttl =>
      obtain ⟨rfl, hvalue, hset⟩ := ha
      refine ⟨h.ticket_ok, nofun, fun _ => .inr ⟨item.value, hvalue, ?_⟩⟩
      rw [← hset]
      exact update_self _ _ _
    | tierDelete k =>
      obtain rfl : k = m.key := ha
      exact ⟨h.ticket_ok, fun _ => update_self _ _ _, nofun⟩
    | tierSetFailed | tierDeleteFailed =>
      refine ⟨h.ticket_ok, ?_, ?_⟩ <;> rintro ⟨⟩
    | _ => exact ⟨h.ticket_ok, h.gone_ok, h.fresh_ok⟩

/-! ### The parts of a mutation -/

section Parts

variable {m : Mutation K V} {J : Place K V → Track → Prop} {τ : Type} {Q : τ → Track → Prop}
  {g : Track}

/-- It changes neither tier nor generation. -/
def Act.quiet : Act K V → Bool
  | .acquireMaintenance | .release | .block | .waitLocalState | .acquire _ | .releaseRef _ _ |
    .enlist _ | .delist _ | .takeToken _ _ | .putToken _ => true
  | _ => false

omit [DecidableEq K]

theorem wp_act {a : Act K V} {f : Ans a → Program K V τ} (ha : (mutating m).allowed g a)
    (h : ∀ x, g.Possible a x → (mutating m).wp J Q (f x) (g.after a x)) :
    (mutating m).wp J Q (act a >>= f) g := by
  refine wp_call_bind ha fun _ _ x g' hmove => ?_
  rw [hmove.2]
  exact h x hmove.1

theorem wp_quiet {a : Act K V} (ha : a.quiet = true) {f : Ans a → Program K V τ}
    (h : ∀ x, (mutating m).wp J Q (f x) g) : (mutating m).wp J Q (act a >>= f) g := by
  cases a <;> first
    | exact absurd ha Bool.false_ne_true
    | exact wp_act trivial fun x _ => h x

variable {c : ℕ}

theorem wp_releaseToken {Q : Unit → Track → Prop} (h : Q () g) :
    (mutating m).wp J Q (releaseToken c) g :=
  wp_quiet rfl fun _ => wp_quiet (f := pure) rfl fun _ => h

theorem wp_acquireToken {k : K} {Q : Bool → Track → Prop} (h : ∀ taken, Q taken g) :
    (mutating m).wp J Q (acquireToken k c) g := by
  refine wp_quiet rfl fun _ => wp_quiet rfl fun taken => ?_
  split_ifs
  · exact h true
  · exact wp_quiet rfl fun _ => h false

theorem wp_finish {k : K} {held : Bool} {r : Result K V} {Q : Result K V → Track → Prop}
    (h : Q r g) :
    (mutating m).wp J Q (finish k c held r) g := by
  unfold finish
  split_ifs
  · refine wp_bind (wp_releaseToken ?_)
    exact wp_quiet rfl fun _ => h
  · exact wp_quiet rfl fun _ => h

theorem wp_acquireHealthyForLeader {k : K} {Q : Leader K → Track → Prop}
    (h : ∀ leader, Q leader g) : (mutating m).wp J Q (acquireHealthyForLeader k c) g := by
  refine wp_act trivial fun lease _ => ?_
  cases lease with
  | lease γ | blocked => exact h _
  | wait =>
    refine wp_bind (wp_releaseToken ?_)
    refine wp_quiet rfl fun ended => ?_
    split_ifs
    · exact h _
    · refine wp_bind (wp_acquireToken fun taken => ?_)
      split_ifs
      · exact h _
      · exact h _

/-- **Taking the value out of the local tier**: then there is none, or the tier is blocked. -/
theorem wp_invalidateLocalHeld {Q : Option (Err K) → Track → Prop}
    (hgone : ∀ g', g'.seen = g.seen → g'.ticket = g.ticket → g'.known = .gone → Q none g')
    (hblocked : ∀ e g', g'.seen = g.seen → g'.ticket = g.ticket → e.isBlocked = true →
      Q (some e) g') :
    (mutating m).wp J Q (invalidateLocalHeld m.key) g := by
  refine wp_quiet rfl fun held => ?_
  split_ifs
  · refine wp_act rfl fun deleted _ => wp_quiet rfl fun _ => ?_
    cases deleted with
    | true => exact hgone _ rfl rfl rfl
    | false => exact wp_quiet rfl fun _ => hblocked _ _ rfl rfl rfl
  · exact wp_quiet rfl fun _ => hblocked _ g rfl rfl rfl

/-- **Filling the local tier with what was written**: the context ends first, or the tier is
blocked, or it holds nothing else for the key. -/
theorem wp_populateLocalHeld {v : V} {ttl : ℤ} {γ : ℕ} {Q : Option (Err K) → Track → Prop}
    (hvalue : m.value = some v) (hticket : g.ticket = some γ)
    (hcut : Q (some .context) (g.after (.ctxErr : Act K V) true))
    (hblocked : ∀ e g', e.isBlocked = true → Q (some e) g')
    (hdone : ∀ r g', g'.seen = g.seen.see (⟨.ctxErr, false⟩ : Σ a : Act K V, Ans a) →
      g'.known = .gone ∨ g'.known = .fresh → Q r g') :
    (mutating m).wp J Q (populateLocalHeld m.key ⟨v, none⟩ ttl γ) g := by
  refine wp_act trivial fun lease hlease => ?_
  rcases hlease γ hticket with rfl | rfl
  · -- the lease is under the generation of the mutation
    dsimp only
    rw [if_neg (not_not.mpr rfl)]
    refine wp_act trivial fun ended _ => ?_
    cases ended with
    | true => exact wp_quiet rfl fun _ => hcut
    | false =>
      refine wp_act ⟨rfl, hvalue, rfl⟩ fun stored _ => ?_
      refine wp_act trivial fun disposition _ => wp_quiet rfl fun _ => ?_
      cases stored with
      | true =>
        rw [if_pos rfl]
        split_ifs
        · exact hdone _ _ rfl (.inr rfl)
        · refine wp_bind (wp_invalidateLocalHeld ?_ ?_)
          · intro g₄ hseen _ hgone
            split_ifs
            · exact hblocked _ _ rfl
            · exact hdone _ _ hseen (.inl hgone)
          · exact fun e g₄ _ _ he => hblocked e g₄ he
      | false =>
        refine wp_bind (wp_invalidateLocalHeld ?_ ?_)
        · intro g₄ hseen _ hgone
          split_ifs
          · exact hblocked _ _ rfl
          · exact hdone _ _ hseen (.inl hgone)
        · exact fun e g₄ _ _ he => hblocked _ g₄ rfl
  · exact hblocked _ _ rfl

theorem wp_mutationResult {operation : String} {k : K} {γ : ℕ} {primary cleanup : Option (Err K)}
    {Q : Option (Err K) → Track → Prop} (hblocked : ∀ e, e.isBlocked = true → Q (some e) g)
    (hprimary : cleanup = none → Q primary g) :
    (mutating m).wp J Q (mutationResult operation k γ primary cleanup) g := by
  cases cleanup with
  | some e => exact hblocked _ rfl
  | none =>
    refine wp_act trivial fun disposition _ => ?_
    split_ifs
    · exact hblocked _ rfl
    · exact hprimary rfl

end Parts

/-! ### Set and Delete -/

/-- **What is known at the end** of a mutation that has sent its command, returns no error of a
blocked tier and has not skipped the local tier: it holds nothing for the key, or what was
written. -/
def Settled (cfg : Config K) (m : Mutation K V) (r : Result K V) (g : Track) : Prop :=
  g.seen.issued = true → r.isBlocked = false → ¬ Skips cfg m g.seen →
    g.known = .gone ∨ (g.known = .fresh ∧ g.seen.written = true)

/-- At the beginning. -/
def Track.start : Track := ⟨.none, none, .unknown⟩

/-- The label of its loop. -/
def Mutation.place (c : ℕ) : Mutation K V → Place K V
  | .set k v ttl => .set k v ttl c
  | .delete k => .delete k c

/-- In the loop, nothing has been seen. -/
def AtLoop (m : Mutation K V) (l : Place K V) (g : Track) : Prop :=
  g = .start ∧ ∃ c, l = m.place c

section

variable {cfg : Config K} {m : Mutation K V} {g : Track} {γ : ℕ}

omit [DecidableEq K]

theorem settled_of_isBlocked {e : Err K} (he : e.isBlocked = true) :
    Settled cfg m (.ofErr (some e) : Result K V) g :=
  fun _ hr => nomatch he.symm.trans hr

variable {c : ℕ} {k : K}

/-- The end of a mutation that has taken the value out of the local tier, or has an error of a
blocked tier. -/
theorem wp_mutationEnd {operation : String} {primary cleanup : Option (Err K)}
    (h : cleanup = none → g.known = .gone) :
    (mutating m).wp (AtLoop m) (Settled cfg m) (do
      let err ← mutationResult operation k γ primary cleanup
      finish k c true (.ofErr err)) g := by
  refine wp_bind (wp_mutationResult ?_ ?_)
  · exact fun e he => wp_finish (settled_of_isBlocked he)
  · exact fun hnone => wp_finish fun _ _ _ => .inl (h hnone)

theorem wp_mutationCleanup {operation : String} {primary : Option (Err K)} :
    (mutating m).wp (AtLoop m) (Settled cfg m) (mutationCleanup operation m.key c γ primary) g := by
  refine wp_bind (wp_invalidateLocalHeld ?_ ?_)
  · exact fun g' _ _ hgone => wp_mutationEnd fun _ => hgone
  · exact fun e g' _ _ he => wp_mutationEnd nofun

/-- The local tier is filled with what was written. -/
theorem wp_populated {v : V} {ttl localTTL : ℤ} (hticket : g.ticket = some γ)
    (hlooks : g.seen.issued = true ∧ g.seen.written = true ∧ g.seen.looks = [false]) :
    (mutating (.set k v ttl)).wp (AtLoop (.set k v ttl)) (Settled cfg (.set k v ttl)) (do
      let err ← populateLocalHeld k ⟨v, none⟩ localTTL γ
      finish k c true (.ofErr err)) g := by
  obtain ⟨hissued, hwritten, hlooks⟩ := hlooks
  refine wp_bind (wp_populateLocalHeld (m := .set k v ttl) rfl hticket ?_ ?_ ?_)
  · refine wp_finish fun _ _ hskip => absurd (.inl ?_) hskip
    simp [Track.after, Seen.see, hissued, hlooks]
  · exact fun e g' he => wp_finish (settled_of_isBlocked he)
  · intro r g' hseen' hknown
    refine wp_finish fun _ _ _ => hknown.imp_right fun hfresh => ⟨hfresh, ?_⟩
    rw [hseen']
    exact hwritten

/-- **`Set` after its write.** -/
theorem wp_setWritten {v : V} {ttl t₀ : ℤ} {e : Option (Err K)} (hticket : g.ticket = some γ)
    (hseen : g.seen = ⟨true, e.isNone, [t₀], []⟩) :
    (mutating (.set k v ttl)).wp (AtLoop (.set k v ttl)) (Settled cfg (.set k v ttl))
      (setWritten cfg k v ttl c γ t₀ e) g := by
  refine wp_act trivial fun disposition hpossible => ?_
  have hnewer : disposition ≠ .newerGeneration := hpossible hticket
  cases e with
  | some e => exact wp_mutationCleanup
  | none =>
    refine wp_act trivial fun ended _ => ?_
    cases ended with
    | true => exact wp_mutationCleanup
    | false =>
      rw [if_neg Bool.false_ne_true]
      by_cases hblocked : disposition = .blocked
      · rw [if_pos hblocked]
        exact wp_mutationCleanup
      split_ifs with httl
      · exact wp_populated hticket (by simp [Track.after, Seen.see, hseen])
      · refine wp_act trivial fun t₁ _ => ?_
        cases hleft : knownWriteLocalTTL cfg.localTTL ttl t₀ t₁ with
        | none =>
          refine wp_finish fun _ _ hskip => absurd (.inr ⟨t₀, t₁, ?_, hleft⟩) hskip
          simp [Track.after, Seen.see, hseen]
        | some localTTL =>
          exact wp_populated hticket (by simp [Track.after, Seen.see, hseen])

theorem settled_of_not_issued {r : Result K V} (h : g.seen.issued = false) : Settled cfg m r g :=
  fun hissued => nomatch h.symm.trans hissued

theorem wp_admission (operation : String) {next : ℕ → Program K V (Result K V)}
    (h : ∀ γ', (mutating m).wp (AtLoop m) (Settled cfg m) (next γ') ⟨.none, some γ', .unknown⟩) :
    (mutating m).wp (AtLoop m) (Settled cfg m) (do
      let leader ← acquireHealthyForLeader m.key c
      match leader with
      | .failed e tokenHeld =>
        finish m.key c tokenHeld (.error (withCallOperation operation m.key e))
      | .retry => .goto (m.place c)
      | .lease g =>
        let admitted ← act (.issueTicket g)
        act .release
        if admitted then
          let ended ← act .ctxErr
          if ended then finish m.key c true (.error .context)
          else next g
        else
          let disposition ← act (.classify g)
          if disposition = .blocked then
            finish m.key c true (.error (localBlockedCallError operation (some m.key) []))
          else .goto (m.place c)) .start := by
  refine wp_bind (wp_acquireHealthyForLeader fun leader => ?_)
  cases leader with
  | failed e tokenHeld => exact wp_finish (settled_of_not_issued rfl)
  | retry => exact ⟨rfl, c, rfl⟩
  | lease γ' =>
    refine wp_act trivial fun admitted _ => wp_quiet rfl fun _ => ?_
    cases admitted with
    | true =>
      refine wp_act trivial fun ended _ => ?_
      cases ended with
      | true =>
        rw [if_pos rfl]
        exact wp_finish (settled_of_not_issued rfl)
      | false => exact h γ'
    | false =>
      refine wp_act trivial fun disposition _ => ?_
      split_ifs
      · exact wp_finish (settled_of_not_issued rfl)
      · exact ⟨rfl, c, rfl⟩

theorem wp_setLoop {v : V} {ttl : ℤ} :
    (mutating (.set k v ttl)).wp (AtLoop (.set k v ttl)) (Settled cfg (.set k v ttl))
      (setLoop cfg k v ttl c) .start := by
  refine wp_admission (m := .set k v ttl) "set" fun γ => ?_
  exact wp_act trivial fun t₀ _ => wp_act trivial fun e _ => wp_setWritten rfl rfl

theorem wp_deleteLoop :
    (mutating (.delete k : Mutation K V)).wp (AtLoop (.delete k)) (Settled cfg (.delete k))
      (deleteLoop k c) .start := by
  refine wp_admission (m := .delete k) "delete" fun γ => ?_
  refine wp_act trivial fun remoteErr _ => ?_
  refine wp_bind (wp_invalidateLocalHeld (m := .delete k) ?_ ?_)
  · intro g' _ _ hgone
    cases remoteErr with
    | some e => exact wp_mutationEnd fun _ => hgone
    | none => exact wp_act trivial fun ended _ => wp_mutationEnd fun _ => hgone
  · intro e g' _ _ he
    cases remoteErr with
    | some e' => exact wp_mutationEnd nofun
    | none => exact wp_act trivial fun ended _ => wp_mutationEnd nofun

theorem wp_body {l : Place K V} (h : AtLoop m l g) :
    (mutating m).wp (AtLoop m) (Settled cfg m) (l.program cfg) g := by
  obtain ⟨rfl, c, rfl⟩ := h
  cases m with
  | set k v ttl => exact wp_setLoop
  | delete k => exact wp_deleteLoop

theorem wp_entry :
    (mutating m).wp (AtLoop m) (Settled cfg m) (do
      let c ← act (.acquire k)
      let taken ← acquireToken k c
      if taken then .goto (m.place c) else finish k c false (.error .context)) .start := by
  refine wp_quiet rfl fun c => ?_
  refine wp_bind (wp_acquireToken fun taken => ?_)
  split_ifs
  · exact ⟨rfl, c, rfl⟩
  · exact wp_finish (settled_of_not_issued rfl)

theorem wp_validateCall {Q : Option (Err K) → Track → Prop} (h : ∀ r, Q r .start) :
    (mutating m).wp (AtLoop m) Q (validateCall cfg k) .start := by
  refine wp_act trivial fun ended _ => ?_
  split_ifs
  · exact h _
  · exact h _
  · exact h _

/-- **`Set` and `Delete` do what they should.** -/
theorem wp_mutation (cfg : Config K) (m : Mutation K V) :
    (mutating m).wp (AtLoop m) (Settled cfg m) (m.program cfg) .start := by
  cases m with
  | set k v ttl =>
    refine wp_bind (wp_validateCall fun invalid => ?_)
    cases invalid with
    | some e => exact settled_of_not_issued rfl
    | none =>
      split_ifs
      · exact settled_of_not_issued rfl
      · exact wp_entry
  | delete k =>
    refine wp_bind (wp_validateCall fun invalid => ?_)
    cases invalid with
    | some e => exact settled_of_not_issued rfl
    | none => exact wp_entry

end

/-! ### Executions -/

/-- **A mutation leaves no superseded value in the local tier**, unless it skips it: from any
state, and among any operations on other keys, when a `Set` or `Delete` has sent its command to
Redis and returns, and not with the error of a blocked tier, the local tier holds nothing for
the key, or what was written. -/
theorem tier_after_mutation {cfg : Config K} {m : Mutation K V} {s s' : Shared K V}
    {tr : List (Σ a : Act K V, Ans a)} {r : Result K V}
    (h : Exec (machine cfg) (Rely m.key) (m.program cfg) s tr r s')
    (hissued : (seen tr).issued = true) (hr : r.isBlocked = false)
    (hskip : ¬ Skips cfg m (seen tr)) :
    s'.tier m.key = none ∨
      ∃ v, m.value = some v ∧ (seen tr).written = true ∧ s'.tier m.key = some ⟨v, none⟩ := by
  have hstart : Knows m s .start :=
    ⟨nofun, nofun, nofun⟩
  obtain ⟨g, hsettled, hknows, hseen⟩ := h.rule Seen.see Track.seen
    (P := mutating m) (J := AtLoop m) (Q := Settled cfg m) (I := Knows m)
    (fun _ _ _ _ _ _ hmove => by rw [hmove.2]; rfl) (fun _ _ _ hk hrely => hk.rely hrely)
    (fun _ _ _ _ _ _ _ hk ha hexec => hk.act ha hexec) (fun _ _ hl => wp_body hl)
    (wp_mutation cfg m) hstart
  have hview : g.seen = seen tr := hseen
  rw [← hview] at hissued hskip
  rw [← hview]
  rcases hsettled hissued hr hskip with hgone | ⟨hfresh, hwritten⟩
  · exact .inl (hknows.gone_ok hgone)
  · rcases hknows.fresh_ok hfresh with hnone | ⟨v, hv, htier⟩
    · exact .inl hnone
    · exact .inr ⟨v, hv, hwritten, htier⟩

/-- Both tiers hold a value. -/
def holding (v : ℕ) : Shared Unit ℕ := .new (fun _ => some ⟨v, none⟩) fun _ => some v

/-- What becomes of a `Set` up to the second look at the clock: the call, the token, the
admission, the write, and a look at the context. -/
def untilWritten : List (Option (Choice Unit ℕ)) :=
  [some .ok, some .ok, some .ok, some .ok, none, some .ok, some .ok, some .ok, some .ok,
    some (.time 0), some .ok, some .ok, some .ok]

/-- A value that is set without a time to live replaces the old one in the local tier, also if
the write has taken a second. -/
theorem tier_after_mutation_replaced :
    ∃ (tr : List (Σ a : Act Unit ℕ, Ans a)) (r : Result Unit ℕ) (s' : Shared Unit ℕ),
      Exec (machine defaultConfig) (Rely ()) ((Mutation.set () 2 0).program defaultConfig)
        (holding 1) tr r s' ∧
        s'.tier () = some ⟨2, none⟩ ∧
          (s'.tier () = none ∨ ∃ v, (Mutation.set () 2 0).value = some v ∧
            (seen tr).written = true ∧ s'.tier () = some ⟨v, none⟩) := by
  obtain ⟨tr, r, s', hexec, htest⟩ := Conc.Machine.exists_exec_of_play (M := machine defaultConfig)
    (Rely.refl ()) ((Mutation.set () 2 0).program defaultConfig) (holding 1)
    (untilWritten ++ List.replicate 8 (some .ok))
    (fun tr r s' => decide (seen tr = ⟨true, true, [0], [false, false]⟩ ∧ r.isBlocked = false ∧
      s'.tier () = some ⟨2, none⟩)) (by decide +kernel)
  obtain ⟨hseen, hr, htier⟩ := of_decide_eq_true htest
  refine ⟨tr, r, s', hexec, htier, tier_after_mutation hexec (by rw [hseen]) hr ?_⟩
  rw [hseen]
  simp [Skips]

/-- **A superseded value stays in the local tier.** It holds the value 1. `Set` writes 2 for a
millisecond, and the clock, read before the write and after it, has moved on by a second: `Set`
returns no error, and the local tier still holds 1. -/
theorem stale_after_slow_set :
    ∃ (tr : List (Σ a : Act Unit ℕ, Ans a)) (s' : Shared Unit ℕ),
      Exec (machine defaultConfig) (Rely ()) (set defaultConfig () 2 Go.millisecond) (holding 1) tr
        (.ok none) s' ∧
        (seen tr).written = true ∧ s'.tier () = some ⟨1, none⟩ ∧ s'.remote () = some 2 := by
  obtain ⟨tr, r, s', hexec, htest⟩ := Conc.Machine.exists_exec_of_play (M := machine defaultConfig)
    (Rely.refl ()) (set defaultConfig () 2 Go.millisecond) (holding 1)
    (untilWritten ++ some (.time Go.second) :: List.replicate 3 (some .ok))
    (fun tr r s' => decide (r.toOption = some none ∧ (seen tr).written = true ∧
      s'.tier () = some ⟨1, none⟩ ∧ s'.remote () = some 2)) (by decide +kernel)
  obtain ⟨hr, hseen⟩ := of_decide_eq_true htest
  cases r with
  | error e => exact nomatch hr
  | ok r =>
    obtain rfl : r = none := Option.some.inj hr
    exact ⟨tr, s', hexec, hseen⟩

end Bluetape.RedisValue
