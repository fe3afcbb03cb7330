import Bluetape.RedisValue.Invariant

/-!
# The operations of a tiered cache keep to the protocol

Every method of a `TieredCache` keeps to the protocol of `protocol`: it takes a lease only if it has
none, asks Redis for a value, or calls the loader, only with the token of the key in hand and a
ticket, and stores a value only under a lease of the generation of the ticket. This is shown for
each function of the source once, from those that it calls, with what the caller has in hand
afterwards:

* the functions that borrow a lease or a maintenance lease give it back (`Ghost.wp_localGet`,
  `Ghost.wp_invalidateLocalHeld`, `Ghost.wp_populateLocalHeld`);
* the loops are entered again with the token, and without a lease or a value in hand
  (`Ghost.Working`);
* a repair that returns no error has succeeded, or has found that the generation had moved already
  (`Ghost.wp_repair`).

So every call, and every loop, does (`wp_program`, `wp_place`), and the invariant `Inv` holds in all
runs (`outline_valid`).
-/

namespace Bluetape.RedisValue

open Function Conc.Protocol

variable {K V : Type}

/-! ### Small programs -/

/-- It changes no ghost. -/
def Act.idle : Act K V → Bool
  | .ctxErr | .now | .classify _ | .block | .waitLocalState | .enlist _ | .delist _
  | .joinFlight _ | .publishFlight _ _ _ | .waitFlight _ | .tierGet _ | .tierDelete _
  | .remoteSet _ _ _ | .remoteDelete _ | .scan _ => true
  | _ => false

namespace Ghost

section

variable {J : Place K V → Ghost K → Prop} {g : Ghost K} {τ : Type} {Q : τ → Ghost K → Prop}

theorem wp_act {a : Act K V} {f : Ans a → Program K V τ} (ha : g.Allowed a)
    (h : ∀ t s x, Possible t a x → protocol.wp J Q (f x) (g.after t s a x)) :
    protocol.wp J Q (act a >>= f) g := by
  refine wp_call_bind ha fun t s x g' hmove => ?_
  rw [hmove.2]
  exact h t s x hmove.1

theorem wp_idle {a : Act K V} {f : Ans a → Program K V τ} (ha : a.idle = true)
    (h : ∀ x, protocol.wp J Q (f x) g) : protocol.wp J Q (act a >>= f) g := by
  cases a <;> first
    | exact wp_act trivial fun _ _ x _ => h x
    | exact nomatch ha

theorem wp_release {f : Unit → Program K V τ} (hlease : g.lease = .none) {l : Lease}
    (hl : l ≠ .none) (h : protocol.wp J Q (f ()) g) :
    protocol.wp J Q (act .release >>= f) { g with lease := l } := by
  refine wp_act hl fun _ _ _ _ => ?_
  change protocol.wp J Q (f ()) { g with lease := .none }
  rw [← hlease]
  exact h

variable {k : K} {c : ℕ}

theorem wp_releaseToken {Q : Unit → Ghost K → Prop} (hg : g.holder = ⟨some (k, c), true⟩)
    (h : Q () { g with holder := ⟨some (k, c), false⟩, fetched := none }) :
    protocol.wp J Q (releaseToken c) g := by
  refine wp_idle rfl fun _ => wp_act ⟨k, hg⟩ fun _ _ _ _ => ?_
  change Q () { g with holder := { g.holder with token := false }, fetched := none }
  rw [hg]
  exact h

theorem wp_acquireToken {Q : Bool → Ghost K → Prop} (hg : g.holder = ⟨some (k, c), false⟩)
    (hfetched : g.fetched = none)
    (htaken : Q true { g with holder := ⟨some (k, c), true⟩, visited := some k })
    (hnot : Q false g) : protocol.wp J Q (acquireToken k c) g := by
  refine wp_idle rfl fun _ => wp_act ⟨hg, hfetched⟩ fun _ _ taken _ => ?_
  cases taken with
  | true =>
    change Q true { g with holder := { g.holder with token := true }, visited := some k }
    rw [hg]
    exact htaken
  | false => exact wp_idle rfl fun _ => hnot

theorem wp_finish {held : Bool} {r : Result K V} {Q : Result K V → Ghost K → Prop}
    (hg : g.holder = ⟨some (k, c), held⟩)
    (h : ∀ g', g'.began = g.began → g'.visited = g.visited → Q r g') :
    protocol.wp J Q (finish k c held r) g := by
  cases held with
  | true =>
    refine wp_bind (wp_releaseToken hg ?_)
    exact wp_act rfl fun _ _ _ _ => h _ rfl rfl
  | false => exact wp_act hg fun _ _ _ _ => h _ rfl rfl

/-- An operation that goes on with the token of its key: it has no lease, and has fetched
nothing. -/
structure Working (k : K) (c : ℕ) (g : Ghost K) : Prop where
  holder : g.holder = ⟨some (k, c), true⟩
  lease : g.lease = .none
  fetched : g.fetched = none

theorem wp_acquireHealthyForLeader {f : Leader K → Program K V τ} (hw : Working k c g)
    (hlease : ∀ γ, protocol.wp J Q (f (.lease γ)) { g with lease := .healthy γ })
    (hretry : protocol.wp J Q (f .retry) { g with visited := some k })
    (hfailed : ∀ e held, protocol.wp J Q (f (.failed e held))
      { g with holder := ⟨some (k, c), held⟩ }) :
    protocol.wp J Q (acquireHealthyForLeader k c >>= f) g := by
  have hdrop : { g with holder := ⟨some (k, c), false⟩, fetched := none } =
      { g with holder := ⟨some (k, c), false⟩ } := by rw [← hw.fetched]
  have hheld : { g with holder := ⟨some (k, c), true⟩ } = g := by rw [← hw.holder]
  refine wp_bind (wp_act hw.lease fun _ _ lease _ => ?_)
  cases lease with
  | lease γ => exact hlease γ
  | blocked => exact hheld ▸ hfailed _ true
  | wait =>
    refine wp_bind (wp_releaseToken hw.holder ?_)
    change protocol.wp J _ _ { g with holder := ⟨some (k, c), false⟩, fetched := none }
    rw [hdrop]
    refine wp_idle rfl fun ended => ?_
    cases ended with
    | true => exact hfailed _ false
    | false =>
      refine wp_bind (wp_acquireToken rfl hw.fetched ?_ (hfailed _ false))
      rw [← hw.holder]
      exact hretry

theorem wp_invalidateLocalHeld {Q : Option (Err K) → Ghost K → Prop} (hlease : g.lease = .none)
    (h : ∀ r, Q r g) : protocol.wp J Q (invalidateLocalHeld k) g := by
  refine wp_act hlease fun _ _ held _ => ?_
  cases held with
  | true =>
    refine wp_idle rfl fun deleted => wp_release hlease (by simp) ?_
    cases deleted with
    | true => exact h _
    | false => exact wp_idle rfl fun _ => h _
  | false => exact wp_idle rfl fun _ => h _

theorem wp_populateFailed {d : Disposition} {Q : Option (Err K) → Ghost K → Prop}
    (hlease : g.lease = .none) (h : ∀ r, Q r g) : protocol.wp J Q (populateFailed k d) g := by
  refine wp_bind (wp_invalidateLocalHeld hlease fun cleanup => ?_)
  cases cleanup with
  | some e => exact h _
  | none =>
    split_ifs
    · exact h _
    · exact h _

theorem wp_populateLate {d : Disposition} {Q : Option (Err K) → Ghost K → Prop}
    (hlease : g.lease = .none) (h : ∀ r, Q r g) : protocol.wp J Q (populateLate k d) g := by
  refine wp_bind (wp_invalidateLocalHeld hlease fun cleanup => ?_)
  cases cleanup with
  | some e => exact h _
  | none =>
    split_ifs
    · exact h _
    · exact h _

/-- **A value is stored under a lease of the generation of its ticket.** -/
theorem wp_populateLocalHeld {item : Item V} {ttl : ℤ} {γ : ℕ} {Q : Option (Err K) → Ghost K → Prop}
    (hlease : g.lease = .none) (hticket : g.ticket = some γ) (hstores : g.Stores k item)
    (h : ∀ r, Q r g) : protocol.wp J Q (populateLocalHeld k item ttl γ) g := by
  refine wp_act hlease fun _ _ lease _ => ?_
  cases lease with
  | blocked | wait => exact h _
  | lease γ' =>
    dsimp only
    split_ifs with hne
    · exact wp_release hlease (by simp) (h _)
    · obtain rfl : γ' = γ := not_not.mp hne
      refine wp_idle rfl fun ended => ?_
      cases ended with
      | true => exact wp_release hlease (by simp) (h _)
      | false =>
        refine wp_act ⟨⟨γ', rfl, hticket⟩, hstores⟩ fun _ _ stored _ => ?_
        refine wp_idle rfl fun disposition => wp_release hlease (by simp) ?_
        cases stored with
        | true =>
          rw [if_pos rfl]
          split_ifs
          · exact h _
          · exact wp_populateLate hlease h
        | false => exact wp_populateFailed hlease h

theorem wp_localGet {Q : Result K V → Ghost K → Prop} (hlease : g.lease = .none) (h : ∀ r, Q r g) :
    protocol.wp J Q (localGet k) g := by
  refine wp_act hlease fun _ _ lease _ => ?_
  cases lease with
  | ended | blocked => exact h _
  | lease γ =>
    refine wp_idle rfl fun value => wp_idle rfl fun disposition => wp_release hlease (by simp) ?_
    cases value with
    | ok item =>
      dsimp only
      split_ifs
      · exact h _
      · exact h _
      · exact h _
    | error e =>
      split_ifs
      · exact h _
      · exact h _

/-- The look at the generation: the tier is blocked, or the operation goes on. -/
theorem wp_classified {p : Program K V τ} {f : Disposition → Program K V τ} {γ : ℕ}
    (hp : protocol.wp J Q p g) (hf : ∀ d, protocol.wp J Q (f d) g) :
    protocol.wp J Q (act (.classify γ) >>= fun d => if d = .blocked then p else f d) g := by
  refine wp_idle rfl fun d => ?_
  split_ifs
  · exact hp
  · exact hf d

/-- **The admission**: the lease is given back, and its generation stays in the ticket. -/
theorem wp_admission {c γ : ℕ} {pEnded pGo pBlocked pRetry : Program K V τ} (hw : Working k c g)
    (hended : protocol.wp J Q pEnded { g with ticket := some γ })
    (hgo : protocol.wp J Q pGo { g with ticket := some γ })
    (hblocked : protocol.wp J Q pBlocked g) (hretry : protocol.wp J Q pRetry g) :
    protocol.wp J Q (do
      let admitted ← act (.issueTicket γ)
      act .release
      if admitted then
        let ended ← act .ctxErr
        if ended then pEnded else pGo
      else
        let disposition ← act (.classify γ)
        if disposition = .blocked then pBlocked else pRetry) { g with lease := .healthy γ } := by
  refine wp_act ⟨rfl, .inl hw.fetched⟩ fun _ _ admitted _ => ?_
  cases admitted with
  | true =>
    refine wp_release (g := { g with ticket := some γ }) hw.lease (by simp) ?_
    refine wp_idle rfl fun ended => ?_
    cases ended with
    | true => exact hended
    | false => exact hgo
  | false => exact wp_release hw.lease (by simp) (wp_classified hblocked fun _ => hretry)

theorem wp_validateCall {cfg : Config K} {f : Option (Err K) → Program K V τ}
    (herror : ∀ e, protocol.wp J Q (f (some e)) g) (hvalid : protocol.wp J Q (f none) g) :
    protocol.wp J Q (validateCall cfg k >>= f) g := by
  refine wp_bind (wp_idle rfl fun ended => ?_)
  split_ifs
  · exact herror _
  · exact hvalid
  · exact herror _

end

/-! ### Get and GetOrLoad -/

section

variable {J : Place K V → Ghost K → Prop} {Q : Result K V → Ghost K → Prop} {g : Ghost K}
  {cfg : Config K} {k : K} {ttl : ℤ} {c f γ : ℕ}

/-- The end of an operation, whatever it returns. -/
theorem wp_ended {held : Bool} {r : Result K V} (hg : g.holder = ⟨some (k, c), held⟩)
    (hQ : ∀ r g', g'.began = g.began → Q r g') : protocol.wp J Q (finish k c held r) g :=
  wp_finish hg fun g' hbegan _ => hQ r g' hbegan

/-- The end of a `GetOrLoad` that leads a flight. -/
theorem wp_publish {held : Bool} {r : Result K V} (hg : g.holder = ⟨some (k, c), held⟩)
    (hQ : ∀ r g', g'.began = g.began → Q r g') : protocol.wp J Q (publish k c f held r) g :=
  wp_idle rfl fun _ => wp_ended hg hQ

variable (hQ : ∀ r g', g'.began = g.began → Q r g')
include hQ

variable (hg : g.holder = ⟨some (k, c), true⟩) (hlease : g.lease = .none)
  (hticket : g.ticket = some γ)

include hg hlease hticket in
theorem wp_getFetched {fetched : Except (Err K) (Item V)}
    (hstores : ∀ item, fetched = .ok item → g.Stores k item) :
    protocol.wp J Q (getFetched cfg k c γ fetched) g := by
  refine wp_classified (wp_ended hg hQ) fun disposition => ?_
  cases fetched with
  | error e => exact wp_ended hg hQ
  | ok item =>
    split_ifs
    · exact wp_ended hg hQ
    · refine wp_bind (wp_populateLocalHeld hlease hticket (hstores item rfl) ?_)
      intro err
      cases err with
      | some e | none => exact wp_ended hg hQ

theorem wp_getLoop (hw : Working k c g)
    (hJ : ∀ g', Working k c g' → g'.began = g.began → J (.get k c) g') :
    protocol.wp J Q (getLoop cfg k c) g := by
  refine wp_acquireHealthyForLeader hw (fun γ => ?_)
    (hJ _ ⟨hw.holder, hw.lease, hw.fetched⟩ rfl) fun e held => wp_ended rfl hQ
  refine wp_idle rfl fun value => wp_idle rfl fun disposition => ?_
  rcases value with e | item | _
  · refine wp_release hw.lease (by simp) ?_
    split_ifs
    · exact wp_ended hw.holder hQ
    · exact wp_ended hw.holder hQ
  · refine wp_admission hw (wp_ended hw.holder hQ) ?_ (wp_ended hw.holder hQ) (hJ g hw rfl)
    refine wp_act ⟨hw.lease, by simp, c, hw.holder⟩ fun t _ fetched hfetched => ?_
    cases fetched with
    | error e =>
      exact wp_getFetched (g := { g with ticket := some γ }) hQ hw.holder hw.lease rfl nofun
    | ok item =>
      refine wp_getFetched (g := { g with ticket := some γ, fetched := some (k, t) }) hQ hw.holder
        hw.lease rfl fun item' heq => ?_
      cases heq
      exact .inr ⟨t, hfetched, rfl⟩
  · refine wp_release hw.lease (by simp) ?_
    split_ifs
    · exact wp_ended hw.holder hQ
    · exact wp_ended hw.holder hQ

include hg hlease hticket in
theorem wp_loadWritten {item : Item V} {started : ℤ} {err : Option (Err K)}
    (hstores : g.Stores k item) :
    protocol.wp J Q (loadWritten cfg k ttl c f γ item started err) g := by
  refine wp_classified (wp_publish hg hQ) fun disposition => ?_
  cases err with
  | some e => exact wp_publish hg hQ
  | none =>
    split_ifs
    · exact wp_publish hg hQ
    · refine wp_bind (wp_populateLocalHeld hlease hticket hstores fun err => ?_)
      cases err with
      | some e | none => exact wp_publish hg hQ
    · refine wp_idle rfl fun now => ?_
      cases knownWriteLocalTTL cfg.localTTL ttl started now with
      | none => exact wp_publish hg hQ
      | some localTTL =>
        refine wp_bind (wp_populateLocalHeld hlease hticket hstores fun err => ?_)
        cases err with
        | some e | none => exact wp_publish hg hQ

include hg hlease hticket in
theorem wp_loadLoaded {item : Item V} (hstores : g.Stores k item) :
    protocol.wp J Q (loadLoaded cfg k ttl c f γ item) g := by
  refine wp_act hlease fun _ _ lease _ => ?_
  cases lease with
  | blocked | wait => exact wp_publish hg hQ
  | lease γ' =>
    dsimp only
    split_ifs with hne
    · exact wp_release hlease (by simp) (wp_classified (wp_publish hg hQ) fun _ => wp_publish hg hQ)
    · obtain rfl : γ' = γ := not_not.mp hne
      refine wp_act ⟨rfl, .inr hticket⟩ fun _ _ admitted _ => ?_
      -- a second ticket of the same generation
      have hsame : { g with ticket := some γ' } = g := by rw [← hticket]
      cases admitted with
      | true =>
        refine wp_release (g := { g with ticket := some γ' }) (l := .healthy γ') hlease (by simp) ?_
        rw [hsame]
        refine wp_idle rfl fun ended => ?_
        cases ended with
        | true => exact wp_publish hg hQ
        | false =>
          refine wp_idle rfl fun started => wp_idle rfl fun err => ?_
          exact wp_loadWritten hQ hg hlease hticket hstores
      | false =>
        exact wp_release hlease (by simp)
          (wp_classified (wp_publish hg hQ) fun _ => wp_publish hg hQ)

variable (hJ : ∀ g', Working k c g' → g'.began = g.began → J (.load k ttl c f) g')
include hJ

theorem wp_loadMissed (hw : Working k c g) : protocol.wp J Q (loadMissed cfg k ttl c f γ) g := by
  refine wp_acquireHealthyForLeader hw (fun γ' => ?_)
    (hJ _ ⟨hw.holder, hw.lease, hw.fetched⟩ rfl) fun e held => wp_publish rfl hQ
  dsimp only
  split_ifs with hne
  · exact wp_release hw.lease (by simp) (hJ g hw rfl)
  · obtain rfl : γ' = γ := not_not.mp hne
    refine wp_admission hw (wp_publish hw.holder hQ) ?_ (wp_publish hw.holder hQ) (hJ g hw rfl)
    refine wp_act ⟨hw.lease, by simp, c, hw.holder⟩ fun _ _ since _ => ?_
    refine wp_act trivial fun _ _ loaded hloaded => ?_
    refine wp_classified (wp_publish hw.holder hQ) fun disposition => ?_
    cases loaded with
    | error e => exact wp_publish hw.holder hQ
    | ok item =>
      split_ifs
      · exact wp_publish hw.holder hQ
      · exact wp_loadLoaded (g := { g with ticket := some γ', fetched := some (k, since) })
          hQ hw.holder hw.lease rfl (.inr ⟨since, hloaded, rfl⟩)

include hg hlease hticket in
theorem wp_loadFetched {fetched : Except (Err K) (Item V)}
    (hstores : ∀ item, fetched = .ok item → g.Stores k item)
    (hnone : ∀ e, fetched = .error e → g.fetched = none) :
    protocol.wp J Q (loadFetched cfg k ttl c f γ fetched) g := by
  refine wp_classified (wp_publish hg hQ) fun disposition => ?_
  cases fetched with
  | ok item =>
    split_ifs
    · exact wp_publish hg hQ
    · refine wp_bind (wp_populateLocalHeld hlease hticket (hstores item rfl) fun err => ?_)
      cases err with
      | some e | none => exact wp_publish hg hQ
  | error e =>
    have hw : Working k c g := ⟨hg, hlease, hnone e rfl⟩
    cases e with
    | miss =>
      split_ifs
      · exact hJ g hw rfl
      · exact wp_loadMissed hQ hJ hw
    | _ => exact wp_publish hg hQ

theorem wp_loadLoop (hw : Working k c g) : protocol.wp J Q (loadLoop cfg k ttl c f) g := by
  refine wp_acquireHealthyForLeader hw (fun γ => ?_)
    (hJ _ ⟨hw.holder, hw.lease, hw.fetched⟩ rfl) fun e held => wp_publish rfl hQ
  refine wp_idle rfl fun value => wp_idle rfl fun disposition => ?_
  rcases value with e | item | _
  · refine wp_release hw.lease (by simp) ?_
    split_ifs
    · exact wp_publish hw.holder hQ
    · exact wp_publish hw.holder hQ
  · refine wp_admission hw (wp_publish hw.holder hQ) ?_ (wp_publish hw.holder hQ) (hJ g hw rfl)
    refine wp_act ⟨hw.lease, by simp, c, hw.holder⟩ fun t _ fetched hfetched => ?_
    cases fetched with
    | error e =>
      exact wp_loadFetched (g := { g with ticket := some γ }) hQ hw.holder hw.lease rfl hJ
        nofun fun _ _ => hw.fetched
    | ok item =>
      refine wp_loadFetched (g := { g with ticket := some γ, fetched := some (k, t) })
        hQ hw.holder hw.lease rfl hJ (fun item' heq => ?_) nofun
      cases heq
      exact .inr ⟨t, hfetched, rfl⟩
  · refine wp_release hw.lease (by simp) ?_
    split_ifs
    · exact wp_publish hw.holder hQ
    · exact wp_publish hw.holder hQ

end

/-! ### Set, Delete and InvalidateLocal -/

section

variable {J : Place K V → Ghost K → Prop} {Q : Result K V → Ghost K → Prop} {g : Ghost K}
  {cfg : Config K} {k : K} {v : V} {ttl : ℤ} {c γ : ℕ}

theorem wp_mutationResult {operation : String} {primary cleanup : Option (Err K)}
    {Q : Option (Err K) → Ghost K → Prop} (h : ∀ r, Q r g) :
    protocol.wp J Q (mutationResult operation k γ primary cleanup) g := by
  cases cleanup with
  | some e => exact h _
  | none =>
    refine wp_idle rfl fun disposition => ?_
    split_ifs
    · exact h _
    · exact h _

variable (hQ : ∀ r g', g'.began = g.began → Q r g')
include hQ

theorem wp_mutationCleanup {operation : String} {primary : Option (Err K)}
    (hg : g.holder = ⟨some (k, c), true⟩) (hlease : g.lease = .none) :
    protocol.wp J Q (mutationCleanup operation k c γ primary) g := by
  refine wp_bind (wp_invalidateLocalHeld hlease fun cleanup => ?_)
  refine wp_bind (wp_mutationResult fun err => ?_)
  exact wp_ended hg hQ

theorem wp_setWritten {started : ℤ} {err : Option (Err K)} (hg : g.holder = ⟨some (k, c), true⟩)
    (hlease : g.lease = .none) (hticket : g.ticket = some γ) (hwrites : g.writes = true) :
    protocol.wp J Q (setWritten cfg k v ttl c γ started err) g := by
  have hstores : g.Stores k (⟨v, none⟩ : Item V) := .inl ⟨rfl, hwrites⟩
  refine wp_idle rfl fun disposition => ?_
  cases err with
  | some e => exact wp_mutationCleanup hQ hg hlease
  | none =>
    refine wp_idle rfl fun ended => ?_
    split_ifs
    · exact wp_mutationCleanup hQ hg hlease
    · exact wp_mutationCleanup hQ hg hlease
    · exact wp_ended hg hQ
    · exact wp_bind (wp_populateLocalHeld hlease hticket hstores fun _ => wp_ended hg hQ)
    · refine wp_idle rfl fun now => ?_
      cases knownWriteLocalTTL cfg.localTTL ttl started now with
      | none => exact wp_ended hg hQ
      | some localTTL =>
        exact wp_bind (wp_populateLocalHeld hlease hticket hstores fun _ => wp_ended hg hQ)

theorem wp_setLoop (hw : Working k c g) (hwrites : g.writes = true)
    (hJ : ∀ g', Working k c g' → g'.began = g.began → g'.writes = true → J (.set k v ttl c) g') :
    protocol.wp J Q (setLoop cfg k v ttl c) g := by
  refine wp_acquireHealthyForLeader hw (fun γ => ?_)
    (hJ _ ⟨hw.holder, hw.lease, hw.fetched⟩ rfl hwrites) fun e held => wp_ended rfl hQ
  refine wp_admission hw (wp_ended hw.holder hQ) ?_ (wp_ended hw.holder hQ) (hJ g hw rfl hwrites)
  refine wp_idle rfl fun started => wp_idle rfl fun err => ?_
  exact wp_setWritten (g := { g with ticket := some γ }) hQ hw.holder hw.lease rfl hwrites

theorem wp_deleteLoop (hw : Working k c g)
    (hJ : ∀ g', Working k c g' → g'.began = g.began → J (.delete k c) g') :
    protocol.wp J Q (deleteLoop k c) g := by
  refine wp_acquireHealthyForLeader hw (fun γ => ?_)
    (hJ _ ⟨hw.holder, hw.lease, hw.fetched⟩ rfl) fun e held => wp_ended rfl hQ
  refine wp_admission hw (wp_ended hw.holder hQ) ?_ (wp_ended hw.holder hQ) (hJ g hw rfl)
  refine wp_idle rfl fun remoteErr => ?_
  refine wp_bind
    (wp_invalidateLocalHeld (g := { g with ticket := some γ }) hw.lease fun cleanup => ?_)
  cases remoteErr with
  | some e => exact wp_bind (wp_mutationResult fun err => wp_ended hw.holder hQ)
  | none =>
    refine wp_idle rfl fun ended => ?_
    exact wp_bind (wp_mutationResult fun err => wp_ended hw.holder hQ)

omit hQ in
/-- **An `InvalidateLocal` that returns no error has held the token.** -/
theorem wp_invalidateLocal (hg : g.holder = ⟨none, false⟩) (hlease : g.lease = .none)
    (hfetched : g.fetched = none) (herror : ∀ e g', g'.began = g.began → Q (.error e) g')
    (hQ : ∀ r g', g'.began = g.began → g'.visited = some k → Q r g') :
    protocol.wp J Q (invalidateLocal cfg k) g := by
  refine wp_validateCall (fun e => herror e g rfl) (wp_act hg fun _ _ c _ => ?_)
  refine wp_bind (wp_acquireToken (by rw [after, hg]) hfetched ?_ ?_)
  · refine wp_bind (wp_invalidateLocalHeld hlease fun err => ?_)
    exact wp_finish rfl fun g' hbegan hvisited => hQ _ g' hbegan hvisited
  · refine wp_idle rfl fun _ => ?_
    exact wp_finish (by rw [after, hg]) fun g' hbegan _ => herror _ g' hbegan

end

/-! ### ClearLocal and Clear -/

section

variable {J : Place K V → Ghost K → Prop} {g : Ghost K} {γ : ℕ}

theorem wp_clearTier {l : RepairLease} {Q : Option (Err K) → Ghost K → Prop}
    (hstage : g.stage = .drained l) (hsome : ∀ e g', g'.began = g.began → Q (some e) g')
    (hnone : ∀ g', g'.began = g.began → g'.healed = true → Q none g') :
    protocol.wp J Q (clearTier l) g := by
  refine wp_act trivial fun _ _ cleared _ => ?_
  cases cleared with
  | true =>
    have hafter : ∀ t s, g.after t s (.tierClear : Act K V) true = { g with stage := .cleared l } :=
      fun t s => by simp [after, hstage]
    rw [hafter]
    refine wp_idle rfl fun ended => wp_act (.inr rfl) fun _ _ healed _ => ?_
    cases healed with
    | true => exact hnone _ rfl rfl
    | false => exact hsome _ _ rfl
  | false =>
    refine wp_act (.inl rfl) fun _ _ healed _ => ?_
    cases healed with
    | true | false => exact hsome _ _ rfl

/-- **A repair that returns no error has succeeded**, or, if it expects a generation, has found
that it has moved. -/
theorem wp_repair {kind : RepairKind} {expected : Option ℕ} {Q : Option (Err K) → Ghost K → Prop}
    (hexpected : ∀ γ, expected = some γ → g.sampled = some γ)
    (hsome : ∀ e g', g'.began = g.began → Q (some e) g')
    (hhealed : ∀ g', g'.began = g.began → g'.healed = true → Q none g')
    (hpassed : ∀ g', g'.began = g.began → expected ≠ none → g'.passed = true → Q none g') :
    protocol.wp J Q (repair kind expected) g := by
  have hblocked : ∀ e g', g'.began = g.began → protocol.wp J Q (clearBlocked e) g' :=
    fun e g' hbegan => wp_idle rfl fun _ => hsome _ g' hbegan
  refine wp_act hexpected fun _ _ started hpossible => ?_
  rcases started with _ | ⟨l, drained⟩ | disposition
  · exact hblocked _ _ rfl
  · cases drained with
    | true => exact wp_clearTier rfl hsome hhealed
    | false =>
      refine wp_act rfl fun _ _ drained _ => ?_
      cases drained with
      | ok => exact wp_clearTier rfl hsome hhealed
      | lost | ended => exact hblocked _ _ rfl
  · cases disposition with
    | newerGeneration => exact hpassed _ rfl hpossible rfl
    | current | blocked => exact hsome _ _ rfl

variable {Q : Result K V → Ghost K → Prop} {cfg : Config K}

theorem wp_clearLocal (herror : ∀ e g', g'.began = g.began → Q (.error e) g')
    (hQ : ∀ g', g'.began = g.began → g'.healed = true → Q (.ok none) g') :
    protocol.wp J Q clearLocal g := by
  refine wp_bind (wp_repair nofun ?_ ?_ ?_)
  · exact fun e g' hbegan => herror e g' hbegan
  · exact fun g' hbegan hhealed => hQ g' hbegan hhealed
  · exact fun _ _ hne => absurd rfl hne

theorem wp_clearRemoteDone {err : Option (Err K)} (hsampled : g.sampled = some γ)
    (herror : ∀ e g', g'.began = g.began → Q (.error e) g')
    (hQ : ∀ g', g'.began = g.began → g'.healed = true ∨ g'.passed = true → Q (.ok none) g') :
    protocol.wp J Q (clearRemoteDone γ err) g := by
  have hdone : ∀ g', g'.began = g.began → g'.healed = true ∨ g'.passed = true →
      Q (.ofErr err) g' := fun g' hbegan hdone => by
    cases err with
    | some e => exact herror e g' hbegan
    | none => exact hQ g' hbegan hdone
  refine wp_bind (wp_repair (fun γ' heq => ?_) ?_ ?_ ?_)
  · rw [← heq, hsampled]
  · exact fun e g' hbegan => herror _ g' hbegan
  · exact fun g' hbegan hhealed => hdone g' hbegan (.inl hhealed)
  · exact fun g' hbegan _ hpassed => hdone g' hbegan (.inr hpassed)

/-- A clear that goes on: it has read the generation, and has not begun a repair. -/
structure Clearing (γ : ℕ) (g : Ghost K) : Prop where
  sampled : g.sampled = some γ
  stage : g.stage = .none
  healed : g.healed = false
  passed : g.passed = false

theorem wp_unlinkAll {Q : ClearProgress × Option (Err K) → Ghost K → Prop} (hc : Clearing γ g)
    (hQ : ∀ r g', g'.began = g.began → Clearing γ g' → Q r g') (pages : List (List K))
    (progress : ClearProgress) : protocol.wp J Q (unlinkAll progress pages) g := by
  induction pages generalizing g progress with
  | nil => exact hQ _ g rfl hc
  | cons batch pages ih =>
    refine wp_idle rfl fun ended => ?_
    cases ended with
    | true => exact hQ _ g rfl hc
    | false =>
      have hallowed : g.Allowed (.unlink batch : Act K V) :=
        ⟨by rw [hc.sampled]; simp, hc.stage, hc.healed, hc.passed⟩
      refine wp_act hallowed fun t s err _ => ?_
      have hc' : Clearing γ (g.after t s (.unlink batch) err) :=
        ⟨hc.sampled, hc.stage, hc.healed, hc.passed⟩
      cases err with
      | some e => exact hQ _ _ rfl hc'
      | none => exact ih hc' hQ _

theorem wp_scanLoop {cursor : ℕ} {progress : ClearProgress} (hc : Clearing γ g)
    (herror : ∀ e g', g'.began = g.began → Q (.error e) g')
    (hQ : ∀ g', g'.began = g.began → g'.healed = true ∨ g'.passed = true → Q (.ok none) g')
    (hJ : ∀ next progress g', Clearing γ g' → g'.began = g.began → J (.scan γ next progress) g') :
    protocol.wp J Q (scanLoop cfg γ cursor progress) g := by
  refine wp_idle rfl fun ended => ?_
  cases ended with
  | true => exact wp_clearRemoteDone hc.sampled herror hQ
  | false =>
    refine wp_idle rfl fun page => ?_
    rcases page with e | ⟨keys, next⟩
    · exact wp_clearRemoteDone hc.sampled herror hQ
    · refine wp_bind (wp_unlinkAll hc (fun done g' hbegan hc' => ?_) _ _)
      have herror' : ∀ e g'', g''.began = g'.began → Q (.error e) g'' := fun e g'' h =>
        herror e g'' (h.trans hbegan)
      have hQ' : ∀ g'', g''.began = g'.began → g''.healed = true ∨ g''.passed = true →
          Q (.ok none) g'' := fun g'' h => hQ g'' (h.trans hbegan)
      rcases done with ⟨progress', _ | e⟩
      · split_ifs
        · exact wp_clearRemoteDone hc'.sampled herror' hQ'
        · exact hJ next progress' g' hc' hbegan
      · exact wp_clearRemoteDone hc'.sampled herror' hQ'

end

end Ghost

/-! ### The outline -/

/-- The ghost it begins with. -/
def Op.ghost (op : Op K V) (t : ℕ) : Ghost K :=
  .new t (match op with | .set _ _ _ => true | _ => false)

/-- What is known when it returns. -/
def Returned : Op K V → Result K V → Ghost K → Prop
  | .invalidateLocal k, .ok _, g => g.visited = some k
  | .clearLocal, .ok _, g => g.healed = true
  | .clear, .ok _, g => g.healed = true ∨ g.passed = true
  | _, _, _ => True

/-- What is known in its loop. -/
def AtPlace : Op K V → Place K V → Ghost K → Prop
  | .get k, .get k' c, g => k' = k ∧ Ghost.Working k c g
  | .getOrLoad k ttl, .load k' ttl' c _, g => k' = k ∧ ttl' = ttl ∧ Ghost.Working k c g
  | .set k v ttl, .set k' v' ttl' c, g =>
    k' = k ∧ v' = v ∧ ttl' = ttl ∧ Ghost.Working k c g ∧ g.writes = true
  | .delete k, .delete k' c, g => k' = k ∧ Ghost.Working k c g
  | .clear, .scan γ _ _, g => Ghost.Clearing γ g
  | _, _, _ => False

/-- **The outline**: the protocol and the invariant. -/
def outline [DecidableEq K] :
    Conc.Outline (Act K V) Ans (Place K V) (Result K V) (Shared K V) (Op K V) (Ghost K) where
  proto := protocol
  inv := Inv
  ghost := Op.ghost
  loop := fun op t l g => g.began = t ∧ AtPlace op l g
  post := fun op t r g => g.began = t ∧ Returned op r g

section

variable {cfg : Config K} {t : ℕ} {k : K}

theorem Ghost.wp_entry {J : Place K V → Ghost K → Prop} {Q : Result K V → Ghost K → Prop}
    {g : Ghost K} {place : ℕ → Place K V} (hg : g.holder = ⟨none, false⟩) (hlease : g.lease = .none)
    (hfetched : g.fetched = none) (hQ : ∀ r g', g'.began = g.began → Q r g')
    (hJ : ∀ c g', Ghost.Working k c g' → g'.began = g.began → g'.writes = g.writes →
      J (place c) g') :
    protocol.wp J Q (do
      let c ← act (.acquire k)
      let taken ← acquireToken k c
      if taken then .goto (place c) else finish k c false (.error .context)) g := by
  have hholder : ∀ t s c, (g.after t s (.acquire k : Act K V) c).holder = ⟨some (k, c), false⟩ :=
    fun t s c => by rw [after, hg]
  refine wp_act hg fun t s c _ => ?_
  refine wp_bind (wp_acquireToken (hholder t s c) hfetched ?_ ?_)
  · exact hJ c _ ⟨rfl, hlease, hfetched⟩ rfl rfl
  · exact wp_finish (hholder t s c) fun g' hbegan _ => hQ _ g' hbegan

open Ghost

theorem wp_get [DecidableEq K] :
    protocol.wp ((outline (V := V)).loop (.get k) t) (outline.post (.get k) t) (get cfg k)
      (Op.ghost (.get k : Op K V) t) := by
  refine Ghost.wp_validateCall (fun e => ⟨rfl, trivial⟩) ?_
  refine wp_bind (wp_localGet rfl fun found => ?_)
  rcases found with e | _ | item
  · exact ⟨rfl, trivial⟩
  · exact Ghost.wp_entry rfl rfl rfl (fun _ _ hbegan => ⟨hbegan, trivial⟩)
      fun c g' hw hbegan _ => ⟨hbegan, rfl, hw⟩
  · exact ⟨rfl, trivial⟩

theorem wp_getOrLoad {ttl : ℤ} [DecidableEq K] :
    protocol.wp ((outline (V := V)).loop (.getOrLoad k ttl) t) (outline.post (.getOrLoad k ttl) t)
      (getOrLoad cfg k ttl) (Op.ghost (.getOrLoad k ttl : Op K V) t) := by
  refine Ghost.wp_validateCall (fun e => ⟨rfl, trivial⟩) ?_
  split_ifs with httl
  · exact ⟨rfl, trivial⟩
  refine wp_bind (wp_localGet rfl fun found => ?_)
  rcases found with e | _ | item
  · exact ⟨rfl, trivial⟩
  · refine Ghost.wp_act rfl fun _ _ c _ => wp_idle rfl fun joined => ?_
    rcases joined with ⟨f, _ | _⟩
    · exact wp_idle rfl fun _ => Ghost.wp_finish rfl fun _ hbegan _ => ⟨hbegan, trivial⟩
    · refine wp_bind (Ghost.wp_acquireToken rfl rfl ?_ ?_)
      · exact ⟨rfl, rfl, rfl, rfl, rfl, rfl⟩
      · exact wp_publish rfl fun _ _ hbegan => ⟨hbegan, trivial⟩
  · exact ⟨rfl, trivial⟩

theorem wp_set {v : V} {ttl : ℤ} [DecidableEq K] :
    protocol.wp (outline.loop (.set k v ttl) t) (outline.post (.set k v ttl) t) (set cfg k v ttl)
      (Op.ghost (.set k v ttl) t) := by
  refine Ghost.wp_validateCall (fun e => ⟨rfl, trivial⟩) ?_
  split_ifs with httl
  · exact ⟨rfl, trivial⟩
  exact Ghost.wp_entry rfl rfl rfl (fun _ _ hbegan => ⟨hbegan, trivial⟩)
    fun c g' hw hbegan hwrites => ⟨hbegan, rfl, rfl, rfl, hw, hwrites⟩

theorem wp_delete [DecidableEq K] :
    protocol.wp ((outline (V := V)).loop (.delete k) t) (outline.post (.delete k) t)
      (delete cfg k) (Op.ghost (.delete k : Op K V) t) := by
  refine Ghost.wp_validateCall (fun e => ⟨rfl, trivial⟩) ?_
  exact Ghost.wp_entry rfl rfl rfl (fun _ _ hbegan => ⟨hbegan, trivial⟩)
    fun c g' hw hbegan _ => ⟨hbegan, rfl, hw⟩

theorem wp_clear [DecidableEq K] :
    protocol.wp ((outline (V := V) (K := K)).loop .clear t) (outline.post .clear t) clear
      (Op.ghost (.clear : Op K V) t) := by
  refine wp_idle rfl fun ended => ?_
  cases ended with
  | true => exact ⟨rfl, trivial⟩
  | false =>
    refine Ghost.wp_act ⟨rfl, rfl⟩ fun _ _ γ _ => wp_idle rfl fun ended => ?_
    cases ended with
    | true =>
      exact wp_clearRemoteDone rfl (fun _ _ hbegan => ⟨hbegan, trivial⟩)
        fun _ hbegan hdone => ⟨hbegan, hdone⟩
    | false => exact ⟨rfl, rfl, rfl, rfl, rfl⟩

/-- **Every method keeps to the protocol.** -/
theorem wp_program [DecidableEq K] (op : Op K V) :
    protocol.wp (outline.loop op t) (outline.post op t) (op.program cfg) (op.ghost t) := by
  cases op with
  | get k => exact wp_get
  | getOrLoad k ttl => exact wp_getOrLoad
  | set k v ttl => exact wp_set
  | delete k => exact wp_delete
  | invalidateLocal k =>
    exact wp_invalidateLocal rfl rfl rfl (fun _ _ hbegan => ⟨hbegan, trivial⟩)
      fun r g' hbegan hvisited => ⟨hbegan, by cases r with
        | ok _ => exact hvisited
        | error _ => trivial⟩
  | clearLocal =>
    exact wp_clearLocal (fun _ _ hbegan => ⟨hbegan, trivial⟩)
      fun _ hbegan hhealed => ⟨hbegan, hhealed⟩
  | clear => exact wp_clear

/-- **So does every loop.** -/
theorem wp_place [DecidableEq K] (op : Op K V) (l : Place K V) (g : Ghost K)
    (h : outline.loop op t l g) :
    protocol.wp (outline.loop op t) (outline.post op t) (l.program cfg) g := by
  obtain ⟨rfl, hat⟩ := h
  cases op <;> cases l <;> first | exact False.elim hat | skip
  case get.get k k' c =>
    obtain ⟨rfl, hw⟩ := hat
    exact wp_getLoop (fun _ _ hbegan => ⟨hbegan, trivial⟩) hw fun _ hw' hbegan => ⟨hbegan, rfl, hw'⟩
  case getOrLoad.load k ttl k' ttl' c f =>
    obtain ⟨rfl, rfl, hw⟩ := hat
    exact wp_loadLoop (fun _ _ hbegan => ⟨hbegan, trivial⟩)
      (fun _ hw' hbegan => ⟨hbegan, rfl, rfl, hw'⟩) hw
  case set.set k v ttl k' v' ttl' c =>
    obtain ⟨rfl, rfl, rfl, hw, hwrites⟩ := hat
    exact Ghost.wp_setLoop (fun _ _ hbegan => ⟨hbegan, trivial⟩) hw hwrites
      fun _ hw' hbegan hwrites' => ⟨hbegan, rfl, rfl, rfl, hw', hwrites'⟩
  case delete.delete k k' c =>
    obtain ⟨rfl, hw⟩ := hat
    exact Ghost.wp_deleteLoop (fun _ _ hbegan => ⟨hbegan, trivial⟩) hw
      fun _ hw' hbegan => ⟨hbegan, rfl, hw'⟩
  case clear.scan γ cursor progress =>
    exact wp_scanLoop hat (fun _ _ hbegan => ⟨hbegan, trivial⟩)
      (fun _ hbegan hdone => ⟨hbegan, hdone⟩) fun _ _ _ hc hbegan => ⟨hbegan, hc⟩

end

section

variable [DecidableEq K] {now : ℕ} {s s' : Shared K V} {gs : List (Ghost K)}

omit [DecidableEq K] in
theorem Inv.idle (h : Inv now s gs) : Inv (now + 1) s gs where
  registry_ok := h.registry_ok
  active_eq := h.active_eq
  moved_le := h.moved_le.trans (Nat.le_succ _)
  taken_le := fun k => (h.taken_le k).trans (Nat.le_succ _)
  healed_le := h.healed_le
  healthy := h.healthy
  tier_ok := h.tier_ok
  tier_set := h.tier_set
  ghost_ok := fun g hg => (h.ghost_ok g hg).advance (.refl s) h.healed_le (fun _ _ _ => rfl)
    (h.active_pos hg)

omit [DecidableEq K] in
theorem Inv.begin (h : Inv now s gs) (op : Op K V) : Inv (now + 1) s (gs ++ [op.ghost now]) where
  registry_ok := by
    rw [List.map_append]
    exact h.registry_ok.append
  active_eq := by
    rw [List.countP_append, h.active_eq]
    rfl
  moved_le := h.idle.moved_le
  taken_le := h.idle.taken_le
  healed_le := h.healed_le
  healthy := h.healthy
  tier_ok := h.tier_ok
  tier_set := fun k item hk hnone => (h.tier_set k item hk hnone).imp_right
    fun ⟨g, hg, hwrites⟩ => ⟨g, List.mem_append_left _ hg, hwrites⟩
  ghost_ok := Lts.forall_mem_concat h.idle.ghost_ok
    (by constructor <;> simp [Op.ghost, Ghost.new, Stage.lease])

theorem Inv.env (h : Inv now s gs) {e : Env K V} (he : Env.apply s e = some s') :
    Inv (now + 1) s' gs := by
  cases e with
  | remote k v =>
    cases he
    have hidle := h.idle
    exact { hidle with
      ghost_ok := fun g hg => (h.ghost_ok g hg).advance
        (.of_state_eq rfl rfl rfl (fun _ => .inl rfl) fun _ _ hk => hk) h.healed_le
        (fun _ _ _ => rfl) (h.active_pos hg) }
  | expire k =>
    cases he
    have hidle := h.idle
    have hsub : ∀ k' item, update s.tier k none k' = some item →
        s.tier k' = some item := fun k' item hk' => by
      rw [update_apply] at hk'
      split_ifs at hk'
      exact hk'
    exact { hidle with
      tier_ok := fun k' item hk' => h.tier_ok k' item (hsub k' item hk')
      tier_set := fun k' item hk' => h.tier_set k' item (hsub k' item hk')
      ghost_ok := fun g hg => (h.ghost_ok g hg).advance
        (.of_state_eq rfl rfl rfl (fun _ => .inl rfl) fun _ k' hk' => by
          change update s.tier k none k' = none
          rw [update_apply, hk', ite_self]) h.healed_le
        (fun _ _ _ => rfl) (h.active_pos hg) }

/-- **The outline is one of the cache.** -/
theorem outline_valid (cfg : Config K) : (outline (V := V)).Valid (machine cfg) where
  start := fun op _ => wp_program op
  body := fun op _ l g hl => wp_place op l g hl
  begin := fun op _ _ _ h => h.begin op
  idle := fun _ _ _ h => h.idle
  env := fun _ _ _ _ _ h he => h.env he
  act := fun _ _ _ _ _ _ _ _ _ h hg ha hexec =>
    ⟨_, ⟨(did_of_exec hexec).possible, rfl⟩, h.act hg ha (did_of_exec hexec)⟩

end

end Bluetape.RedisValue
