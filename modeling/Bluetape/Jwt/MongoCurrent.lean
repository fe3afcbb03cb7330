import Mathlib.Data.List.Perm.Subperm
import Bluetape.Jwt.Mongo

/-!
# The current key of the Mongo repository

Two things are asked of the repository when no call is in progress: that there are not more keys
than its capacity, and that the current document names a key that is stored.

* **The first holds whatever the calls do.** Every call lists the keys after it has stored its own,
  so the last one to list has seen all that are left. The invariant says it without time
  (`Covered`): there are as many kids as the capacity – those that the last listing has kept – such
  that every other key is one of a call that has not listed yet, or is about to be deleted.
* **The second does not.** A call lists the keys and keeps its own, but neither the key that is
  current by then nor one that is about to be. If those are old enough they are deleted
  (`current_key_deleted`). `usable_current` says that nothing else can go wrong.
-/

namespace Bluetape.Jwt.Mongo

open GoString Conc Lts Protocol Option List

/-! ### Which keys are kept -/

/-- **What the loop of `trim` keeps**: the key of the call, and not more others than it may. -/
theorem exists_retained (keepKID : Text) (otherCapacity n : ℕ) (docs : List KeyChain)
    (hn : n ≤ otherCapacity) : ∃ kids : List Text, kids.length ≤ otherCapacity - n ∧
      ∀ k ∈ docs, k.kid = keepKID ∨ k.kid ∈ kids ∨
        k.kid ∈ removeIDs keepKID otherCapacity n docs := by
  induction docs generalizing n with
  | nil => exact ⟨[], Nat.zero_le _, nofun⟩
  | cons doc docs ih =>
    rw [removeIDs]
    split_ifs with hkeep hlt
    · obtain ⟨kids, hlen, hall⟩ := ih n hn
      exact ⟨kids, hlen, forall_mem_cons.mpr ⟨.inl hkeep, hall⟩⟩
    · obtain ⟨kids, hlen, hall⟩ := ih (n + 1) hlt
      refine ⟨doc.kid :: kids, ?_, forall_mem_cons.mpr ⟨.inr (.inl mem_cons_self), ?_⟩⟩
      · rw [length_cons]
        omega
      · exact fun k hk => (hall k hk).imp_right (Or.imp_left (mem_cons_of_mem _))
    · obtain ⟨kids, hlen, hall⟩ := ih n hn
      refine ⟨kids, hlen, forall_mem_cons.mpr ⟨.inr (.inr mem_cons_self), ?_⟩⟩
      exact fun k hk => (hall k hk).imp_right (Or.imp_right (mem_cons_of_mem _))

theorem exists_kept {cfg : Config} (hcap : 0 < cfg.capacity) {keepKID : Text}
    (hkeep : keepKID ≠ []) (docs : List KeyChain) :
    ∃ kids : List Text, kids.length ≤ cfg.capacity ∧
      ∀ k ∈ docs, k.kid ∈ kids ∨ k.kid ∈ removals cfg keepKID docs := by
  obtain ⟨kids, hlen, hall⟩ :=
    exists_retained keepKID (cfg.capacity - 1) 0 docs (Nat.zero_le _)
  refine ⟨keepKID :: kids, ?_, fun k hk => ?_⟩
  · rw [length_cons]
    omega
  · rw [removals, if_neg hkeep]
    rcases hall k hk with h | h | h
    · exact .inl (h ▸ mem_cons_self)
    · exact .inl (mem_cons_of_mem _ h)
    · exact .inr h

/-! ### Where a call is -/

/-- Where a call is. -/
inductive Phase where
  | outside
  | created (kid : Text)
  | stored (kid : Text)
  | moved (kid : Text)
  | lost (kid : Text)
  | listed (removed : List Text)

namespace Phase

/-- The kid of its key. -/
def kid : Phase → Option Text
  | .created kid => some kid
  | .stored kid => some kid
  | .moved kid => some kid
  | .lost kid => some kid
  | _ => none

/-- The kid of the key, if the current document was not moved to it. -/
def unpointed : Phase → Option Text
  | .created kid => some kid
  | .stored kid => some kid
  | .lost kid => some kid
  | _ => none

/-- The call has to deal with this key. -/
def Covers (kid : Text) : Phase → Prop
  | .stored k => k = kid
  | .moved k => k = kid
  | .lost k => k = kid
  | .listed removed => kid ∈ removed
  | _ => False

/-- It has to deal with none. -/
def Quiet : Phase → Prop
  | .outside => True
  | .created _ => True
  | .listed [] => True
  | _ => False

theorem Quiet.not_covers {p : Phase} (h : p.Quiet) (kid : Text) : ¬p.Covers kid := by
  cases p with
  | outside | created k => exact id
  | listed removed =>
    cases removed with
    | nil => exact not_mem_nil
    | cons r rs => exact absurd h id
  | _ => exact absurd h id

theorem kid_of_unpointed {p : Phase} {kid : Text} (h : p.unpointed = some kid) :
    p.kid = some kid := by
  cases p with
  | outside | moved k | listed removed => cases h
  | _ => exact h

end Phase

/-- What is known of a call: where it is, and whether it has seen a current document. -/
structure Ghost where
  phase : Phase
  pointed : Bool

section Outline

variable (cfg : Config)

/-- Where an action leads. -/
def Phase.next (p : Phase) : (a : Action) → a.Answer → Phase
  | .create, .ok (some key) => .created key.kid
  | .upsertKey key, _ => .stored key.kid
  | .insertCurrent kid, won => if won = true then .moved kid else .lost kid
  | .swapCurrent _ kid, won => if won = true then .moved kid else .lost kid
  | .setCurrent kid, _ => .moved kid
  | .deleteKey _, _ => .outside
  | .listKeys, docs => .listed (removals cfg (p.kid.getD []) docs)
  | .deleteMany _, _ => .outside
  | _, _ => p

/-- The call sees that there is a current document, or makes one. -/
def Seen : (a : Action) → a.Answer → Bool
  | .findCurrent, x => Option.isSome x
  | .insertCurrent _, _ => true
  | .swapCurrent .., _ => true
  | .setCurrent _, _ => true
  | _, _ => false

/-- **Which actions a call may do, where it is.** -/
def Allowed (g : Ghost) : Action → Prop
  | .create => g.phase = .outside
  | .upsertKey key => g.phase = .created key.kid
  | .insertCurrent kid => g.phase = .stored kid
  | .swapCurrent _ kid => g.phase = .stored kid ∧ g.pointed = true
  | .setCurrent kid => g.phase = .stored kid
  | .deleteKey kid => g.phase = .lost kid
  | .listKeys => ∃ kid, g.phase = .moved kid ∧ kid ≠ []
  | .deleteMany kids => g.phase = .listed kids
  | _ => g.phase.Quiet

/-- A key that was created is valid. -/
def Told : (a : Action) → a.Answer → Prop
  | .create, .ok (some key) => validKID key.kid = true
  | _, _ => True

/-- **The protocol of the calls.** -/
def protocol : Protocol Action Action.Answer Collection Ghost where
  allowed := Allowed
  move _ _ g a x g' := g' = ⟨g.phase.next cfg a x, g.pointed || Seen a x⟩ ∧ Told a x

/-- A program keeps to it. -/
abbrev Follows {ρ : Type} (Q : ρ → Ghost → Prop) (p : Program ρ) (g : Ghost) : Prop :=
  (protocol cfg).wp (fun _ _ => False) Q p g

end Outline

variable {cfg : Config}

/-! ### Calls that only read -/

/-- It has not moved. -/
structure Ghost.Same (g g' : Ghost) : Prop where
  phase : g'.phase = g.phase
  pointed : g.pointed = true → g'.pointed = true

theorem Ghost.Same.refl (g : Ghost) : g.Same g := ⟨rfl, id⟩

variable {g g' : Ghost}

theorem Ghost.Same.trans {g'' : Ghost} (h : g.Same g') (h' : g'.Same g'') : g.Same g'' :=
  ⟨h'.phase.trans h.phase, fun hp => h'.pointed (h.pointed hp)⟩

theorem Ghost.Same.quiet (h : g.Same g') (hq : g.phase.Quiet) : g'.phase.Quiet := by
  rw [h.phase]
  exact hq

theorem follows_read {ρ : Type} {Q : ρ → Ghost → Prop} {a : Action} {f : a.Answer → Program ρ}
    (ha : Allowed g a) (hnext : ∀ x, g.phase.next cfg a x = g.phase)
    (h : ∀ x g', g.Same g' → (Seen a x = true → g'.pointed = true) → Follows cfg Q (f x) g') :
    Follows cfg Q (act a >>= f) g := by
  refine wp_call_bind ha ?_
  rintro t s x g' ⟨rfl, -⟩
  refine h x _ ⟨hnext x, fun hp => ?_⟩ fun hs => ?_
  · rw [hp]
    rfl
  · rw [hs, Bool.or_true]

section

variable (hq : g.phase.Quiet)
include hq

/-- The look at the context. -/
theorem follows_ready {ρ : Type} {Q : ρ → Ghost → Prop} {r : ρ} {p : Program ρ}
    (hended : ∀ g', g.Same g' → Q r g') (h : ∀ g', g.Same g' → Follows cfg Q p g') :
    Follows cfg Q (act .requireContext >>= fun ready => if !ready then return r else p) g := by
  refine follows_read hq (fun _ => rfl) fun ready g' hsame _ => ?_
  cases ready with
  | false => exact hended g' hsame
  | true => exact h g' hsame

theorem follows_findPayload (kid : Text) (now : ℤ) :
    Follows cfg (fun _ g' => g.Same g') (findPayload kid now) g := by
  refine follows_read hq (fun _ => rfl) fun doc g' hsame _ => ?_
  cases doc with
  | none => exact hsame
  | some key =>
    dsimp only
    split_ifs
    · exact hsame
    · exact hsame

theorem follows_currentKID :
    Follows cfg (fun r g' => g.Same g' ∧ ∀ kid, r = .ok kid → g'.pointed = true) currentKID g := by
  refine follows_read hq (fun _ => rfl) fun doc g' hsame hseen => ?_
  cases doc with
  | none => exact ⟨hsame, nofun⟩
  | some kid =>
    dsimp only
    split_ifs
    · exact ⟨hsame, nofun⟩
    · exact ⟨hsame, fun _ _ => hseen rfl⟩

theorem follows_currentPayload (now : ℤ) :
    Follows cfg (fun r g' => g.Same g' ∧ (r.2 ≠ [] → g'.pointed = true)) (currentPayload now)
      g := by
  refine wp_bind_of (follows_currentKID hq) ?_
  rintro kid g₁ ⟨hsame₁, hpointed⟩
  cases kid with
  | error f => exact ⟨hsame₁, fun h => absurd rfl h⟩
  | ok kid =>
    refine wp_bind_of (follows_findPayload (hsame₁.quiet hq) kid now) ?_
    intro key g₂ hsame₂
    exact ⟨hsame₁.trans hsame₂, fun _ => hsame₂.pointed (hpointed kid rfl)⟩

theorem follows_current (now : ℤ) : Follows cfg (fun _ g' => g.Same g') (current now) g := by
  refine follows_ready hq (fun _ hsame => hsame) fun g₁ hsame₁ => ?_
  refine wp_bind_of (follows_currentKID (hsame₁.quiet hq)) ?_
  rintro kid g₂ ⟨hsame₂, -⟩
  have hsame := hsame₁.trans hsame₂
  cases kid with
  | error f => exact hsame
  | ok kid =>
    exact wp_mono (fun _ _ h => hsame.trans h) (follows_findPayload (hsame.quiet hq) kid now)

theorem follows_find (kid : Text) (now : ℤ) :
    Follows cfg (fun _ g' => g.Same g') (find kid now) g := by
  refine follows_ready hq (fun _ hsame => hsame) fun g₁ hsame₁ => ?_
  split_ifs
  · exact wp_mono (fun _ _ h => hsame₁.trans h) (follows_findPayload (hsame₁.quiet hq) kid now)
  · exact hsame₁

theorem follows_currentAfterCAS (now : ℤ) (n : ℕ) :
    Follows cfg (fun _ g' => g.Same g') (currentAfterCAS now n) g := by
  induction n generalizing g with
  | zero => exact Ghost.Same.refl g
  | succ n ih =>
    refine wp_bind_of (follows_current hq now) ?_
    intro key g₁ hsame₁
    cases key with
    | ok key => exact hsame₁
    | error f =>
      cases f with
      | keyNotFound =>
        refine follows_read (hsame₁.quiet hq) (fun _ => rfl) fun slept g₂ hsame₂ _ => ?_
        have hsame := hsame₁.trans hsame₂
        cases slept with
        | false => exact hsame
        | true => exact wp_mono (fun _ _ h => hsame.trans h) (ih (hsame.quiet hq))
      | _ => exact hsame₁

/-! ### Calls that store a key -/

end

/-- The call has this key, or none. -/
def Ghost.Has (g : Ghost) (key : Option KeyChain) : Prop :=
  g.phase.Quiet ∧ ∀ k, key = some k → g.phase = .created k.kid ∧ validKID k.kid = true

theorem Ghost.Has.same {key : Option KeyChain} (h : g.Has key) (hsame : g.Same g') :
    g'.Has key := by
  refine ⟨hsame.quiet h.1, fun k hk => ?_⟩
  rw [hsame.phase]
  exact h.2 k hk

theorem follows_createWithContext (hout : g.phase = .outside) :
    Follows cfg (fun r g' => g'.phase.Quiet ∧ (g.pointed = true → g'.pointed = true) ∧
      ∀ key, r = .ok key → g'.Has key) createWithContext g := by
  have hq : g.phase.Quiet := hout ▸ trivial
  refine follows_ready hq
    (fun g₁ hsame₁ => ⟨hsame₁.quiet hq, hsame₁.pointed, nofun⟩) fun g₁ hsame₁ => ?_
  refine wp_call_bind (hsame₁.phase.trans hout) ?_
  rintro t s key g₂ ⟨rfl, htold⟩
  have hpointed : g.pointed = true → (g₁.pointed || Seen .create key) = true := fun hp =>
    Bool.or_eq_true_iff.mpr (.inl (hsame₁.pointed hp))
  cases key with
  | error f => exact ⟨hsame₁.quiet hq, hpointed, nofun⟩
  | ok key =>
    have hhas : (⟨g₁.phase.next cfg .create (.ok key), g₁.pointed || false⟩ : Ghost).Has key := by
      cases key with
      | none => exact ⟨hsame₁.quiet hq, nofun⟩
      | some key =>
        refine ⟨trivial, ?_⟩
        rintro k ⟨rfl⟩
        exact ⟨rfl, htold⟩
    refine follows_ready hhas.1 (fun g₃ hsame₃ => ⟨hsame₃.quiet hhas.1,
      fun hp => hsame₃.pointed (hpointed hp), nofun⟩) fun g₃ hsame₃ => ?_
    refine ⟨hsame₃.quiet hhas.1, fun hp => hsame₃.pointed (hpointed hp), ?_⟩
    rintro key ⟨rfl⟩
    exact hhas.same hsame₃

theorem follows_prepareStoreDocument {key : Option KeyChain} (hhas : g.Has key) (now : ℤ) :
    Follows cfg (fun r g' => g.Same g' ∧ ∀ k, r = .ok k → key = some k)
      (prepareStoreDocument cfg key now) g := by
  have hfail : ∀ (f : Failure) (g₁ : Ghost), g.Same g₁ → g.Same g₁ ∧
      ∀ k, (Except.error f : Except Failure KeyChain) = .ok k → key = some k :=
    fun f g₁ hsame => ⟨hsame, nofun⟩
  refine follows_ready hhas.1 (hfail _) fun g₁ hsame₁ => ?_
  cases key with
  | none => exact hfail _ g₁ hsame₁
  | some key =>
    dsimp only
    split_ifs
    · exact hfail _ g₁ hsame₁
    · exact hfail _ g₁ hsame₁
    · refine follows_ready (hsame₁.quiet hhas.1) (fun g₂ hsame₂ => hfail _ g₂ (hsame₁.trans hsame₂))
        fun g₂ hsame₂ => ⟨hsame₁.trans hsame₂, ?_⟩
      rintro k ⟨rfl⟩
      rfl

variable {kid : Text}

/-- **Trimming**, after the current document was moved. -/
theorem follows_trim (hmoved : g.phase = .moved kid) (hkid : kid ≠ []) :
    Follows cfg (fun _ g' => g'.phase.Quiet) (trim cfg kid) g := by
  refine wp_call_bind ⟨kid, hmoved, hkid⟩ ?_
  rintro t s docs g₁ ⟨rfl, -⟩
  have hphase : g.phase.next cfg .listKeys docs = .listed (removals cfg kid docs) := by
    rw [hmoved]
    rfl
  split_ifs with hnil
  · rw [hphase, hnil]
    exact trivial
  · refine ⟨hphase, ?_⟩
    rintro t s x g₂ ⟨rfl, -⟩
    exact trivial

theorem ne_nil_of_validKID (h : validKID kid = true) : kid ≠ [] := by
  rintro rfl
  exact nomatch h

theorem follows_moved (hmoved : g.phase = .moved kid) (hkid : kid ≠ []) (now : ℤ) :
    Follows cfg (fun _ g' => g'.phase.Quiet) (do trim cfg kid; findPayload kid now) g := by
  refine wp_bind_of (follows_trim hmoved hkid) ?_
  intro _ g₁ hq₁
  exact wp_mono (fun _ _ h => h.quiet hq₁) (follows_findPayload hq₁ kid now)

theorem follows_store {key : Option KeyChain} (hhas : g.Has key) (now : ℤ) :
    Follows cfg (fun _ g' => g'.phase.Quiet) (store cfg key now) g := by
  refine wp_bind_of (follows_prepareStoreDocument hhas now) ?_
  rintro doc g₁ ⟨hsame₁, hdoc⟩
  cases doc with
  | error f => exact hsame₁.quiet hhas.1
  | ok k =>
    obtain ⟨hcreated, hvalid⟩ := hhas.2 k (hdoc k rfl)
    refine wp_call_bind (hsame₁.phase.trans hcreated) ?_
    rintro t s x g₂ ⟨rfl, -⟩
    simp only [hvalid, Bool.not_true, if_neg Bool.false_ne_true]
    refine wp_call_bind rfl ?_
    rintro t' s' x' g₃ ⟨rfl, -⟩
    exact follows_moved rfl (ne_nil_of_validKID hvalid) now

theorem follows_compareAndSetCurrent {observedKID kid : Text} (hstored : g.phase = .stored kid)
    (hobs : observedKID ≠ [] → g.pointed = true) :
    Follows cfg (fun won g' => g'.phase = if won = true then .moved kid else .lost kid)
      (compareAndSetCurrent observedKID kid) g := by
  by_cases hnil : observedKID = []
  · rw [compareAndSetCurrent, if_pos hnil]
    refine ⟨hstored, ?_⟩
    rintro t s won g' ⟨rfl, -⟩
    rfl
  · rw [compareAndSetCurrent, if_neg hnil]
    refine ⟨⟨hstored, hobs hnil⟩, ?_⟩
    rintro t s won g' ⟨rfl, -⟩
    rfl

theorem follows_storeCAS {observedKID : Text} {key : Option KeyChain} (hhas : g.Has key)
    (hobs : observedKID ≠ [] → g.pointed = true) (now : ℤ) :
    Follows cfg (fun _ g' => g'.phase.Quiet) (storeCAS cfg observedKID key now) g := by
  refine wp_bind_of (follows_prepareStoreDocument hhas now) ?_
  rintro doc g₁ ⟨hsame₁, hdoc⟩
  cases doc with
  | error f => exact hsame₁.quiet hhas.1
  | ok k =>
    obtain ⟨hcreated, hvalid⟩ := hhas.2 k (hdoc k rfl)
    refine wp_call_bind (hsame₁.phase.trans hcreated) ?_
    rintro t s x g₂ ⟨rfl, -⟩
    have hobs₂ : observedKID ≠ [] → (g₁.pointed || Seen (.upsertKey k) x) = true := by
      intro hne
      rw [hsame₁.pointed (hobs hne)]
      rfl
    refine wp_bind_of (follows_compareAndSetCurrent rfl hobs₂) ?_
    intro won g₃ hphase
    cases won with
    | true => exact follows_moved hphase (ne_nil_of_validKID hvalid) now
    | false =>
      refine wp_call_bind hphase ?_
      rintro t' s' x' g₄ ⟨rfl, -⟩
      exact wp_mono (fun _ _ h => h.quiet trivial)  (follows_currentAfterCAS (by trivial) now 10)

theorem follows_forcedRotate (hout : g.phase = .outside) (hasCreate : Bool) (now : ℤ) :
    Follows cfg (fun _ g' => g'.phase.Quiet) (forcedRotate cfg hasCreate now) g := by
  have hq : g.phase.Quiet := hout ▸ trivial
  refine follows_ready hq (fun g₁ hsame₁ => hsame₁.quiet hq) fun g₁ hsame₁ => ?_
  cases hasCreate with
  | false => exact hsame₁.quiet hq
  | true =>
    refine wp_bind_of (follows_createWithContext (hsame₁.phase.trans hout)) ?_
    rintro key g₂ ⟨hq₂, -, hhas⟩
    cases key with
    | error f => exact hq₂
    | ok key => exact follows_store (hhas key rfl) now

theorem follows_rotate (hout : g.phase = .outside) (hasCreate : Bool) (now : ℤ) :
    Follows cfg (fun _ g' => g'.phase.Quiet) (rotate cfg hasCreate now) g := by
  have hq : g.phase.Quiet := hout ▸ trivial
  refine follows_ready hq (fun g₁ hsame₁ => hsame₁.quiet hq) fun g₁ hsame₁ => ?_
  cases hasCreate with
  | false => exact hsame₁.quiet hq
  | true =>
    refine wp_bind_of (follows_currentPayload (hsame₁.quiet hq) now) ?_
    rintro ⟨key, observedKID⟩ g₂ ⟨hsame₂, hobs⟩
    have hsame := hsame₁.trans hsame₂
    cases key with
    | ok key => exact hsame.quiet hq
    | error f =>
      dsimp only
      split_ifs
      · exact hsame.quiet hq
      · refine wp_bind_of (follows_createWithContext (hsame.phase.trans hout)) ?_
        rintro key g₃ ⟨hq₃, hpointed, hhas⟩
        cases key with
        | error f => exact hq₃
        | ok key => exact follows_storeCAS (hhas key rfl) (fun hne => hpointed (hobs hne)) now

/-! ### What holds of the collection -/

/-- **All keys but as many as the capacity are a call's to deal with.** -/
def Covered (cfg : Config) (s : Collection) (gs : List Ghost) : Prop :=
  ∃ kids : List Text, kids.length ≤ cfg.capacity ∧
    ∀ k ∈ s.keys, k.kid ∈ kids ∨ ∃ g ∈ gs, g.phase.Covers k.kid

/-- **What holds of the collection and the calls.** -/
structure Inv (cfg : Config) (s : Collection) (gs : List Ghost) : Prop where
  nodup : (s.keys.map KeyChain.kid).Nodup
  covered : Covered cfg s gs
  kid_used : ∀ g ∈ gs, ∀ kid, g.phase.kid = some kid → kid ∈ s.used
  distinct : ∀ (i j : ℕ) (g g' : Ghost) (kid : Text), gs[i]? = some g → gs[j]? = some g' →
    g.phase.kid = some kid → g'.phase.kid = some kid → i = j
  current_used : ∀ kid, s.current = some kid → kid ∈ s.used
  unpointed : ∀ g ∈ gs, ∀ kid, g.phase.unpointed = some kid → s.current ≠ some kid
  pointed : ∀ g ∈ gs, g.pointed = true → s.current ≠ none

/-- What a step changes. -/
structure Change (s : Collection) (g : Ghost) (s' : Collection) (g' : Ghost) : Prop where
  nodup : (s'.keys.map KeyChain.kid).Nodup
  used : ∀ kid ∈ s.used, kid ∈ s'.used
  kid : ∀ kid, g'.phase.kid = some kid → g.phase.kid = some kid ∨ (kid ∉ s.used ∧ kid ∈ s'.used)
  /-- The current document is as it was, or is moved to the key of the call. -/
  current : s'.current = s.current ∨
    ∃ kid, s'.current = some kid ∧ g.phase.kid = some kid ∧ g'.phase.unpointed ≠ some kid
  unpointed : ∀ kid, g'.phase.unpointed = some kid →
    g.phase.unpointed = some kid ∨ kid ∉ s.used
  pointed : g'.pointed = true → g.pointed = true ∨ s'.current ≠ none

variable {s : Collection} {gs : List Ghost}

theorem Inv.other (h : Inv cfg s gs) {i j : ℕ} (hi : gs[i]? = some g) (hj : gs[j]? = some g')
    (hne : i ≠ j) (hkid : g.phase.kid = some kid) : g'.phase.kid ≠ some kid :=
  fun hkid' => hne (h.distinct i j g g' kid hi hj hkid hkid')

/-- **What holds survives such a change.** -/
theorem Inv.change {s' : Collection} (h : Inv cfg s gs) {i : ℕ} (hg : gs[i]? = some g)
    (hchange : Change s g s' g') (hcovered : Covered cfg s' (gs.set i g')) :
    Inv cfg s' (gs.set i g') := by
  -- A ghost after the action is the new one at its place, or an old one at another.
  have hmem : ∀ g₁ ∈ gs.set i g', g₁ = g' ∨ ∃ j, j ≠ i ∧ gs[j]? = some g₁ := by
    intro g₁ hg₁
    obtain ⟨j, hj⟩ := mem_iff_getElem?.mp hg₁
    exact (getElem?_set_cases hj).imp And.right fun h => ⟨j, h⟩
  have hsome : s.current ≠ none → s'.current ≠ none := by
    intro hcur
    rcases hchange.current with heq | ⟨kid, heq, -⟩
    · exact heq ▸ hcur
    · exact heq ▸ some_ne_none kid
  have hownused : ∀ kid, g.phase.kid = some kid → kid ∈ s.used :=
    h.kid_used g (mem_of_getElem? hg)
  refine ⟨hchange.nodup, hcovered, ?_, ?_, ?_, ?_, ?_⟩
  · intro g₁ hg₁ kid hkid
    rcases hmem g₁ hg₁ with rfl | ⟨j, -, hj⟩
    · rcases hchange.kid kid hkid with hold | hnew
      · exact hchange.used kid (hownused kid hold)
      · exact hnew.2
    · exact hchange.used kid (h.kid_used g₁ (mem_of_getElem? hj) kid hkid)
  · intro j₁ j₂ g₁ g₂ kid h₁ h₂ hkid₁ hkid₂
    have hnew : ∀ j g₀, j ≠ i → gs[j]? = some g₀ → g₀.phase.kid = some kid →
        g'.phase.kid ≠ some kid := by
      intro j g₀ hne hj hkid hkid'
      rcases hchange.kid kid hkid' with hold | hfresh
      · exact h.other hg hj (Ne.symm hne) hold hkid
      · exact hfresh.1 (h.kid_used g₀ (mem_of_getElem? hj) kid hkid)
    rcases getElem?_set_cases h₁ with ⟨rfl, rfl⟩ | ⟨hne₁, hold₁⟩
    · rcases getElem?_set_cases h₂ with ⟨rfl, -⟩ | ⟨hne₂, hold₂⟩
      · rfl
      · exact absurd hkid₁ (hnew j₂ g₂ hne₂ hold₂ hkid₂)
    · rcases getElem?_set_cases h₂ with ⟨rfl, rfl⟩ | ⟨-, hold₂⟩
      · exact absurd hkid₂ (hnew j₁ g₁ hne₁ hold₁ hkid₁)
      · exact h.distinct j₁ j₂ g₁ g₂ kid hold₁ hold₂ hkid₁ hkid₂
  · intro kid hcur
    rcases hchange.current with heq | ⟨kid', heq, hown, -⟩
    · exact hchange.used kid (h.current_used kid (heq ▸ hcur))
    · obtain rfl := mem_unique heq hcur
      exact hchange.used _ (hownused _ hown)
  · intro g₁ hg₁ kid hun hcur
    rcases hmem g₁ hg₁ with rfl | ⟨j, hne, hj⟩
    · rcases hchange.current with heq | ⟨kid', heq, -, hnot⟩
      · rw [heq] at hcur
        rcases hchange.unpointed kid hun with hold | hfresh
        · exact h.unpointed g (mem_of_getElem? hg) kid hold hcur
        · exact hfresh (h.current_used kid hcur)
      · obtain rfl := mem_unique heq hcur
        exact hnot hun
    · rcases hchange.current with heq | ⟨kid', heq, hown, -⟩
      · exact h.unpointed g₁ (mem_of_getElem? hj) kid hun (heq ▸ hcur)
      · obtain rfl := mem_unique heq hcur
        exact h.other hg hj (Ne.symm hne) hown (Phase.kid_of_unpointed hun)
  · intro g₁ hg₁ hp
    rcases hmem g₁ hg₁ with rfl | ⟨j, -, hj⟩
    · rcases hchange.pointed hp with hold | hnew
      · exact hsome (h.pointed g (mem_of_getElem? hg) hold)
      · exact hnew
    · exact hsome (h.pointed g₁ (mem_of_getElem? hj) hp)

theorem Covered.set {s' : Collection} (h : Covered cfg s gs) {i : ℕ} (hg : gs[i]? = some g)
    (hkeys : ∀ k ∈ s'.keys, k ∈ s.keys ∨ g'.phase.Covers k.kid)
    (hcovers : ∀ k ∈ s'.keys, g.phase.Covers k.kid → g'.phase.Covers k.kid) :
    Covered cfg s' (gs.set i g') := by
  obtain ⟨kids, hlen, hall⟩ := h
  refine ⟨kids, hlen, fun k hk => ?_⟩
  rcases hkeys k hk with hold | hnew
  · exact (hall k hold).imp_right (exists_mem_set hg (hcovers k hk))
  · exact .inr ⟨g', mem_of_getElem? (getElem?_set_of_some hg), hnew⟩

/-! ### One action -/

section Act

variable {s s' : Collection} {gs : List Ghost} {i : ℕ} {g : Ghost}

theorem Inv.read (h : Inv cfg s gs) (hg : gs[i]? = some g) (hphase : g'.phase = g.phase)
    (hpointed : g'.pointed = true → g.pointed = true ∨ s.current ≠ none) :
    Inv cfg s (gs.set i g') := by
  refine h.change hg ⟨h.nodup, fun _ hkid => hkid, fun kid hkid => .inl (hphase ▸ hkid), .inl rfl,
    fun kid hun => .inl (hphase ▸ hun), hpointed⟩ (h.covered.set hg (fun k hk => .inl hk) ?_)
  intro k _ hcov
  rw [hphase]
  exact hcov

theorem nodup_filter (p : KeyChain → Bool) {keys : List KeyChain}
    (h : (keys.map KeyChain.kid).Nodup) : ((keys.filter p).map KeyChain.kid).Nodup :=
  h.sublist (filter_sublist.map _)

variable {b : Bool} {kid : Text}

section

variable (h : Inv cfg s gs) (hg : gs[i]? = some g)
include h hg

theorem Inv.create (hb : b = true → g.pointed = true) (hout : g.phase = .outside)
    (hfresh : kid ∉ s.used) :
    Inv cfg { s with used := kid :: s.used } (gs.set i ⟨.created kid, b⟩) := by
  refine h.change hg ⟨h.nodup, fun _ hkid => mem_cons_of_mem _ hkid, ?_, .inl rfl, ?_,
    fun hp => .inl (hb hp)⟩ (h.covered.set hg (fun k hk => .inl hk) ?_)
  · rintro kid' ⟨rfl⟩
    exact .inr ⟨hfresh, mem_cons_self⟩
  · rintro kid' ⟨rfl⟩
    exact .inr hfresh
  · intro k _ hcov
    rw [hout] at hcov
    exact absurd hcov id

theorem Inv.upsertKey (hb : b = true → g.pointed = true) {key : KeyChain}
    (hcreated : g.phase = .created key.kid) :
    Inv cfg (s.upsertKey key) (gs.set i ⟨.stored key.kid, b⟩) := by
  refine h.change hg ⟨?_, fun _ hkid => hkid, ?_, .inl rfl, ?_, fun hp => .inl (hb hp)⟩
    (h.covered.set hg (fun k hk => ?_) ?_)
  · refine nodup_cons.mpr ⟨fun hmem => ?_, nodup_filter _ h.nodup⟩
    obtain ⟨k, hk, hkid⟩ := mem_map.mp hmem
    exact of_decide_eq_true (mem_filter.mp hk).2 hkid
  · rintro kid' ⟨rfl⟩
    exact .inl (congrArg Phase.kid hcreated)
  · rintro kid' ⟨rfl⟩
    exact .inl (congrArg Phase.unpointed hcreated)
  · rcases mem_cons.mp hk with rfl | hold
    · exact .inr rfl
    · exact .inl (mem_filter.mp hold).1
  · intro k _ hcov
    rw [hcreated] at hcov
    exact absurd hcov id

/-- The current document is moved to the key of a call. -/
theorem Inv.move (hstored : g.phase = .stored kid) :
    Inv cfg { s with current := some kid } (gs.set i ⟨.moved kid, b⟩) := by
  refine h.change hg ⟨h.nodup, fun _ hkid => hkid, ?_, .inr ⟨kid, rfl, ?_, nofun⟩,
    nofun, fun _ => .inr (some_ne_none kid)⟩
    (h.covered.set hg (fun k hk => .inl hk) fun k _ hcov => by rwa [hstored] at hcov)
  · rintro kid' ⟨rfl⟩
    exact .inl (congrArg Phase.kid hstored)
  · exact congrArg Phase.kid hstored

/-- It is not, for there is another already. -/
theorem Inv.lose (hstored : g.phase = .stored kid) (hcurrent : s.current ≠ none) :
    Inv cfg s (gs.set i ⟨.lost kid, b⟩) := by
  refine h.change hg ⟨h.nodup, fun _ hkid => hkid, ?_, .inl rfl, ?_, fun _ => .inr hcurrent⟩
    (h.covered.set hg (fun k hk => .inl hk) fun k _ hcov => by rwa [hstored] at hcov)
  · rintro kid' ⟨rfl⟩
    exact .inl (congrArg Phase.kid hstored)
  · rintro kid' ⟨rfl⟩
    exact .inl (congrArg Phase.unpointed hstored)

theorem Inv.deleteKeys (hb : b = true → g.pointed = true) {kids : List Text}
    (hkids : ∀ kid, g.phase.Covers kid → kid ∈ kids) :
    Inv cfg (s.deleteKeys kids) (gs.set i ⟨.outside, b⟩) := by
  refine h.change hg ⟨nodup_filter _ h.nodup, fun _ hkid => hkid, nofun,
    .inl rfl, nofun, fun hp => .inl (hb hp)⟩
    (h.covered.set hg (fun k hk => .inl (mem_filter.mp hk).1) ?_)
  intro k hk hcov
  exact absurd (hkids k.kid hcov) (of_decide_eq_true (mem_filter.mp hk).2)

end

/-- **The keys are listed**: from now on those count that are not to be removed. -/
theorem Inv.list (hcap : 0 < cfg.capacity) (h : Inv cfg s gs) (hg : gs[i]? = some g)
    (hb : b = true → g.pointed = true) (hkid : kid ≠ []) :
    Inv cfg s (gs.set i ⟨.listed (removals cfg kid s.listKeys), b⟩) := by
  refine h.change hg ⟨h.nodup, fun _ hkid => hkid, nofun, .inl rfl,
    nofun, fun hp => .inl (hb hp)⟩ ?_
  obtain ⟨kids, hlen, hall⟩ := exists_kept hcap hkid s.listKeys
  refine ⟨kids, hlen, fun k hk => ?_⟩
  rcases hall k ((mem_insertionSort Listed).mpr hk) with hkept | hremoved
  · exact .inl hkept
  · exact .inr ⟨_, mem_of_getElem? (getElem?_set_of_some hg), hremoved⟩

/-- An update that moves the current document, or finds another one. -/
theorem exec_insertCurrent {c : Choice} {x : Bool}
    (h : exec s (.insertCurrent kid) c = some (x, s')) :
    (x = true ∧ s' = { s with current := some kid }) ∨ (s.current ≠ none ∧ x = false ∧ s' = s) := by
  simp only [exec] at h
  cases hcur : s.current with
  | none =>
    rw [hcur] at h
    cases h
    exact .inl ⟨rfl, rfl⟩
  | some kid' =>
    rw [hcur] at h
    cases h
    exact .inr ⟨some_ne_none kid', rfl, rfl⟩

theorem exec_swapCurrent {observed : Text} {c : Choice} {x : Bool}
    (h : exec s (.swapCurrent observed kid) c = some (x, s')) :
    (x = true ∧ s' = { s with current := some kid }) ∨ (x = false ∧ s' = s) := by
  simp only [exec] at h
  split_ifs at h <;> cases h
  · exact .inl ⟨rfl, rfl⟩
  · exact .inr ⟨rfl, rfl⟩

/-- **Every action of a call keeps what holds.** -/
theorem Inv.act (hcap : 0 < cfg.capacity) (h : Inv cfg s gs) (hg : gs[i]? = some g) {a : Action}
    (ha : Allowed g a) {c : Choice} {x : a.Answer} (hexec : exec s a c = some (x, s')) :
    Told a x ∧ Inv cfg s' (gs.set i ⟨g.phase.next cfg a x, g.pointed || Seen a x⟩) := by
  have hor : (g.pointed || false) = true → g.pointed = true :=
    fun hp => by rwa [Bool.or_false] at hp
  have hread : Inv cfg s (gs.set i ⟨g.phase, g.pointed || false⟩) :=
    h.read hg rfl fun hp => .inl (hor hp)
  cases a with
  | requireContext | findKey | sleep =>
    cases hexec
    exact ⟨trivial, hread⟩
  | findCurrent =>
    cases hexec
    refine ⟨trivial, h.read hg rfl fun hp => (Bool.or_eq_true_iff.mp hp).imp_right ?_⟩
    exact isSome_iff_ne_none.mp
  | create =>
    rcases c with _ | _ | _ | key
    · cases hexec
    · cases hexec
      exact ⟨trivial, hread⟩
    · cases hexec
      exact ⟨trivial, hread⟩
    · obtain ⟨⟨hvalid, hfresh⟩, ⟨⟩⟩ := ite_none_right_eq_some.mp hexec
      exact ⟨hvalid, h.create hg hor ha hfresh⟩
  | upsertKey key =>
    cases hexec
    exact ⟨trivial, h.upsertKey hg hor ha⟩
  | insertCurrent kid =>
    rcases exec_insertCurrent hexec with ⟨rfl, rfl⟩ | ⟨hcur, rfl, rfl⟩
    · exact ⟨trivial, h.move hg ha⟩
    · exact ⟨trivial, h.lose hg ha hcur⟩
  | swapCurrent observed kid =>
    rcases exec_swapCurrent hexec with ⟨rfl, rfl⟩ | ⟨rfl, rfl⟩
    · exact ⟨trivial, h.move hg ha.1⟩
    · exact ⟨trivial, h.lose hg ha.1 (h.pointed g (mem_of_getElem? hg) ha.2)⟩
  | setCurrent kid =>
    cases hexec
    exact ⟨trivial, h.move hg ha⟩
  | deleteKey kid =>
    cases hexec
    refine ⟨trivial, h.deleteKeys hg hor fun kid' hcov => ?_⟩
    rw [show g.phase = .lost kid from ha] at hcov
    exact mem_singleton.mpr (Eq.symm hcov)
  | listKeys =>
    cases hexec
    obtain ⟨kid, hmoved, hkid⟩ := ha
    refine ⟨trivial, ?_⟩
    rw [hmoved]
    exact h.list hcap hg hor hkid
  | deleteMany kids =>
    cases hexec
    refine ⟨trivial, h.deleteKeys hg hor fun kid' hcov => ?_⟩
    rwa [show g.phase = .listed kids from ha] at hcov

end Act

/-! ### The outline -/

/-- What holds of the collection and the calls, at any time. -/
def outline (cfg : Config) :
    Outline Action Action.Answer Empty (Except Failure KeyChain) Collection Op Ghost where
  proto := protocol cfg
  inv _ s gs := Inv cfg s gs
  ghost _ _ := ⟨.outside, false⟩
  loop _ _ _ _ := False
  post _ _ _ g := g.phase.Quiet

theorem Inv.begin (h : Inv cfg s gs) : Inv cfg s (gs ++ [⟨.outside, false⟩]) := by
  have hget : ∀ (j : ℕ) (g : Ghost) (kid : Text),
      (gs ++ [(⟨.outside, false⟩ : Ghost)])[j]? = some g → g.phase.kid = some kid →
      gs[j]? = some g := by
    intro j g kid hj hkid
    rcases getElem?_concat hj with hold | ⟨-, rfl⟩
    · exact hold
    · cases hkid
  refine ⟨h.nodup, ?_, ?_, ?_, h.current_used, ?_, ?_⟩
  · obtain ⟨kids, hlen, hall⟩ := h.covered
    refine ⟨kids, hlen, fun k hk => (hall k hk).imp_right ?_⟩
    rintro ⟨g, hg, hcov⟩
    exact ⟨g, mem_append_left _ hg, hcov⟩
  · exact forall_mem_concat h.kid_used nofun
  · intro j₁ j₂ g₁ g₂ kid h₁ h₂ hkid₁ hkid₂
    exact h.distinct j₁ j₂ g₁ g₂ kid (hget j₁ g₁ kid h₁ hkid₁) (hget j₂ g₂ kid h₂ hkid₂) hkid₁ hkid₂
  · exact forall_mem_concat h.unpointed nofun
  · exact forall_mem_concat h.pointed nofun

theorem Inv.new (cfg : Config) : Inv cfg .new [] where
  nodup := nodup_nil
  covered := ⟨[], Nat.zero_le _, nofun⟩
  kid_used g hg := nomatch hg
  distinct i j g g' kid hi := by cases hi
  current_used kid hcur := by cases hcur
  unpointed g hg := nomatch hg
  pointed g hg := nomatch hg

/-- **The outline is one of the repository.** -/
theorem outline_valid (hcap : 0 < cfg.capacity) : (outline cfg).Valid (machine cfg) where
  start op t := by
    cases op with
    | current now =>
      exact wp_mono (fun _ _ h => h.quiet trivial) (follows_current (by trivial) now)
    | find kid now =>
      exact wp_mono (fun _ _ h => h.quiet trivial) (follows_find (by trivial) kid now)
    | rotate hasCreate now => exact follows_rotate rfl hasCreate now
    | forcedRotate hasCreate now => exact follows_forcedRotate rfl hasCreate now
  body op t l := nomatch l
  begin op t s gs h := Inv.begin h
  idle t s gs h := h
  env t s gs e := nomatch e
  act t s gs i g a c x s' h hg ha hexec := by
    obtain ⟨htold, hinv⟩ := Inv.act hcap h hg ha hexec
    exact ⟨_, ⟨rfl, htold⟩, hinv⟩

/-! ### The current key -/

/-- A key has this kid. -/
def Collection.Has (s : Collection) (kid : Text) : Prop := ∃ k ∈ s.keys, k.kid = kid

/-- **The current key is stored**, and so are those that calls are about to make current. -/
structure Usable (s : Collection) (gs : List Ghost) : Prop where
  current : ∀ kid, s.current = some kid → s.Has kid
  stored : ∀ g ∈ gs, ∀ kid, g.phase = .stored kid → s.Has kid

theorem Collection.Has.upsertKey (h : s.Has kid) (key : KeyChain) : (s.upsertKey key).Has kid := by
  obtain ⟨k, hk, hkid⟩ := h
  by_cases hsame : k.kid = key.kid
  · exact ⟨key, mem_cons_self, hsame.symm.trans hkid⟩
  · exact ⟨k, mem_cons_of_mem _ (mem_filter.mpr ⟨hk, decide_eq_true hsame⟩), hkid⟩

theorem Collection.Has.deleteKeys (h : s.Has kid) {kids : List Text} (hnot : kid ∉ kids) :
    (s.deleteKeys kids).Has kid := by
  obtain ⟨k, hk, rfl⟩ := h
  exact ⟨k, mem_filter.mpr ⟨hk, decide_eq_true hnot⟩, rfl⟩

section Usable

variable {s s' : Collection} {gs : List Ghost} {i : ℕ} {g g' : Ghost}

section

variable (h : Usable s gs)
include h

theorem Usable.set (hg' : ∀ kid, g'.phase ≠ .stored kid)
    (hcurrent : ∀ kid, s'.current = some kid → s'.Has kid)
    (hkeys : ∀ j g₁ kid, j ≠ i → gs[j]? = some g₁ → g₁.phase = .stored kid → s.Has kid →
      s'.Has kid) :
    Usable s' (gs.set i g') := by
  refine ⟨hcurrent, fun g₁ hg₁ kid hstored => ?_⟩
  obtain ⟨j, hj⟩ := mem_iff_getElem?.mp hg₁
  rcases getElem?_set_cases hj with ⟨-, rfl⟩ | ⟨hne, hj⟩
  · exact absurd hstored (hg' kid)
  · exact hkeys j g₁ kid hne hj hstored (h.stored g₁ (mem_of_getElem? hj) kid hstored)

/-- Keys are deleted, and neither the current one nor one that is about to be is among them. -/
theorem Usable.deleteKeys {kids : List Text} (hg' : ∀ kid, g'.phase ≠ .stored kid)
    (hcurrent : ∀ kid ∈ kids, s.current ≠ some kid)
    (hstored : ∀ j g₁ kid, j ≠ i → gs[j]? = some g₁ → g₁.phase = .stored kid → kid ∉ kids) :
    Usable (s.deleteKeys kids) (gs.set i g') := by
  refine h.set hg' (fun kid hcur => ?_) fun j g₁ kid hne hj hphase hhas => ?_
  · exact (h.current kid hcur).deleteKeys fun hmem => hcurrent kid hmem hcur
  · exact hhas.deleteKeys (hstored j g₁ kid hne hj hphase)

theorem Usable.move (hg : gs[i]? = some g) {kid : Text} (hstored : g.phase = .stored kid)
    (hg' : ∀ kid, g'.phase ≠ .stored kid) :
    Usable { s with current := some kid } (gs.set i g') := by
  refine h.set hg' (fun kid' hcur => ?_) fun j g₁ kid' _ _ _ hhas => hhas
  cases hcur
  exact h.stored g (mem_of_getElem? hg) kid hstored

/-- Where a call is that is not about to make a key current, after it has read. -/
theorem Usable.read (hg' : ∀ kid, g'.phase ≠ .stored kid) : Usable s (gs.set i g') :=
  h.set hg' h.current fun _ _ _ _ _ _ hhas => hhas

end

theorem Phase.Quiet.ne_stored {p : Phase} (h : p.Quiet) (kid : Text) : p ≠ .stored kid := by
  rintro rfl
  exact h

/-- **An action keeps the current key stored**, unless it deletes it, or one that is about to
become it. -/
theorem Usable.act (hinv : Inv cfg s gs) (h : Usable s gs) (hg : gs[i]? = some g) {a : Action}
    (ha : Allowed g a) {c : Choice} {x : a.Answer} (hexec : exec s a c = some (x, s'))
    (hsafe : ∀ kids, a = .deleteMany kids → ∀ kid ∈ kids, s.current ≠ some kid ∧
      ∀ g₁ ∈ gs, g₁.phase ≠ .stored kid) {b : Bool} :
    Usable s' (gs.set i ⟨g.phase.next cfg a x, b⟩) := by
  cases a with
  | requireContext | findCurrent | findKey kid | sleep =>
    cases hexec
    exact h.read (Phase.Quiet.ne_stored ha)
  | create =>
    have hout : ∀ kid, g.phase ≠ .stored kid := fun kid hkid => nomatch hkid.symm.trans ha
    rcases c with _ | _ | _ | key
    · cases hexec
    · cases hexec
      exact h.read hout
    · cases hexec
      exact h.read hout
    · obtain ⟨-, ⟨⟩⟩ := ite_none_right_eq_some.mp hexec
      exact h.set nofun h.current fun _ _ _ _ _ _ hhas => hhas
  | upsertKey key =>
    cases hexec
    refine ⟨fun kid hcur => (h.current kid hcur).upsertKey key, forall_mem_set ?_ ?_⟩
    · exact fun g₁ hg₁ kid hstored => (h.stored g₁ hg₁ kid hstored).upsertKey key
    · rintro kid ⟨rfl⟩
      exact ⟨key, mem_cons_self, rfl⟩
  | insertCurrent kid =>
    rcases exec_insertCurrent hexec with ⟨rfl, rfl⟩ | ⟨-, rfl, rfl⟩
    · exact h.move hg ha nofun
    · exact h.read nofun
  | swapCurrent observed kid =>
    rcases exec_swapCurrent hexec with ⟨rfl, rfl⟩ | ⟨rfl, rfl⟩
    · exact h.move hg ha.1 nofun
    · exact h.read nofun
  | setCurrent kid =>
    cases hexec
    exact h.move hg ha nofun
  | deleteKey kid =>
    cases hexec
    -- The key is the call's own: it never was the current one, and other calls have others.
    have hlost : g.phase = .lost kid := ha
    refine h.deleteKeys nofun ?_ ?_
    · intro kid' hmem
      rw [mem_singleton.mp hmem]
      exact hinv.unpointed g (mem_of_getElem? hg) kid (congrArg Phase.unpointed hlost)
    · intro j g₁ kid' hne hj hstored hmem
      rw [mem_singleton.mp hmem] at hstored
      exact hinv.other hg hj (Ne.symm hne) (congrArg Phase.kid hlost) (congrArg Phase.kid hstored)
  | listKeys =>
    cases hexec
    exact h.read nofun
  | deleteMany kids =>
    cases hexec
    refine h.deleteKeys nofun ?_ ?_
    · exact fun kid hmem => (hsafe kids rfl kid hmem).1
    · exact fun j g₁ kid _ hj hstored hmem =>
        (hsafe kids rfl kid hmem).2 g₁ (mem_of_getElem? hj) hstored

end Usable

/-! ### Runs -/

/-- The calls and the collection. -/
abbrev State := Pool Action Action.Answer Empty (Except Failure KeyChain) Collection Op

/-- A step. -/
abbrev Event := Lts.Event State (Label Empty Op Choice)

/-- The document is moved to this kid. -/
def Action.pointsTo (kid : Text) : Action → Bool
  | .insertCurrent k => decide (k = kid)
  | .swapCurrent _ k => decide (k = kid)
  | .setCurrent k => decide (k = kid)
  | _ => false

/-- **A call deletes a key that matters**: `DeleteMany` of `trim` removes the current key, or one
that a call is about to make the current one. -/
def harms (ev : Event) : Bool :=
  match ev.before.action ev.label with
  | some (.deleteMany kids) => kids.any fun kid =>
      decide (ev.before.shared.current = some kid) ||
        ev.before.threads.any fun th => th.prog.next.any (Action.pointsTo kid)
  | _ => false

/-- A key is stored. -/
def stores (ev : Event) : Bool :=
  match ev.before.action ev.label with
  | some (.upsertKey _) => true
  | _ => false

/-- No call is in progress. -/
def Idle (y : State) : Prop := ∀ th ∈ y.threads, th.prog.result ≠ none deriving Decidable

/-- A call that has stored its key moves the current document to it, or tries to. -/
theorem pointsTo_of_stored {a : Action} (ha : Allowed g a) (hstored : g.phase = .stored kid) :
    a.pointsTo kid = true := by
  have hne : ∀ p : Phase, (∀ k, p ≠ .stored k) → g.phase ≠ p :=
    fun p hp heq => hp kid (heq.symm.trans hstored)
  cases a with
  | insertCurrent k => exact decide_eq_true (Phase.stored.inj (Eq.trans (Eq.symm ha) hstored))
  | swapCurrent o k => exact decide_eq_true (Phase.stored.inj (Eq.trans (Eq.symm ha.1) hstored))
  | setCurrent k => exact decide_eq_true (Phase.stored.inj (Eq.trans (Eq.symm ha) hstored))
  | create | upsertKey key | deleteKey k => exact absurd ha (hne _ nofun)
  | listKeys =>
    obtain ⟨k, hmoved, -⟩ := ha
    exact absurd hmoved (hne _ nofun)
  | deleteMany kids => exact absurd ha (hne _ nofun)
  | _ => exact absurd hstored (Phase.Quiet.ne_stored ha kid)

theorem seen_of_pointsTo {a : Action} (h : a.pointsTo kid = true) (x : a.Answer) :
    Seen a x = true := by
  cases a with
  | insertCurrent k | swapCurrent o k | setCurrent k => rfl
  | _ => exact nomatch h

variable {y : State}

theorem next_of_stored (h : (outline cfg).Holds y gs) (hg : g ∈ gs)
    (hstored : g.phase = .stored kid) :
    ∃ th ∈ y.threads, th.prog.next.any (Action.pointsTo kid) = true := by
  obtain ⟨i, hi⟩ := mem_iff_getElem?.mp hg
  have hlt : i < y.threads.length := h.length_eq ▸ (List.getElem?_eq_some_iff.mp hi).1
  have hth : y.threads[i]? = some y.threads[i] := getElem?_eq_getElem hlt
  refine ⟨y.threads[i], getElem_mem hlt, ?_⟩
  have hwp := h.follows i _ g hth hi
  generalize y.threads[i].prog = p at hwp
  cases p with
  | done r => exact absurd hstored (Phase.Quiet.ne_stored hwp kid)
  | goto l => exact nomatch l
  | act a k => exact pointsTo_of_stored hwp.1 hstored

/-- **What a history says of the calls and the collection.** -/
structure Kept (h : List Event) (y : State) (gs : List Ghost) : Prop where
  pointed : (∃ ev ∈ h, stores ev = true) →
    ∃ g ∈ gs, g.pointed = true ∨ ∃ kid, g.phase = .stored kid
  usable : (∀ ev ∈ h, harms ev = false) → Usable y.shared gs

theorem Kept.step {h : List Event} {y y' : State} {gs' : List Ghost} {l : Label Empty Op Choice}
    (hgs : (outline cfg).Holds y gs) (hK : Kept h y gs) (hstep : (machine cfg).step y l = some y')
    (hmoves : (outline cfg).Moves (machine cfg) y l gs gs') : Kept (⟨y, l, y'⟩ :: h) y' gs' := by
  cases l with
  | begin op =>
    cases hstep
    obtain rfl := hmoves
    refine ⟨?_, fun hsafe => ?_⟩
    · intro hex
      rcases or_exists_of_exists_mem_cons hex with hstores | hold
      · cases hstores
      · obtain ⟨g, hg, hp⟩ := hK.pointed hold
        exact ⟨g, mem_append_left _ hg, hp⟩
    · have hold := hK.usable (forall_mem_of_forall_mem_cons hsafe)
      exact ⟨hold.current, forall_mem_concat hold.stored nofun⟩
  | jump j =>
    obtain ⟨th, l, -⟩ := Machine.of_step_jump hstep
    cases l
  | env e => cases e
  | run j c =>
    obtain ⟨th, a, k, x, s', hth, hprog, hexec, rfl⟩ := Machine.of_step_run hstep
    obtain ⟨a', g, x', s'', g', haction, hg, ha, hexec', ⟨rfl, -⟩, rfl⟩ := hmoves
    have haction' : y.action (.run j c : Label Empty Op Choice) = some a := by
      simp [Pool.action, hth, hprog, Prog.next]
    obtain rfl := mem_unique haction' haction
    obtain ⟨rfl, -⟩ := Prod.mk.inj (mem_unique hexec hexec')
    refine ⟨fun hex => ?_, fun hsafe => ?_⟩
    · rcases or_exists_of_exists_mem_cons hex with hstores | hold
      · -- The key that is stored is now the call's to make the current one.
        refine ⟨_, mem_of_getElem? (getElem?_set_of_some hg), .inr ?_⟩
        simp only [stores, haction] at hstores
        cases a with
        | upsertKey key => exact ⟨key.kid, rfl⟩
        | _ => cases hstores
      · refine exists_mem_set hg (fun hp => .inl (Bool.or_eq_true_iff.mpr ?_)) (hK.pointed hold)
        refine hp.imp_right ?_
        rintro ⟨kid, hstored⟩
        exact seen_of_pointsTo (pointsTo_of_stored ha hstored) x
    · have hold := hK.usable (forall_mem_of_forall_mem_cons hsafe)
      refine hold.act hgs.inv hg ha hexec fun kids heq kid hkid => ?_
      have hharm := hsafe _ mem_cons_self
      simp only [harms, haction, heq, List.any_eq_false, Bool.or_eq_true, not_or,
        decide_eq_true_eq] at hharm
      refine ⟨(hharm kid hkid).1, fun g₁ hg₁ hstored => (hharm kid hkid).2 ?_⟩
      obtain ⟨th', hth', hnext⟩ := next_of_stored hgs hg₁ hstored
      exact any_eq_true.mpr ⟨th', hth', hnext⟩

/-- **What holds in all runs.** -/
theorem exists_kept_run (hcap : 0 < cfg.capacity) {h : List Event}
    (hr : Run (machine cfg).step (.new .new) h y) :
    ∃ gs, (outline cfg).Holds y gs ∧ Kept h y gs := by
  induction hr with
  | nil =>
    refine ⟨[], Outline.holds_new (Inv.new cfg), ?_, fun _ => ⟨?_, ?_⟩⟩
    · rintro ⟨ev, hev, -⟩
      exact nomatch hev
    · exact nofun
    · exact nofun
  | snoc hr hstep ih =>
    obtain ⟨gs, hgs, hK⟩ := ih
    obtain ⟨gs', hgs', hmoves⟩ := (outline_valid hcap).step hgs hstep
    exact ⟨gs', hgs', hK.step hgs hstep hmoves⟩

theorem quiet_of_idle (h : (outline cfg).Holds y gs) (hidle : Idle y) (hg : g ∈ gs) :
    g.phase.Quiet := by
  obtain ⟨i, hi⟩ := mem_iff_getElem?.mp hg
  have hlt : i < y.threads.length := h.length_eq ▸ (List.getElem?_eq_some_iff.mp hi).1
  have hth : y.threads[i]? = some y.threads[i] := getElem?_eq_getElem hlt
  obtain ⟨r, hr⟩ := ne_none_iff_exists'.mp (hidle _ (getElem_mem hlt))
  obtain ⟨g', hg', hpost⟩ := h.post hth hr
  obtain rfl := mem_unique hi hg'
  exact hpost

theorem length_keys_le (h : (outline cfg).Holds y gs) (hidle : Idle y) :
    y.shared.keys.length ≤ cfg.capacity := by
  obtain ⟨kids, hlen, hall⟩ := h.inv.covered
  have hsub : y.shared.keys.map KeyChain.kid ⊆ kids := by
    intro kid hkid
    obtain ⟨k, hk, rfl⟩ := mem_map.mp hkid
    rcases hall k hk with hkept | ⟨g, hg, hcov⟩
    · exact hkept
    · exact absurd hcov ((quiet_of_idle h hidle hg).not_covers k.kid)
  calc y.shared.keys.length = (y.shared.keys.map KeyChain.kid).length := (length_map ..).symm
    _ ≤ kids.length := (h.inv.nodup.subperm hsub).length_le
    _ ≤ cfg.capacity := hlen

/-- **The repository keeps a usable current key**, unless a call deletes the key that is current,
or that another is about to make so: whenever no call is in progress and a key has been stored,
the current document names a key that is stored, and there are not more keys than the capacity.
That there is a current document, and the bound, hold in any case. -/
theorem usable_current (cfg : Config) (hcap : 2 ≤ cfg.capacity) (h : List Event) (y : State)
    (hr : Run (machine cfg).step (.new .new) h y) (hidle : Idle y)
    (hstored : ∃ ev ∈ h, stores ev = true) :
    (∃ kid, y.shared.current = some kid ∧
      ((∀ ev ∈ h, harms ev = false) → ∃ k ∈ y.shared.keys, k.kid = kid)) ∧
    y.shared.keys.length ≤ cfg.capacity := by
  obtain ⟨gs, hgs, hK⟩ := exists_kept_run (by omega) hr
  refine ⟨?_, length_keys_le hgs hidle⟩
  obtain ⟨g, hg, hp⟩ := hK.pointed hstored
  have hpointed : g.pointed = true := by
    rcases hp with hp | ⟨kid, hphase⟩
    · exact hp
    · exact absurd hphase (Phase.Quiet.ne_stored (quiet_of_idle hgs hidle hg) kid)
  obtain ⟨kid, hkid⟩ := ne_none_iff_exists'.mp (hgs.inv.pointed g hg hpointed)
  exact ⟨kid, hkid, fun hsafe => (hK.usable hsafe).current kid hkid⟩

/-! ### Two runs -/

namespace Pair

/-- Two keys. -/
def config : Config := ⟨2, fun _ => true⟩

/-- A key that does not expire. -/
def key (kid : String) (createdAt : ℤ) : KeyChain := ⟨ascii kid, ascii "HS256", createdAt, none, []⟩

/-- `ForcedRotate` is called, and the current document is moved to its key. -/
def storing (i : ℕ) (k : KeyChain) : List (Label Empty Op Choice) :=
  [.begin (.forcedRotate true 0), .run i .ok, .run i .ok, .run i (.created (some k)), .run i .ok,
    .run i .ok, .run i .ok, .run i .ok, .run i .ok]

/-- The keys are listed and others deleted, and the own is looked up. -/
def trimming (i : ℕ) : List (Label Empty Op Choice) := [.run i .ok, .run i .ok, .run i .ok]

end Pair

open Pair

/-- One call after another: the third deletes the oldest key. -/
theorem usable_current_serial :
    ∃ h y, Run (machine config).step (.new .new) h y ∧ Idle y ∧
      (∃ kid, y.shared.current = some kid ∧ ∃ k ∈ y.shared.keys, k.kid = kid) ∧
      y.shared.keys.length ≤ 2 := by
  obtain ⟨h, y, hr, hidle, hstored, hsafe⟩ := exists_run (machine config).step (.new .new)
    (storing 0 (key "k" 1000000) ++ [.run 0 .ok, .run 0 .ok] ++ storing 1 (key "a" 2000000) ++
      [.run 1 .ok, .run 1 .ok] ++ storing 2 (key "b" 3000000) ++ trimming 2)
    (fun h y => Idle y ∧ (∃ ev ∈ h, stores ev = true) ∧ ∀ ev ∈ h, harms ev = false)
    (by decide +kernel)
  obtain ⟨⟨kid, hkid, husable⟩, hlen⟩ :=
    usable_current config (by decide) h y hr hidle hstored
  exact ⟨h, y, hr, hidle, ⟨kid, hkid, husable hsafe⟩, hlen⟩

/-- **The current key is deleted.** Two calls store their keys, and the current document names the
second when the first lists the keys. The second key was created before the others, so the first
call deletes it; the second call does not find its own key, and in the end nobody finds the current
one. -/
theorem current_key_deleted :
    ∃ h y, Run (machine config).step (.new .new) h y ∧ Idle y ∧
      (∃ ev ∈ h, stores ev = true) ∧ y.shared.current = some (ascii "b") ∧
      ∀ k ∈ y.shared.keys, k.kid ≠ ascii "b" := by
  exact exists_run _ _
    (storing 0 (key "k" 20000000) ++ [.run 0 .ok, .run 0 .ok] ++ storing 1 (key "a" 10000000) ++
      storing 2 (key "b" 5000000) ++ trimming 1 ++ trimming 2) _
    (by decide +kernel)

end Bluetape.Jwt.Mongo
