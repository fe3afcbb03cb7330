import Bluetape.Library.Run

/-!
# The lifecycle of a Redis group elector

A `GroupElector` competes for one of several slots. Its lifecycle is that of the single
elector in `Bluetape.Leader.Lifecycle` with less bookkeeping: there is no generation, and
when a renewal fails the worker clears `owned`, `active`, `cancel` and `done` without
asking whether they are still its own. The question is whether what it reports and what it
renews agree: when no call is under way, is there a renewal worker – neither cancelled nor
returned – exactly if `owned` is set, and never two?

They need not agree. A `Resign` may give up waiting for its worker; a new `Campaign` then starts a
second worker; and when the first one's last renewal fails at last, it clears the fields of the
second, which goes on renewing a slot that the elector no longer reports
(`stale_loss_orphans_worker`). There are two ways a call or worker acts on fields that are not its
own:

* a worker that is not the current one fails while the elector is owned or a campaign is active
  (`StaleLoss`);
* a campaign that has succeeded, and was resigned before it returned, clears `active` for another
  campaign (`StaleClear`).

In the runs without these, the two agree (`renews_iff_owned`). What Redis answers is part of the
label of a step, so this holds whatever it answers.
-/

namespace Bluetape.Leader.Group

open Lts List

/-! ### The elector -/

structure Flags where
  owned : Bool
  active : Bool
  /-- `cancel` and `done`, which are set and cleared together: the worker they
  belong to. -/
  done : Option ℕ
  deriving DecidableEq, Repr

/-- All fields cleared: by a `Resign`, and by a worker whose renewal has failed. -/
def Flags.clear : Flags := ⟨false, false, none⟩

def Flags.clearCampaigning (f : Flags) : Flags :=
  if f.owned then f else { f with active := false }

/-- Where a `Campaign` is. -/
inductive CampaignPhase where
  | attempting
  /-- Acquired, about to set `owned`. -/
  | won
  /-- About to return with an error; `clearCampaigning` is deferred. -/
  | failed
  /-- About to return without an error; `clearCampaigning` is deferred. -/
  | succeeded
  deriving DecidableEq, Repr

/-- The campaign has set `active` and not handed it on. -/
def CampaignPhase.claims : CampaignPhase → Bool
  | .attempting | .won | .failed => true
  | .succeeded => false

/-- Where a `Resign` is. -/
inductive ResignPhase where
  | cancelling
  | waiting
  | releasing
  deriving DecidableEq, Repr

/-- A `Resign` that found the elector owned. -/
structure Resign where
  /-- `cancel` and `done`, as captured. -/
  done : Option ℕ
  phase : ResignPhase
  deriving DecidableEq, Repr

inductive WorkerPhase where
  | running
  | losing
  /-- Returned; `done` is closed. -/
  | returned
  deriving DecidableEq, Repr

structure Worker where
  cancelled : Bool
  phase : WorkerPhase
  deriving DecidableEq, Repr

def Worker.live (k : Worker) : Bool := !k.cancelled && decide (k.phase ≠ .returned)

/-- A group elector with everything that is under way on it. -/
structure GroupElector where
  flags : Flags
  campaigns : List CampaignPhase
  resigns : List Resign
  workers : List Worker
  deriving DecidableEq, Repr

def GroupElector.new : GroupElector := ⟨.clear, [], [], []⟩

/-- What Redis answers to `groupAcquireScript`. -/
inductive AcquireReply where
  | granted
  | denied
  | failed
  deriving DecidableEq, Repr

/-- What a `Campaign` does with the answer. -/
def afterAcquire : AcquireReply → CampaignPhase
  | .granted => .won
  | .denied => .attempting
  | .failed => .failed

/-- A step of the elector. A call is named by its position among those under way, and a
worker by its position among all. -/
inductive Action where
  /-- A `Campaign` begins. -/
  | beginCampaign
  | acquired (n : ℕ) (reply : AcquireReply)
  | abandon (n : ℕ)
  /-- A campaign sets `owned` and starts its worker. -/
  | own (n : ℕ)
  | clearCampaigning (n : ℕ)
  /-- A `Resign` starts. -/
  | resign
  | cancel (m : ℕ)
  | join (m : ℕ)
  /-- The context of a resign ends while it waits, and it returns. -/
  | giveUp (m : ℕ)
  | released (m : ℕ)
  | renewed (w : ℕ) (ok : Bool)
  /-- A worker whose renewal has failed clears the fields and returns. -/
  | lose (w : ℕ)
  | quit (w : ℕ)
  deriving DecidableEq, Repr

def cancelWorker (workers : List Worker) (done : Option ℕ) : List Worker :=
  match done with
  | none => workers
  | some w => workers.modify w fun k => { k with cancelled := true }

/-- The worker that a `Resign` waits for has returned, if there is one. -/
def joinable (workers : List Worker) (done : Option ℕ) : Bool :=
  match done with
  | none => true
  | some w => (workers[w]?).all fun k => decide (k.phase = .returned)

/-- **One step of a group elector.** -/
def step (e : GroupElector) : Action → Option GroupElector
  | .beginCampaign =>
    if e.flags.owned || e.flags.active then none
    else some { e with
      flags := { e.flags with active := true }
      campaigns := e.campaigns ++ [.attempting] }
  | .acquired n reply =>
    match e.campaigns[n]? with
    | some .attempting => some { e with campaigns := e.campaigns.set n (afterAcquire reply) }
    | _ => none
  | .abandon n =>
    match e.campaigns[n]? with
    | some .attempting => some { e with campaigns := e.campaigns.set n .failed }
    | _ => none
  | .own n =>
    match e.campaigns[n]? with
    | some .won => some { e with
        flags := ⟨true, false, some e.workers.length⟩
        campaigns := e.campaigns.set n .succeeded
        workers := e.workers ++ [⟨false, .running⟩] }
    | _ => none
  | .clearCampaigning n =>
    match e.campaigns[n]? with
    | some .failed | some .succeeded => some { e with
        flags := e.flags.clearCampaigning
        campaigns := e.campaigns.eraseIdx n }
    | _ => none
  | .resign =>
    if e.flags.owned then
      some { e with flags := .clear, resigns := e.resigns ++ [⟨e.flags.done, .cancelling⟩] }
    else none
  | .cancel m =>
    match e.resigns[m]? with
    | some ⟨done, .cancelling⟩ => some { e with
        resigns := e.resigns.set m ⟨done, .waiting⟩
        workers := cancelWorker e.workers done }
    | _ => none
  | .join m =>
    match e.resigns[m]? with
    | some ⟨done, .waiting⟩ =>
      if joinable e.workers done then
        some { e with resigns := e.resigns.set m ⟨done, .releasing⟩ }
      else none
    | _ => none
  | .giveUp m =>
    match e.resigns[m]? with
    | some ⟨some _, .waiting⟩ => some { e with resigns := e.resigns.eraseIdx m }
    | _ => none
  | .released m =>
    match e.resigns[m]? with
    | some ⟨_, .releasing⟩ => some { e with resigns := e.resigns.eraseIdx m }
    | _ => none
  | .renewed w ok =>
    match e.workers[w]? with
    | some ⟨cancelled, .running⟩ => some { e with
        workers := e.workers.set w ⟨cancelled, if ok then .running else .losing⟩ }
    | _ => none
  | .lose w =>
    match e.workers[w]? with
    | some ⟨cancelled, .losing⟩ => some { e with
        flags := .clear
        workers := e.workers.set w ⟨cancelled, .returned⟩ }
    | _ => none
  | .quit w =>
    match e.workers[w]? with
    | some ⟨true, .running⟩ => some { e with workers := e.workers.set w ⟨true, .returned⟩ }
    | _ => none

abbrev Ev : Type := Event GroupElector Action

/-! ### What is asked for -/

def Renews (e : GroupElector) (w : ℕ) : Prop := ∃ k, e.workers[w]? = some k ∧ k.live = true

/-- **The elector renews what it reports**: there is a live worker exactly if `owned` is
set, and there is at most one. -/
def RenewsIffOwned (e : GroupElector) : Prop :=
  ((∃ w, Renews e w) ↔ e.flags.owned = true) ∧ ∀ w w', Renews e w → Renews e w' → w = w'

def Quiescent (e : GroupElector) : Prop := e.campaigns = [] ∧ e.resigns = []

def Action.losing : Action → Option ℕ
  | .lose w => some w
  | _ => none

def Action.returning : Action → Option ℕ
  | .clearCampaigning n => some n
  | _ => none

/-- A worker that is not the current one clears fields that are in use. -/
def StaleLoss (ev : Ev) : Prop :=
  (ev.before.flags.owned = true ∨ ev.before.flags.active = true) ∧
    ∃ w ∈ ev.label.losing, ev.before.flags.done ≠ some w
  deriving Decidable

/-- A campaign that had succeeded clears `active` for another. -/
def StaleClear (ev : Ev) : Prop :=
  (ev.before.flags.owned = false ∧ ev.before.flags.active = true) ∧
    ∃ n ∈ ev.label.returning, ev.before.campaigns[n]? = some .succeeded
  deriving Decidable

/-! ### What a step can do -/

section Steps

variable {e e' : GroupElector} {a : Action}

/-- **What a step can do.** A resign that no longer has to cancel may do anything but
touch the fields. -/
inductive Move (e : GroupElector) : Action → GroupElector → Prop
  | beginCampaign : e.flags.owned = false → e.flags.active = false →
      Move e .beginCampaign { e with
        flags := { e.flags with active := true }
        campaigns := e.campaigns ++ [.attempting] }
  | campaign {a : Action} {n : ℕ} {k k' : CampaignPhase} : e.campaigns[n]? = some k →
      k.claims = true → k'.claims = true →
      Move e a { e with campaigns := e.campaigns.set n k' }
  | own {n : ℕ} : e.campaigns[n]? = some .won →
      Move e (.own n) { e with
        flags := ⟨true, false, some e.workers.length⟩
        campaigns := e.campaigns.set n .succeeded
        workers := e.workers ++ [⟨false, .running⟩] }
  | clearCampaigning {n : ℕ} {k : CampaignPhase} : e.campaigns[n]? = some k →
      (k.claims = true ∨ k = .succeeded) →
      Move e (.clearCampaigning n) { e with
        flags := e.flags.clearCampaigning
        campaigns := e.campaigns.eraseIdx n }
  | resign : e.flags.owned = true →
      Move e .resign { e with
        flags := .clear
        resigns := e.resigns ++ [⟨e.flags.done, .cancelling⟩] }
  | cancel {m : ℕ} {done : Option ℕ} : e.resigns[m]? = some ⟨done, .cancelling⟩ →
      Move e (.cancel m) { e with
        resigns := e.resigns.set m ⟨done, .waiting⟩
        workers := cancelWorker e.workers done }
  | wait {a : Action} {m : ℕ} {done : Option ℕ} : e.resigns[m]? = some ⟨done, .waiting⟩ →
      Move e a { e with resigns := e.resigns.set m ⟨done, .releasing⟩ }
  | leave {a : Action} {m : ℕ} {r : Resign} : e.resigns[m]? = some r → r.phase ≠ .cancelling →
      Move e a { e with resigns := e.resigns.eraseIdx m }
  | renewed {a : Action} {w : ℕ} {cancelled : Bool} {phase : WorkerPhase} :
      e.workers[w]? = some ⟨cancelled, .running⟩ → phase ≠ .returned →
      Move e a { e with workers := e.workers.set w ⟨cancelled, phase⟩ }
  | lose {w : ℕ} {cancelled : Bool} : e.workers[w]? = some ⟨cancelled, .losing⟩ →
      Move e (.lose w) { e with
        flags := .clear
        workers := e.workers.set w ⟨cancelled, .returned⟩ }
  | quit {w : ℕ} : e.workers[w]? = some ⟨true, .running⟩ →
      Move e (.quit w) { e with workers := e.workers.set w ⟨true, .returned⟩ }

theorem claims_afterAcquire (reply : AcquireReply) : (afterAcquire reply).claims = true := by
  cases reply <;> rfl

theorem move_of_step (hs : step e a = some e') : Move e a e' := by
  -- The cases that remain are the lines of `step` that go on.
  unfold step at hs
  split at hs <;> split at hs <;> try cases hs
  next hfree =>
    rw [Bool.not_eq_true, Bool.or_eq_false_iff] at hfree
    exact .beginCampaign hfree.1 hfree.2
  next hk => exact .campaign hk rfl (claims_afterAcquire _)
  next hk => exact .campaign hk rfl rfl
  next hk => exact .own hk
  next hk => exact .clearCampaigning hk (.inl rfl)
  next hk => exact .clearCampaigning hk (.inr rfl)
  next howned => exact .resign howned
  next hr => exact .cancel hr
  next hr =>
    obtain ⟨-, ⟨⟩⟩ := Option.ite_none_right_eq_some.mp hs
    exact .wait hr
  next hr => exact .leave hr (by simp)
  next hr => exact .leave hr (by simp)
  next hk =>
    refine .renewed hk ?_
    split_ifs <;> simp
  next hk => exact .lose hk
  next hk => exact .quit hk

/-! ### The invariant -/

/-- **The invariant of runs without stale steps.** `active` is set by the one campaign
that claims it, and an owned elector has none; `owned` goes with the current worker, which
is live; a live worker is the current one, or a resign is about to cancel it. -/
structure Inv (e : GroupElector) : Prop where
  claims : e.campaigns.countP CampaignPhase.claims = e.flags.active.toNat
  owned_active : e.flags.owned = true → e.flags.active = false
  owned_done : e.flags.owned = e.flags.done.isSome
  current : ∀ w, e.flags.done = some w → Renews e w
  live : ∀ w, Renews e w → e.flags.done = some w ∨ ⟨some w, .cancelling⟩ ∈ e.resigns
  resigned : ∀ r ∈ e.resigns, ∀ w, r.done = some w →
    e.flags.done ≠ some w ∧ w < e.workers.length

theorem inv_new : Inv .new where
  claims := rfl
  owned_active _ := rfl
  owned_done := rfl
  current _ h := nomatch h
  live w h := by
    obtain ⟨k, hk, -⟩ := h
    exact nomatch hk
  resigned _ h := nomatch h

/-- A worker that moves on without being cancelled or returning is as live as before. -/
theorem renews_set_running {w : ℕ} {cancelled : Bool} {phase : WorkerPhase}
    (hk : e.workers[w]? = some ⟨cancelled, .running⟩) (hphase : phase ≠ .returned) (v : ℕ) :
    Renews { e with workers := e.workers.set w ⟨cancelled, phase⟩ } v ↔ Renews e v := by
  by_cases hv : w = v
  · subst hv
    have hlt := (List.getElem?_eq_some_iff.mp hk).1
    simp [Renews, getElem?_set_self hlt, hk, Worker.live, hphase]
  · simp [Renews, getElem?_set_ne hv]

theorem renews_set_returned {w : ℕ} {k : Worker} (hk : e.workers[w]? = some k) (cancelled : Bool)
    (flags : Flags) (v : ℕ) :
    Renews { e with flags := flags, workers := e.workers.set w ⟨cancelled, .returned⟩ } v ↔
      v ≠ w ∧ Renews e v := by
  by_cases hv : w = v
  · subst hv
    have hlt := (List.getElem?_eq_some_iff.mp hk).1
    simp [Renews, getElem?_set_self hlt, Worker.live]
  · simp [Renews, getElem?_set_ne hv, Ne.symm hv]

variable {done : Option ℕ}

theorem renews_cancelWorker {resigns : List Resign} (v : ℕ) :
    Renews { e with resigns := resigns, workers := cancelWorker e.workers done } v ↔
      done ≠ some v ∧ Renews e v := by
  cases done with
  | none => simp [Renews, cancelWorker]
  | some w =>
    by_cases hv : w = v
    · subst hv
      simp [Renews, cancelWorker, Worker.live]
    · simp [Renews, cancelWorker, hv]

theorem renews_append {flags : Flags} {campaigns : List CampaignPhase} (v : ℕ) :
    Renews { e with flags := flags, campaigns := campaigns,
                    workers := e.workers ++ [⟨false, .running⟩] } v ↔
      Renews e v ∨ v = e.workers.length := by
  rcases lt_trichotomy v e.workers.length with hlt | heq | hgt
  · simp [Renews, getElem?_append_left hlt, hlt.ne]
  · subst heq
    simp [Renews, Worker.live]
  · have hnone : (e.workers ++ [⟨false, .running⟩])[v]? = none := by
      rw [getElem?_eq_none_iff, length_append, length_singleton]
      omega
    have hnone' : e.workers[v]? = none := getElem?_eq_none_iff.mpr hgt.le
    simp [Renews, hnone, hnone', hgt.ne']

theorem Flags.owned_clearCampaigning (f : Flags) : f.clearCampaigning.owned = f.owned := by
  unfold Flags.clearCampaigning
  split_ifs <;> rfl

theorem Flags.done_clearCampaigning (f : Flags) : f.clearCampaigning.done = f.done := by
  unfold Flags.clearCampaigning
  split_ifs <;> rfl

section

variable (hI : Inv e) {n m w : ℕ} {k : CampaignPhase} {cancelled : Bool}
include hI

theorem Inv.active_of_claims (hk : e.campaigns[n]? = some k) (hclaims : k.claims = true) :
    e.flags.active = true := by
  have hpos : 0 < e.campaigns.countP CampaignPhase.claims :=
    countP_pos_iff.mpr ⟨k, mem_of_getElem? hk, hclaims⟩
  rw [hI.claims] at hpos
  cases hactive : e.flags.active with
  | true => rfl
  | false => exact absurd hpos (by rw [hactive]; decide)

theorem Inv.owned_of_done (h : e.flags.done = some w) : e.flags.owned = true := by
  rw [hI.owned_done, h]
  rfl

/-- While a campaign has set `active`, the elector is not owned. -/
theorem Inv.not_owned (hactive : e.flags.active = true) : e.flags.owned = false := by
  rw [← Bool.not_eq_true]
  exact fun h => nomatch (hI.owned_active h).symm.trans hactive

/-! ### The steps of a campaign -/

theorem Inv.beginCampaign (howned : e.flags.owned = false) (hactive : e.flags.active = false) :
    Inv { e with
      flags := { e.flags with active := true }
      campaigns := e.campaigns ++ [.attempting] } := by
  refine ⟨?_, fun h => (nomatch howned.symm.trans h), hI.owned_done, hI.current,
    hI.live, hI.resigned⟩
  rw [countP_append, hI.claims, hactive]
  rfl

theorem Inv.campaign {k' : CampaignPhase} (hk : e.campaigns[n]? = some k)
    (hclaims : k.claims = true) (hclaims' : k'.claims = true) :
    Inv { e with campaigns := e.campaigns.set n k' } := by
  refine ⟨?_, hI.owned_active, hI.owned_done, hI.current, hI.live, hI.resigned⟩
  have hcount := countP_set_add CampaignPhase.claims hk k'
  rw [if_pos hclaims, if_pos hclaims'] at hcount
  exact (Nat.succ.inj hcount).trans hI.claims

theorem Inv.own (hk : e.campaigns[n]? = some .won) :
    Inv { e with
      flags := ⟨true, false, some e.workers.length⟩
      campaigns := e.campaigns.set n .succeeded
      workers := e.workers ++ [⟨false, .running⟩] } := by
  have hactive := hI.active_of_claims hk rfl
  refine ⟨?_, fun _ => rfl, rfl, ?_, fun w hw => ?_, fun r hr w hw => ?_⟩
  · have hcount := countP_set_add CampaignPhase.claims hk .succeeded
    rw [hI.claims, hactive] at hcount
    exact Nat.succ.inj hcount
  · intro w hw
    exact (renews_append w).mpr (.inr (Option.some.inj hw).symm)
  · rcases (renews_append w).mp hw with hold | rfl
    · -- the elector was not owned, so the old live workers are about to be cancelled
      rcases hI.live w hold with hdone | hmem
      · exact nomatch (hI.not_owned hactive).symm.trans (hI.owned_of_done hdone)
      · exact .inr hmem
    · exact .inl rfl
  · obtain ⟨-, hlt⟩ := hI.resigned r hr w hw
    refine ⟨fun h => hlt.ne' (Option.some.inj h), ?_⟩
    rw [length_append]
    exact hlt.trans (Nat.lt_succ_self _)

/-- What `clearCampaigning` leaves of `active`: a campaign that claims it clears its own, and
one that has succeeded finds nothing to clear. -/
theorem Inv.countP_clearCampaigning (hk : e.campaigns[n]? = some k)
    (hkind : k.claims = true ∨ k = .succeeded)
    (hclear : e.flags.owned = false → k = .succeeded → e.flags.active = false) :
    (e.campaigns.eraseIdx n).countP CampaignPhase.claims =
      e.flags.clearCampaigning.active.toNat := by
  have hcount := countP_eraseIdx_add CampaignPhase.claims hk
  rcases hkind with hclaims | rfl
  · have hactive := hI.active_of_claims hk hclaims
    rw [if_pos hclaims, hI.claims, hactive] at hcount
    rw [Flags.clearCampaigning, if_neg (by rw [hI.not_owned hactive]; decide)]
    exact Nat.succ.inj hcount
  · have hsame : e.flags.clearCampaigning = e.flags := by
      unfold Flags.clearCampaigning
      split_ifs with howned
      · rfl
      · rw [← hclear (Bool.eq_false_iff.mpr howned) rfl]
    rw [hsame, ← hI.claims]
    exact hcount

theorem Inv.clearCampaigning (hk : e.campaigns[n]? = some k)
    (hkind : k.claims = true ∨ k = .succeeded)
    (hclear : e.flags.owned = false → k = .succeeded → e.flags.active = false) :
    Inv { e with
      flags := e.flags.clearCampaigning
      campaigns := e.campaigns.eraseIdx n } := by
  refine ⟨hI.countP_clearCampaigning hk hkind hclear, fun h => ?_, ?_, fun w hw => ?_,
    fun w hw => ?_, fun r hr w hw => ?_⟩
  · have howned := e.flags.owned_clearCampaigning.symm.trans h
    rw [Flags.clearCampaigning, if_pos howned]
    exact hI.owned_active howned
  · rw [Flags.owned_clearCampaigning, Flags.done_clearCampaigning]
    exact hI.owned_done
  · exact hI.current w (e.flags.done_clearCampaigning ▸ hw)
  · rw [Flags.done_clearCampaigning]
    exact hI.live w hw
  · rw [Flags.done_clearCampaigning]
    exact hI.resigned r hr w hw

/-! ### The steps of a resign -/

theorem Inv.resign (howned : e.flags.owned = true) :
    Inv { e with
      flags := .clear
      resigns := e.resigns ++ [⟨e.flags.done, .cancelling⟩] } := by
  have hactive := hI.owned_active howned
  refine ⟨hI.claims.trans (by rw [hactive]; rfl), fun _ => rfl, rfl,
    nofun, fun w hw => ?_, fun r hr w hw => ?_⟩
  · refine .inr (mem_append.mpr ?_)
    rcases hI.live w hw with hdone | hmem
    · exact .inr (by rw [hdone]; exact mem_singleton_self _)
    · exact .inl hmem
  · refine ⟨by simp [Flags.clear], ?_⟩
    rcases mem_concat hr with hold | rfl
    · exact (hI.resigned r hold w hw).2
    · obtain ⟨k, hk, -⟩ := hI.current w hw
      exact (List.getElem?_eq_some_iff.mp hk).1

theorem Inv.resigned_set {phase phase' : ResignPhase} (hr : e.resigns[m]? = some ⟨done, phase⟩) :
    ∀ r ∈ e.resigns.set m ⟨done, phase'⟩, ∀ w, r.done = some w →
      e.flags.done ≠ some w ∧ w < e.workers.length :=
  forall_mem_set hI.resigned (hI.resigned ⟨done, phase⟩ (mem_of_getElem? hr))

theorem Inv.cancel (hr : e.resigns[m]? = some ⟨done, .cancelling⟩) :
    Inv { e with
      resigns := e.resigns.set m ⟨done, .waiting⟩
      workers := cancelWorker e.workers done } := by
  refine ⟨hI.claims, hI.owned_active, hI.owned_done, fun w hw => ?_, fun w hw => ?_,
    fun r hr' w hw => ?_⟩
  · refine (renews_cancelWorker w).mpr ⟨fun h => ?_, hI.current w hw⟩
    exact (hI.resigned _ (mem_of_getElem? hr) w h).1 hw
  · obtain ⟨hne, hold⟩ := (renews_cancelWorker w).mp hw
    -- the entry that is overwritten is not this worker's
    refine (hI.live w hold).imp_right fun hin => mem_set_of_ne hr hin fun heq => ?_
    exact hne (congrArg Resign.done heq).symm
  · have hlen : (cancelWorker e.workers done).length = e.workers.length := by
      cases done <;> simp [cancelWorker]
    rw [hlen]
    exact hI.resigned_set hr r hr' w hw

theorem Inv.wait (hr : e.resigns[m]? = some ⟨done, .waiting⟩) :
    Inv { e with resigns := e.resigns.set m ⟨done, .releasing⟩ } := by
  refine ⟨hI.claims, hI.owned_active, hI.owned_done, hI.current, fun w hw => ?_,
    hI.resigned_set hr⟩
  exact (hI.live w hw).imp_right fun hin => mem_set_of_ne hr hin (by simp)

theorem Inv.leave {r : Resign} (hr : e.resigns[m]? = some r) (hphase : r.phase ≠ .cancelling) :
    Inv { e with resigns := e.resigns.eraseIdx m } := by
  refine ⟨hI.claims, hI.owned_active, hI.owned_done, hI.current, fun w hw => ?_,
    fun r' hr' => hI.resigned r' (mem_of_mem_eraseIdx hr')⟩
  refine (hI.live w hw).imp_right fun hin => mem_eraseIdx_of_ne hr hin fun heq => ?_
  exact hphase (congrArg Resign.phase heq).symm

/-! ### The steps of a worker -/

theorem Inv.renewed {phase : WorkerPhase} (hk : e.workers[w]? = some ⟨cancelled, .running⟩)
    (hphase : phase ≠ .returned) :
    Inv { e with workers := e.workers.set w ⟨cancelled, phase⟩ } := by
  have hren := renews_set_running hk hphase
  refine ⟨hI.claims, hI.owned_active, hI.owned_done,
    fun v hv => (hren v).mpr (hI.current v hv), fun v hv => hI.live v ((hren v).mp hv),
    fun r hr v hv => ?_⟩
  rw [length_set]
  exact hI.resigned r hr v hv

theorem Inv.lose (hk : e.workers[w]? = some ⟨cancelled, .losing⟩)
    (hloss : e.flags.owned = true ∨ e.flags.active = true → e.flags.done = some w) :
    Inv { e with
      flags := .clear
      workers := e.workers.set w ⟨cancelled, .returned⟩ } := by
  have hren := fun v => renews_set_returned hk cancelled .clear v
  have hcurrent : ∀ v, e.flags.done = some v → v = w := fun v hv =>
    Option.some.inj (hv.symm.trans (hloss (.inl (hI.owned_of_done hv))))
  have hactive : e.flags.active = false := by
    rw [← Bool.not_eq_true]
    intro h
    exact nomatch (hI.not_owned h).symm.trans (hI.owned_of_done (hloss (.inr h)))
  refine ⟨hI.claims.trans (by rw [hactive]; rfl), fun _ => rfl, rfl,
    nofun, fun v hv => ?_, fun r hr v hv => ?_⟩
  · obtain ⟨hne, hold⟩ := (hren v).mp hv
    rcases hI.live v hold with hdone | hin
    · exact absurd (hcurrent v hdone) hne
    · exact .inr hin
  · rw [length_set]
    exact ⟨by simp [Flags.clear], (hI.resigned r hr v hv).2⟩

theorem Inv.quit (hk : e.workers[w]? = some ⟨true, .running⟩) :
    Inv { e with workers := e.workers.set w ⟨true, .returned⟩ } := by
  have hren := fun v => renews_set_returned hk true e.flags v
  refine ⟨hI.claims, hI.owned_active, hI.owned_done, fun v hv => (hren v).mpr ⟨?_, ?_⟩,
    fun v hv => hI.live v ((hren v).mp hv).2, fun r hr v hv => ?_⟩
  · -- the current worker is not cancelled
    rintro rfl
    obtain ⟨k, hk', hlive⟩ := hI.current v hv
    obtain rfl := Option.mem_unique hk hk'
    exact nomatch hlive
  · exact hI.current v hv
  · rw [length_set]
    exact hI.resigned r hr v hv

end

/-- **Every step that is not stale keeps the invariant.** -/
theorem inv_step (hI : Inv e) (hs : step e a = some e') (hloss : ¬StaleLoss ⟨e, a, e'⟩)
    (hclear : ¬StaleClear ⟨e, a, e'⟩) : Inv e' := by
  have hm := move_of_step hs
  cases hm with
  | beginCampaign howned hactive => exact hI.beginCampaign howned hactive
  | campaign hk hclaims hclaims' => exact hI.campaign hk hclaims hclaims'
  | own hk => exact hI.own hk
  | @clearCampaigning n k hk hkind =>
    refine hI.clearCampaigning hk hkind fun howned hsucceeded => ?_
    rw [← Bool.not_eq_true]
    exact fun h => hclear ⟨⟨howned, h⟩, n, rfl, hsucceeded ▸ hk⟩
  | resign howned => exact hI.resign howned
  | cancel hr => exact hI.cancel hr
  | wait hr => exact hI.wait hr
  | leave hr hphase => exact hI.leave hr hphase
  | renewed hk hphase => exact hI.renewed hk hphase
  | @lose w cancelled hk =>
    refine hI.lose hk fun h => ?_
    by_contra hdone
    exact hloss ⟨h, w, rfl, hdone⟩
  | quit hk => exact hI.quit hk

/-! ### Calls that are over -/

theorem Inv.renewsIffOwned (hI : Inv e) (hq : Quiescent e) : RenewsIffOwned e := by
  have hlive : ∀ w, Renews e w → e.flags.done = some w := by
    intro w hw
    rcases hI.live w hw with hdone | hin
    · exact hdone
    · rw [hq.2] at hin
      exact nomatch hin
  refine ⟨⟨fun ⟨w, hw⟩ => ?_, fun howned => ?_⟩, fun w w' hw hw' => ?_⟩
  · rw [hI.owned_done, hlive w hw]
    rfl
  · rw [hI.owned_done] at howned
    obtain ⟨w, hw⟩ := Option.isSome_iff_exists.mp howned
    exact ⟨w, hI.current w hw⟩
  · exact Option.some.inj ((hlive w hw).symm.trans (hlive w' hw'))

end Steps

/-! ### Runs -/

/-- **A group elector renews what it reports, if no step is stale.** In every run in which
no worker clears fields of a newer campaign and no campaign clears the `active` of another,
whenever no `Campaign` or `Resign` is under way there is a renewal worker, neither cancelled
nor returned, exactly if `owned` is set, and at most one. -/
theorem renews_iff_owned {h : List Ev} {e : GroupElector} (hr : Run step .new h e)
    (hloss : ∀ ev ∈ h, ¬StaleLoss ev) (hclear : ∀ ev ∈ h, ¬StaleClear ev) (hq : Quiescent e) :
    RenewsIffOwned e := by
  have hguard : ∀ ev ∈ h, ¬StaleLoss ev ∧ ¬StaleClear ev :=
    fun ev hev => ⟨hloss ev hev, hclear ev hev⟩
  have hI : Inv e := hr.invariant_of_mem hguard inv_new
    fun _ _ _ hI hs hc => inv_step hI hs hc.1 hc.2
  exact hI.renewsIffOwned hq

/-- A leadership, a resign whose worker fails its last renewal before it is joined, and a
second leadership. -/
theorem renews_iff_owned_twice : ∃ h e, Run step .new h e ∧ (∀ ev ∈ h, ¬StaleLoss ev) ∧
    (∀ ev ∈ h, ¬StaleClear ev) ∧ Quiescent e ∧ e.flags.owned = true ∧ RenewsIffOwned e := by
  obtain ⟨h, e, hr, hloss, hclear, hq, howned⟩ := exists_run step .new
    [.beginCampaign, .acquired 0 .denied, .acquired 0 .granted, .own 0, .clearCampaigning 0,
      .renewed 0 true, .resign, .cancel 0, .renewed 0 false, .lose 0, .join 0, .released 0,
      .beginCampaign, .acquired 0 .granted, .own 0, .clearCampaigning 0]
    (fun h e => (∀ ev ∈ h, ¬StaleLoss ev) ∧ (∀ ev ∈ h, ¬StaleClear ev) ∧
      (e.campaigns = [] ∧ e.resigns = []) ∧ e.flags.owned = true) (by decide +kernel)
  exact ⟨h, e, hr, hloss, hclear, hq, howned, renews_iff_owned hr hloss hclear hq⟩

/-- **A stale loss orphans a worker.** The `Resign` gives up on its context while its
worker's renewal is in flight; a new `Campaign` gets a slot – with `MaxLeaders` 2 the old
one need not have run out – and then the old renewal fails with the cancelled context. No
call is under way, the second worker renews, and `owned` is false. -/
theorem stale_loss_orphans_worker :
    ¬∀ h e, Run step .new h e → Quiescent e → RenewsIffOwned e := by
  intro hall
  obtain ⟨h, e, hr, hq, hnot, hworker⟩ := exists_run step .new
    [.beginCampaign, .acquired 0 .granted, .own 0, .clearCampaigning 0, .resign, .cancel 0,
      .giveUp 0, .beginCampaign, .acquired 0 .granted, .own 0, .clearCampaigning 0,
      .renewed 0 false, .lose 0]
    (fun _ e => (e.campaigns = [] ∧ e.resigns = []) ∧ e.flags.owned = false ∧
      e.workers[1]? = some (⟨false, .running⟩ : Worker)) (by decide +kernel)
  have howned := (hall h e hr hq).1.mp ⟨1, _, hworker, rfl⟩
  exact nomatch hnot.symm.trans howned

end Bluetape.Leader.Group
