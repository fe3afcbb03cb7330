import Bluetape.Library.Run
import Bluetape.Messaging.Flags

/-!
# Callers that follow the flags

Callers send objects, delete messages, and delete an object on its own when the error of a `Send` or
of a `Delete` has told them so. They send each object once, and delete a message with the envelope
that it had in the queue; a `Delete` may come again, when the first one has failed. Along every run
of such callers, with clients that do not make the flags false, **every message of every queue can
be read**: its object is there, with the size and the checksum of its envelope (`objects_kept`).

Operations follow one another, and a message keeps the receipt handle it has from the beginning. The
part of the argument that is about single states is `Sound`; what it needs to know about the past –
that an object has at most one message, ever – is `Traced`.
-/

namespace Bluetape.SqsExtended

open GoString World

variable {E : Type} {codec : Codec E} {ctx : Context} {clients : Clients E}
variable {request : SendRequest} {w w' : World}

/-! ### Operations and what callers remember -/

/-- The services, and the objects that callers have been told may be deleted. -/
structure Callers where
  world : World
  released : List (Text × Text)

/-- One operation of a caller, with the behaviour of the context and the clients. -/
inductive Op (E : Type) where
  | send (ctx : Context) (clients : Clients E) (p : Option Provider) (request : SendRequest)
  | delete (ctx : Context) (clients : Clients E) (p : Option Provider) (request : DeleteRequest)
  | deleteObject (ctx : Context) (clients : Clients E) (p : Option Provider) (envelope : Envelope)

/-- The object that an operation sends. -/
def Op.sends : Op E → Option (Text × Text)
  | .send _ _ _ request => some (request.bucket, request.key)
  | .delete _ _ _ _ | .deleteObject _ _ _ _ => none

/-- An object is noted if an error has released it. -/
def noted (flagged : Bool) (bucket key : Text) (released : List (Text × Text)) :
    List (Text × Text) :=
  if flagged then (bucket, key) :: released else released

/-- Whether a `Send` reports its object as orphaned. -/
def reportsOrphan {α : Type} : Except (Error E) α → Bool
  | .error err => err.orphanedObject
  | .ok _ => false

/-- **One operation after the other**, each with what its error has released. -/
def Callers.step (codec : Codec E) (s : Callers) : Op E → Option Callers
  | .send ctx clients p request =>
    let (r, w) := SqsExtended.send codec ctx clients p request s.world
    some ⟨w, noted (reportsOrphan r) request.bucket request.key s.released⟩
  | .delete ctx clients p request =>
    let (r, w) := SqsExtended.delete ctx clients p request s.world
    some ⟨w, noted (reportsDeleted r) request.envelope.bucket request.envelope.key s.released⟩
  | .deleteObject ctx clients p envelope =>
    some ⟨(SqsExtended.deleteObject ctx clients p envelope s.world).2, s.released⟩

abbrev Ev (E : Type) := Lts.Event Callers (Op E)

/-- The object has been sent. -/
def WasSent (h : List (Ev E)) (object : Text × Text) : Prop :=
  ∃ ev ∈ h, ev.label.sends = some object
  deriving Decidable

/-- The message has been in the queue, at some time. -/
def WasQueued (h : List (Ev E)) (queueURL : Text) (m : Message) : Prop :=
  ∃ ev ∈ h, m ∈ ev.after.world.queues queueURL

/-- **A `SendMessage` whose answer cannot be used has had no effect.** -/
def SendTruthful (ctx : Context) (clients : Clients E) : Prop :=
  Called ctx clients → ¬Acknowledged ctx clients → clients.sendMessage.effect = false
  deriving Decidable

/-- **A `DeleteMessage` that has returned an output, or during which the context has ended, has
taken effect.** -/
def DeleteTruthful (ctx : Context) (clients : Clients E) : Prop :=
  ctx 2 ≠ none ∨ clients.deleteMessage.output ≠ none → clients.deleteMessage.effect = true
  deriving Decidable

/-- **A caller that keeps to the flags**, and clients that do not make them false. Each object is
sent once; a message that was in the queue is deleted, once or again, with the envelope it had
there; an object is deleted on its own only when it was released. -/
def Careful (older : List (Ev E)) (ev : Ev E) : Prop :=
  match ev.label with
  | .send ctx clients _ request =>
    ¬WasSent older (request.bucket, request.key) ∧ SendTruthful ctx clients ∧
      (clients.putObject.err = none → clients.putObject.output ≠ none →
        clients.putObject.effect = true)
  | .delete ctx clients _ request =>
    DeleteTruthful ctx clients ∧ ∃ ev ∈ older, ∃ m ∈ ev.after.world.queues request.queueURL,
      m.receiptHandle = request.receiptHandle ∧ m.envelope = request.envelope
  | .deleteObject _ _ _ envelope => (envelope.bucket, envelope.key) ∈ ev.before.released

instance (older : List (Ev E)) : DecidablePred (Careful older)
  | ⟨_, .send .., _⟩ => inferInstanceAs (Decidable (_ ∧ _ ∧ (_ → _ → _)))
  | ⟨_, .delete .., _⟩ => inferInstanceAs (Decidable (_ ∧ ∃ ev ∈ older, ∃ m ∈ _, _ ∧ _))
  | ⟨_, .deleteObject .., _⟩ => inferInstanceAs (Decidable (_ ∈ _))

/-- The object of a message is there, with the size and the checksum that `Receive` compares. -/
def Readable (codec : Codec E) (w : World) (m : Message) : Prop :=
  ∃ payload, w.objects m.envelope.bucket m.envelope.key = some payload ∧
    m.envelope.contentSize = payload.length ∧
    m.envelope.checksum = codec.payloadChecksum payload

/-- **What holds of the services**: every queued message can be read, and none refers to an object
that was released. -/
structure Sound (codec : Codec E) (w : World) (released : List (Text × Text)) : Prop where
  readable : ∀ q, ∀ m ∈ w.queues q, Readable codec w m
  released : ∀ o ∈ released, w.Unreferenced o.1 o.2

namespace Sound

variable {released : List (Text × Text)}

section

variable (h : Sound codec w released)
include h

/-- The objects that messages refer to are the same and there are fewer messages. -/
theorem mono (hqueues : ∀ q, ∀ m ∈ w'.queues q, m ∈ w.queues q)
    (hobjects : ∀ q, ∀ m ∈ w'.queues q, w'.objects m.envelope.bucket m.envelope.key =
      w.objects m.envelope.bucket m.envelope.key) : Sound codec w' released where
  readable q m hm := by
    rw [Readable, hobjects q m hm]
    exact h.readable q m (hqueues q m hm)
  released o ho q m hm := h.released o ho q m (hqueues q m hm)

theorem noted {flagged : Bool} {bucket key : Text}
    (hun : flagged = true → w.Unreferenced bucket key) :
    Sound codec w (noted flagged bucket key released) := by
  refine ⟨h.readable, ?_⟩
  cases flagged with
  | false => exact h.released
  | true => exact List.forall_mem_cons.mpr ⟨hun rfl, h.released⟩

theorem afterPut (clients : Clients E) (hfresh : w.Unreferenced request.bucket request.key) :
    Sound codec (w.afterPut clients request) released := by
  refine h.mono (fun q m hm => ?_) fun q m hm => ?_
  · rwa [queues_afterPut] at hm
  · rw [queues_afterPut] at hm
    rw [World.afterPut]
    cases clients.putObject.effect with
    | false => rfl
    | true => exact objects_putObject_of_ne w _ (hfresh q m hm)

theorem sendMessage {queueURL : Text} {m : Message}
    (hkept : (m.envelope.bucket, m.envelope.key) ∉ released) (hread : Readable codec w m) :
    Sound codec (w.sendMessage queueURL m) released where
  readable q m' hm' := by
    rcases mem_sendMessage.mp hm' with hold | ⟨-, rfl⟩
    · exact h.readable q m' hold
    · exact hread
  released o ho q m' hm' href := by
    rcases mem_sendMessage.mp hm' with hold | ⟨-, rfl⟩
    · exact h.released o ho q m' hold href
    · obtain ⟨hb, hk⟩ := href
      exact hkept (by rw [hb, hk]; exact ho)

theorem deleteObject {bucket key : Text} (hun : w.Unreferenced bucket key) (effect : Bool) :
    Sound codec (w.after effect fun w => w.deleteObject bucket key) released := by
  refine h.mono (fun q m hm => ?_) fun q m hm => ?_
  · rwa [queues_after_deleteObject] at hm
  · rw [queues_after_deleteObject] at hm
    exact objects_deleteObject_of_unreferenced hun hm effect

theorem afterDelete (clients : Clients E) (request : DeleteRequest) :
    Sound codec (w.afterDelete clients request) released := by
  rw [World.afterDelete]
  cases clients.deleteMessage.effect with
  | false => exact h
  | true =>
    refine h.mono (fun q m hm => (mem_deleteMessage.mp hm).1) fun q m _ => ?_
    rfl

/-- **A `Send` of an object that no queued message refers to**, and that was not released. -/
theorem send (p : Option Provider) (hfresh : w.Unreferenced request.bucket request.key)
    (hkept : (request.bucket, request.key) ∉ released) (htruth : SendTruthful ctx clients)
    (hput : clients.putObject.err = none → clients.putObject.output ≠ none →
      clients.putObject.effect = true) :
    Sound codec (SqsExtended.send codec ctx clients p request w).2
      (SqsExtended.noted (reportsOrphan (SqsExtended.send codec ctx clients p request w).1)
        request.bucket request.key released) := by
  have hafter := h.afterPut clients hfresh
  have hfree : (w.afterPut clients request).Unreferenced request.bucket request.key :=
    unreferenced_afterPut.mpr hfresh
  cases hprep : prepareSend codec ctx p request with
  | error err =>
    rw [show SqsExtended.send codec ctx clients p request w = (.error err, w) by
      simp only [SqsExtended.send, hprep]]
    exact h.noted fun _ => hfresh
  | ok body =>
    have hexit := sendExit_of_prepared clients w hprep
    generalize SqsExtended.send codec ctx clients p request w = out at hexit ⊢
    cases hexit with
    | refused | unsent => exact hafter.noted fun _ => hfree
    | unanswered hcalled hack =>
      rw [afterSend, htruth hcalled hack]
      exact hafter.noted fun _ => hfree
    | sent hcalled =>
      refine Sound.noted ?_ fun hflag => absurd hflag Bool.false_ne_true
      rw [afterSend]
      cases clients.sendMessage.effect with
      | false => exact hafter
      | true =>
        refine hafter.sendMessage hkept ?_
        rw [World.afterPut, hput hcalled.2.1 hcalled.2.2.1, after_true]
        exact ⟨request.payload, objects_putObject_self _ _ _ _, rfl, rfl⟩

/-- **A `Delete` of a message**, whose object no other message refers to. -/
theorem delete (p : Option Provider) {request : DeleteRequest} (htruth : DeleteTruthful ctx clients)
    (hfree : clients.deleteMessage.effect = true →
      (w.afterDelete clients request).Unreferenced request.envelope.bucket request.envelope.key) :
    Sound codec (SqsExtended.delete ctx clients p request w).2
      (SqsExtended.noted (reportsDeleted (SqsExtended.delete ctx clients p request w).1)
        request.envelope.bucket request.envelope.key released) := by
  cases hprep : (prepareDelete ctx p request : Option (Error E)) with
  | some err =>
    rw [show SqsExtended.delete ctx clients p request w = (some err, w) by
      simp only [SqsExtended.delete, hprep]]
    have hun := (ChecksOnly.prepareDelete ctx p request err hprep).2
    exact h.noted fun hflag => absurd (hun.symm.trans hflag) Bool.false_ne_true
  | none =>
    have hexit := deleteExit_of_prepared clients w hprep
    generalize SqsExtended.delete ctx clients p request w = out at hexit ⊢
    cases hexit with
    | stopped hflag =>
      exact (h.afterDelete clients request).noted fun hfl =>
        hfree (htruth ((hflag.mp hfl).imp_right And.left))
    | deleted hout =>
      have hun := hfree (htruth (.inr hout))
      refine ((h.afterDelete clients request).deleteObject hun _).noted fun _ => ?_
      rwa [World.Unreferenced, queues_after_deleteObject]

end

end Sound

/-! ### What a run remembers -/

section Traces

variable {h : List (Ev E)} {s s' : Callers} {op : Op E}

/-- **The messages of a run**: the object of each was sent, as was each object that was released,
and no two refer to one object. -/
structure Traced (h : List (Ev E)) (s : Callers) : Prop where
  queued : ∀ q, ∀ m ∈ s.world.queues q, WasQueued h q m
  sent : ∀ q m, WasQueued h q m → WasSent h (m.envelope.bucket, m.envelope.key)
  apart : ∀ q q' m m', WasQueued h q m → WasQueued h q' m' →
    m.RefersTo m'.envelope.bucket m'.envelope.key → q = q' ∧ m = m'
  released : ∀ o ∈ s.released, WasSent h o

/-- An object that was not sent has no messages. -/
theorem Traced.unreferenced (ht : Traced h s) {bucket key : Text}
    (hnew : ¬WasSent h (bucket, key)) : s.world.Unreferenced bucket key := by
  rintro q m hm ⟨rfl, rfl⟩
  exact hnew (ht.sent q m (ht.queued q m hm))

/-- Once `DeleteMessage` has taken effect, no message refers to the object of the one that was
deleted, whether it was there or had been deleted before. -/
theorem Traced.unreferenced_afterDelete (ht : Traced h s) {request : DeleteRequest}
    (heffect : clients.deleteMessage.effect = true) {m : Message}
    (hm : WasQueued h request.queueURL m) (hhandle : m.receiptHandle = request.receiptHandle)
    (henv : m.envelope = request.envelope) :
    (s.world.afterDelete clients request).Unreferenced request.envelope.bucket
      request.envelope.key := by
  intro q m' hm' href
  rw [World.afterDelete, heffect, after_true, mem_deleteMessage] at hm'
  rw [← henv] at href
  obtain ⟨rfl, rfl⟩ := ht.apart q request.queueURL m' m (ht.queued q m' hm'.1) hm href
  exact hm'.2 ⟨rfl, hhandle⟩

/-- **A message gets into a queue by a `Send`** of its object. -/
theorem mem_queues_step (hs : Callers.step codec s op = some s') {q : Text} {m : Message}
    (hm : m ∈ s'.world.queues q) :
    m ∈ s.world.queues q ∨ ∃ ctx clients p request, op = .send ctx clients p request ∧
      q = request.queueURL ∧ m = ⟨clients.receiptHandle, request.envelope codec⟩ := by
  cases op with
  | send ctx clients p request =>
    obtain rfl := Option.some.inj hs
    change m ∈ (send codec ctx clients p request s.world).2.queues q at hm
    cases hprep : prepareSend codec ctx p request with
    | error err =>
      simp only [send, hprep] at hm
      exact .inl hm
    | ok body =>
      have hexit := sendExit_of_prepared clients s.world hprep
      generalize send codec ctx clients p request s.world = out at hexit hm
      have hsent : m ∈ ((s.world.afterPut clients request).afterSend clients request
          (request.envelope codec)).queues q → m ∈ s.world.queues q ∨
            q = request.queueURL ∧ m = ⟨clients.receiptHandle, request.envelope codec⟩ := by
        rw [afterSend]
        cases clients.sendMessage.effect with
        | false => exact fun hm => .inl (queues_afterPut s.world clients request ▸ hm)
        | true =>
          intro hm
          rw [after_true, mem_sendMessage, queues_afterPut] at hm
          exact hm
      cases hexit with
      | refused | unsent => exact .inl (queues_afterPut s.world clients request ▸ hm)
      | unanswered | sent => exact (hsent hm).imp_right fun h => ⟨ctx, clients, p, request, rfl, h⟩
  | delete ctx clients p request =>
    obtain rfl := Option.some.inj hs
    change m ∈ (delete ctx clients p request s.world).2.queues q at hm
    have hafter : m ∈ (s.world.afterDelete clients request).queues q → m ∈ s.world.queues q := by
      rw [afterDelete]
      cases clients.deleteMessage.effect with
      | false => exact id
      | true => exact fun hm => (mem_deleteMessage.mp hm).1
    cases hprep : (prepareDelete ctx p request : Option (Error E)) with
    | some err =>
      simp only [delete, hprep] at hm
      exact .inl hm
    | none =>
      have hexit := deleteExit_of_prepared clients s.world hprep
      generalize delete ctx clients p request s.world = out at hexit hm
      cases hexit with
      | stopped => exact .inl (hafter hm)
      | deleted => exact .inl (hafter (queues_after_deleteObject _ _ _ _ ▸ hm))
  | deleteObject ctx clients p envelope =>
    obtain rfl := Option.some.inj hs
    obtain ⟨effect, heq⟩ := deleteObject_cases ctx clients p envelope s.world
    change m ∈ (deleteObject ctx clients p envelope s.world).2.queues q at hm
    rw [heq, queues_after_deleteObject] at hm
    exact .inl hm

theorem mem_noted {flagged : Bool} {bucket key : Text} {o : Text × Text}
    {released : List (Text × Text)} (ho : o ∈ noted flagged bucket key released) :
    o = (bucket, key) ∨ o ∈ released := by
  cases flagged with
  | false => exact .inr ho
  | true => exact List.mem_cons.mp ho

/-- **Every operation of a careful caller is remembered**: a message that is new is the only one of
its object. -/
theorem Traced.step (ht : Traced h s) (hs : Callers.step codec s op = some s')
    (hcareful : Careful h ⟨s, op, s'⟩) : Traced (⟨s, op, s'⟩ :: h) s' := by
  have hsent : ∀ {o}, WasSent h o → WasSent (⟨s, op, s'⟩ :: h) o :=
    fun ⟨ev, hev, heq⟩ => ⟨ev, List.mem_cons_of_mem _ hev, heq⟩
  have hcases : ∀ {q m}, WasQueued (⟨s, op, s'⟩ :: h) q m → WasQueued h q m ∨
      ∃ ctx clients p request, op = .send ctx clients p request ∧ q = request.queueURL ∧
        m = ⟨clients.receiptHandle, request.envelope codec⟩ := by
    rintro q m ⟨ev, hev, hm⟩
    rcases List.mem_cons.mp hev with rfl | hold
    · exact (mem_queues_step hs hm).imp_left (ht.queued q m)
    · exact .inl ⟨ev, hold, hm⟩
  refine ⟨fun q m hm => ⟨_, List.mem_cons_self, hm⟩, fun q m hm => ?_,
    fun q q' m m' hm hm' href => ?_, fun o ho => ?_⟩
  · rcases hcases hm with hold | ⟨ctx, clients, p, request, rfl, rfl, rfl⟩
    · exact hsent (ht.sent q m hold)
    · exact ⟨_, List.mem_cons_self, rfl⟩
  · rcases hcases hm with hold | ⟨ctx, clients, p, request, rfl, rfl, rfl⟩
    · rcases hcases hm' with hold' | ⟨ctx, clients, p, request, rfl, rfl, rfl⟩
      · exact ht.apart q q' m m' hold hold' href
      · have hobject := ht.sent q m hold
        rw [href.1, href.2] at hobject
        exact absurd hobject hcareful.1
    · rcases hcases hm' with hold' | ⟨_, _, _, _, heq, rfl, rfl⟩
      · have hobject := ht.sent q' m' hold'
        rw [← href.1, ← href.2] at hobject
        exact absurd hobject hcareful.1
      · cases heq
        exact ⟨rfl, rfl⟩
  · cases op with
    | send ctx clients p request =>
      obtain rfl := Option.some.inj hs
      rcases mem_noted ho with rfl | hold
      · exact ⟨_, List.mem_cons_self, rfl⟩
      · exact hsent (ht.released o hold)
    | delete ctx clients p request =>
      obtain rfl := Option.some.inj hs
      rcases mem_noted ho with rfl | hold
      · obtain ⟨-, ev, hev, m, hm, -, henv⟩ := hcareful
        exact hsent (henv ▸ ht.sent _ m ⟨ev, hev, hm⟩)
      · exact hsent (ht.released o hold)
    | deleteObject ctx clients p envelope =>
      obtain rfl := Option.some.inj hs
      exact hsent (ht.released o ho)

theorem Sound.step (hsound : Sound codec s.world s.released) (ht : Traced h s)
    (hs : Callers.step codec s op = some s') (hcareful : Careful h ⟨s, op, s'⟩) :
    Sound codec s'.world s'.released := by
  cases op with
  | send ctx clients p request =>
    obtain ⟨hnew, htruth, hput⟩ := hcareful
    obtain rfl := Option.some.inj hs
    exact hsound.send p (ht.unreferenced hnew) (fun ho => hnew (ht.released _ ho)) htruth hput
  | delete ctx clients p request =>
    obtain ⟨htruth, ev, hev, m, hm, hhandle, henv⟩ := hcareful
    obtain rfl := Option.some.inj hs
    exact hsound.delete p htruth fun heffect =>
      ht.unreferenced_afterDelete heffect ⟨ev, hev, hm⟩ hhandle henv
  | deleteObject ctx clients p envelope =>
    obtain rfl := Option.some.inj hs
    obtain ⟨effect, heq⟩ := deleteObject_cases ctx clients p envelope s.world
    change Sound codec (SqsExtended.deleteObject ctx clients p envelope s.world).2 s.released
    rw [heq]
    exact hsound.deleteObject (hsound.released _ hcareful) effect

end Traces

/-- **Callers that follow the flags lose no message**: along a run of careful callers from empty
services, every message of every queue can be read. -/
theorem objects_kept {history : List (Ev E)} {s : Callers}
    (hrun : Lts.Run (Callers.step codec) ⟨.empty, []⟩ history s)
    (hcareful : Lts.Always Careful history) :
    ∀ q, ∀ m ∈ s.world.queues q, Readable codec s.world m := by
  have hinv : Sound codec s.world s.released ∧ Traced history s := by
    refine hrun.invariant_of (P := fun h s => Sound codec s.world s.released ∧ Traced h s) hcareful
      ⟨⟨?_, ?_⟩, ?_, ?_, ?_, ?_⟩
      fun h s op s' hP hs hc => ⟨hP.1.step hP.2 hs hc, hP.2.step hs hc⟩
    · exact fun _ _ hm => absurd hm List.not_mem_nil
    · exact fun _ ho => absurd ho List.not_mem_nil
    · exact fun _ _ hm => absurd hm List.not_mem_nil
    · exact fun _ _ ⟨_, hev, _⟩ => absurd hev List.not_mem_nil
    · exact fun _ _ _ _ ⟨_, hev, _⟩ => absurd hev List.not_mem_nil
    · exact fun _ ho => absurd ho List.not_mem_nil
  exact hinv.1.readable

def otherRequest : SendRequest := { plainRequest with key := ascii "j" }

/-- `DeleteObject` fails without an effect. -/
def objectStays : Clients Unit := { goodClients with deleteObject := ⟨false, none, some ()⟩ }

/-- Two messages are sent. The first is deleted, but the answer is lost; it is deleted again, and
its object stays; the object is deleted, as the error has said. The second can be read. -/
theorem objects_kept_retry :
    ∃ history s, Lts.Run (Callers.step plainCodec) ⟨.empty, []⟩ history s ∧
      s.world.objects (ascii "b") (ascii "k") = none ∧ s.released = [(ascii "b", ascii "k")] ∧
      ∃ m ∈ s.world.queues (ascii "q"), Readable plainCodec s.world m := by
  obtain ⟨history, s, hrun, hcareful, hobject, hreleased, m, hm⟩ :=
    Lts.exists_run (Callers.step plainCodec) ⟨.empty, []⟩
      [.send live goodClients plainProvider plainRequest,
        .send live { goodClients with receiptHandle := ascii "s" } plainProvider otherRequest,
        .delete live (deleteFails true) plainProvider plainDelete,
        .delete live objectStays plainProvider plainDelete,
        .deleteObject live goodClients plainProvider plainMessage.envelope]
      (fun h s => Lts.Always Careful h ∧ s.world.objects (ascii "b") (ascii "k") = none ∧
        s.released = [(ascii "b", ascii "k")] ∧
        ∃ m ∈ s.world.queues (ascii "q"), m.receiptHandle = ascii "s") (by decide +kernel)
  exact ⟨history, s, hrun, hobject, hreleased, m, hm.1, objects_kept hrun hcareful _ _ hm.1⟩

end Bluetape.SqsExtended
