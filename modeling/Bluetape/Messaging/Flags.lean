import Bluetape.Messaging.SqsExtended
import Mathlib.Data.List.Infix

/-!
# What the flags of an error say

An error of `Send` that reports an orphaned object invites the caller to delete the object, and an
error of `Delete` that reports the message as deleted tells the caller not to delete it again.
Neither report is always true (`flags_may_be_false`). `Send` raises its flag whatever the failed
`SendMessage` has done: when the message was queued and only the answer was lost, the object is not
orphaned. `Delete` raises its flag when the context has ended during `DeleteMessage`, whatever the
call has done.

When they are true is said exactly by `flags_truthful_iff`, in terms of the contexts and of what the
clients do and answer, and only for the exits that raise a flag.

What a `Send` and a `Delete` can do is said once, in `SendExit` and `DeleteExit`.
-/

namespace Bluetape.SqsExtended

open GoString

variable {E : Type}

/-! ### Objects and the messages that refer to them -/

/-- The message is for this object. -/
def Message.RefersTo (m : Message) (bucket key : Text) : Prop :=
  m.envelope.bucket = bucket ∧ m.envelope.key = key
  deriving Decidable

/-- **No queued message refers to the object.** -/
def World.Unreferenced (w : World) (bucket key : Text) : Prop :=
  ∀ q, ∀ m ∈ w.queues q, ¬m.RefersTo bucket key

open World

namespace World

theorem objects_putObject_self (w : World) (bucket key payload : Text) :
    (w.putObject bucket key payload).objects bucket key = some payload :=
  if_pos ⟨rfl, rfl⟩

theorem objects_putObject_of_ne (w : World) {bucket key b k : Text} (payload : Text)
    (hne : ¬(b = bucket ∧ k = key)) :
    (w.putObject bucket key payload).objects b k = w.objects b k :=
  if_neg hne

theorem objects_deleteObject_of_ne (w : World) {bucket key b k : Text}
    (hne : ¬(b = bucket ∧ k = key)) :
    (w.deleteObject bucket key).objects b k = w.objects b k :=
  if_neg hne

theorem mem_sendMessage {w : World} {queueURL q : Text} {m m' : Message} :
    m' ∈ (w.sendMessage queueURL m).queues q ↔ m' ∈ w.queues q ∨ q = queueURL ∧ m' = m := by
  by_cases hq : q = queueURL
  · simp [sendMessage, hq]
  · simp [sendMessage, hq]

theorem mem_deleteMessage {w : World} {queueURL receiptHandle q : Text} {m : Message} :
    m ∈ (w.deleteMessage queueURL receiptHandle).queues q ↔
      m ∈ w.queues q ∧ ¬(q = queueURL ∧ m.receiptHandle = receiptHandle) := by
  by_cases hq : q = queueURL
  · simp [deleteMessage, hq]
  · simp [deleteMessage, hq]

@[simp] theorem after_true (w : World) (change : World → World) :
    w.after true change = change w := rfl

theorem queues_after_deleteObject (w : World) (effect : Bool) (bucket key : Text) :
    (w.after effect fun w => w.deleteObject bucket key).queues = w.queues := by
  cases effect with
  | false | true => rfl

/-- The deletion of an object that no queued message refers to takes no object from a message. -/
theorem objects_deleteObject_of_unreferenced {w : World} {bucket key q : Text} {m : Message}
    (hun : w.Unreferenced bucket key) (hm : m ∈ w.queues q) (effect : Bool) :
    (w.after effect fun w => w.deleteObject bucket key).objects m.envelope.bucket m.envelope.key =
      w.objects m.envelope.bucket m.envelope.key := by
  cases effect with
  | false => rfl
  | true => exact objects_deleteObject_of_ne w (hun q m hm)

end World

/-! ### Errors before the first call -/

namespace Error

/-- No flag is raised. -/
def Unflagged (err : Error E) : Prop := err.orphanedObject = false ∧ err.queueDeleted = false

end Error

/-- Errors without flags. -/
def ChecksOnly (err : Option (Error E)) : Prop := ∀ e, err = some e → e.Unflagged

namespace ChecksOnly

theorem none : ChecksOnly (Option.none : Option (Error E)) := by
  intro e he
  cases he

theorem newError (kind : Kind) (operation : String) (cause : Option (Cause E)) :
    ChecksOnly (some (newError kind operation cause false false)) := by
  rintro e ⟨rfl⟩
  exact ⟨rfl, rfl⟩

theorem ite {c : Prop} [Decidable c] {a b : Option (Error E)} (ha : ChecksOnly a)
    (hb : ChecksOnly b) : ChecksOnly (if c then a else b) := by
  by_cases hc : c
  · rwa [if_pos hc]
  · rwa [if_neg hc]

theorem or {a b : Option (Error E)} (ha : ChecksOnly a) (hb : ChecksOnly b) :
    ChecksOnly (a.or b) := by
  cases a with
  | none => rwa [Option.none_or]
  | some e => rwa [Option.some_or]

theorem contextError (err : Option ContextError) :
    ChecksOnly (contextError err : Option (Error E)) := by
  cases err with
  | none => exact none
  | some err =>
    rintro e ⟨rfl⟩
    exact ⟨rfl, rfl⟩

theorem validate (p : Option Provider) : ChecksOnly (validate p : Option (Error E)) := by
  cases p with
  | none => exact newError _ _ _
  | some p => exact ite (newError _ _ _) none

theorem validateEnvelope (e : Envelope) : ChecksOnly (validateEnvelope e : Option (Error E)) :=
  ite (newError _ _ _) <| ite (newError _ _ _) <| ite (newError _ _ _) <| ite (newError _ _ _) <|
    ite (newError _ _ _) <| ite (newError _ _ _) <| ite (newError _ _ _) none

theorem validateSendRequest (p : Provider) (request : SendRequest) :
    ChecksOnly (validateSendRequest p request : Option (Error E)) :=
  ite (newError _ _ _) <| ite (newError _ _ _) <| ite (newError _ _ _) <| ite (newError _ _ _) <|
    ite (newError _ _ _) none

theorem prepareDelete (ctx : Context) (p : Option Provider) (request : DeleteRequest) :
    ChecksOnly (prepareDelete ctx p request : Option (Error E)) :=
  or (contextError _) <| or (validate p) <| or (ite (newError _ _ _) none) <|
    or (validateEnvelope _) (contextError _)

theorem orElse {α : Type} {err : Option (Error E)} {next : Except (Error E) α} {e : Error E}
    (herr : ChecksOnly err) (hnext : next = .error e → e.Unflagged)
    (h : orElse err next = .error e) : e.Unflagged := by
  cases err with
  | none => exact hnext h
  | some e' =>
    cases h
    exact herr _ rfl

theorem encodeEnvelope {codec : Codec E} {envelope : Envelope} {e : Error E}
    (h : encodeEnvelope codec envelope = .error e) : e.Unflagged := by
  refine orElse (validateEnvelope envelope) (fun hnext => ?_) h
  split at hnext
  · cases hnext
    exact ⟨rfl, rfl⟩
  · split_ifs at hnext
    cases hnext
    exact ⟨rfl, rfl⟩

theorem prepareSend {codec : Codec E} {ctx : Context} {p : Option Provider} {request : SendRequest}
    {e : Error E} (h : prepareSend codec ctx p request = .error e) : e.Unflagged := by
  refine orElse (contextError _) (orElse (validate p) (orElse ?_ fun hnext => ?_)) h
  · cases p with
    | none => exact none
    | some p => exact validateSendRequest p request
  · split at hnext
    · rename_i henc
      cases hnext
      exact encodeEnvelope henc
    · refine orElse (contextError (ctx 1)) (fun hok => ?_) hnext
      cases hok

end ChecksOnly

/-! ### What the operations can do -/

/-- The world after `PutObject`. -/
def World.afterPut (w : World) (clients : Clients E) (request : SendRequest) : World :=
  w.after clients.putObject.effect fun w => w.putObject request.bucket request.key request.payload

/-- The world after `SendMessage`. -/
def World.afterSend (w : World) (clients : Clients E) (request : SendRequest)
    (envelope : Envelope) : World :=
  w.after clients.sendMessage.effect fun w =>
    w.sendMessage request.queueURL ⟨clients.receiptHandle, envelope⟩

/-- The world after `DeleteMessage`. -/
def World.afterDelete (w : World) (clients : Clients E) (request : DeleteRequest) : World :=
  w.after clients.deleteMessage.effect fun w =>
    w.deleteMessage request.queueURL request.receiptHandle

theorem World.queues_afterPut (w : World) (clients : Clients E) (request : SendRequest) :
    (w.afterPut clients request).queues = w.queues := by
  rw [World.afterPut]
  cases clients.putObject.effect with
  | false | true => rfl

/-- `PutObject` has failed with an error and without an output, while the context was live: the one
exit after a call at which `Send` does not report an orphan. -/
def PutRefused (ctx : Context) (clients : Clients E) : Prop :=
  ctx 2 = none ∧ clients.putObject.err ≠ none ∧ clients.putObject.output = none

/-- `Send` gets to call `SendMessage`. -/
def Called (ctx : Context) (clients : Clients E) : Prop :=
  ctx 2 = none ∧ clients.putObject.err = none ∧ clients.putObject.output ≠ none ∧ ctx 3 = none
  deriving Decidable

/-- `SendMessage` has an answer that `Send` can use: the context is still live, there is no error
and the output has a message id. -/
def Acknowledged (ctx : Context) (clients : Clients E) : Prop :=
  ctx 4 = none ∧ clients.sendMessage.err = none ∧
    clients.sendMessage.output.join.any (validRequiredString · 128) = true
  deriving Decidable

/-- **The exits of a `Send` that has passed its checks**, each with its flag and what it leaves
behind. -/
inductive SendExit (codec : Codec E) (ctx : Context) (clients : Clients E) (request : SendRequest)
    (w : World) : Except (Error E) SendResult × World → Prop
  | refused {err : Error E} : PutRefused ctx clients → err.orphanedObject = false →
      SendExit codec ctx clients request w (.error err, w.afterPut clients request)
  | unsent {err : Error E} : ¬PutRefused ctx clients → ¬Called ctx clients →
      err.orphanedObject = true →
      SendExit codec ctx clients request w (.error err, w.afterPut clients request)
  | unanswered {err : Error E} : Called ctx clients → ¬Acknowledged ctx clients →
      err.orphanedObject = true →
      SendExit codec ctx clients request w (.error err,
        (w.afterPut clients request).afterSend clients request (request.envelope codec))
  | sent {result : SendResult} : Called ctx clients → Acknowledged ctx clients →
      SendExit codec ctx clients request w (.ok result,
        (w.afterPut clients request).afterSend clients request (request.envelope codec))

/-- `Delete` does not get to know that the object is deleted: the context ends, or `DeleteObject`
has an error or no output. -/
def PayloadKept (ctx : Context) (clients : Clients E) : Prop :=
  ctx 3 ≠ none ∨ ctx 4 ≠ none ∨ clients.deleteObject.err ≠ none ∨
    clients.deleteObject.output = none

/-- **The exits of a `Delete` that report the message as deleted**: the context has ended during
`DeleteMessage`, or the call has an output and an error, or it has an output and the object is
kept. -/
def DeletedExit (ctx : Context) (clients : Clients E) : Prop :=
  ctx 2 ≠ none ∨ clients.deleteMessage.output ≠ none ∧
    (clients.deleteMessage.err ≠ none ∨ PayloadKept ctx clients)

/-- Whether a `Delete` reports its message as deleted with an error. -/
def reportsDeleted : Option (Error E) → Bool
  | some err => err.queueDeleted
  | none => false

/-- **The exits of a `Delete` that has passed its checks**: it goes on to the object only after
`DeleteMessage` has returned an output. -/
inductive DeleteExit (ctx : Context) (clients : Clients E) (request : DeleteRequest) (w : World) :
    Option (Error E) × World → Prop
  | stopped {err : Error E} : (err.queueDeleted = true ↔ DeletedExit ctx clients) →
      DeleteExit ctx clients request w (some err, w.afterDelete clients request)
  | deleted {out : Option (Error E)} {effect : Bool} : clients.deleteMessage.output ≠ none →
      (reportsDeleted out = true ↔ DeletedExit ctx clients) →
      DeleteExit ctx clients request w (out, (w.afterDelete clients request).after effect fun w =>
        w.deleteObject request.envelope.bucket request.envelope.key)

variable {codec : Codec E} {ctx : Context} {clients : Clients E} {p : Option Provider}

theorem sendExit_of_sendEnvelope {request : SendRequest} {w : World} (h2 : ctx 2 = none)
    (herr : clients.putObject.err = none) (hout : clients.putObject.output ≠ none) :
    SendExit codec ctx clients request w (sendEnvelope ctx clients request (request.envelope codec)
      (w.afterPut clients request)) := by
  fun_cases sendEnvelope ctx clients request (request.envelope codec) (w.afterPut clients request)
  next err h3 => exact .unsent (fun h => h.2.1 herr) (fun h => nomatch h.2.2.2.symm.trans h3) rfl
  all_goals have hcalled : Called ctx clients := ⟨h2, herr, hout, by assumption⟩
  next h4 => exact .unanswered hcalled (fun h => nomatch h.1.symm.trans h4) rfl
  next hsend => exact .unanswered hcalled (fun h => nomatch h.2.1.symm.trans hsend) rfl
  next h4 hsend messageID hid hvalid =>
    exact .sent hcalled ⟨h4, hsend, by simpa [hid] using hvalid⟩
  next messageID hid hvalid =>
    refine .unanswered hcalled (fun h => hvalid ?_) rfl
    simpa [hid] using h.2.2
  next hno =>
    refine .unanswered hcalled (fun h => ?_) rfl
    obtain ⟨messageID, hid, -⟩ := (Option.any_eq_true _ _).mp h.2.2
    exact hno messageID (Option.join_eq_some_iff.mp hid)

/-- **What a `Send` can do** once it has passed its checks. -/
theorem sendExit_of_prepared (clients : Clients E) {request : SendRequest} {body : Text}
    (w : World) (hprep : prepareSend codec ctx p request = .ok body) :
    SendExit codec ctx clients request w (send codec ctx clients p request w) := by
  fun_cases send codec ctx clients p request w
  next err herr => exact nomatch hprep.symm.trans herr
  next err h2 =>
    exact .unsent (fun h => nomatch h.1.symm.trans h2) (fun h => nomatch h.1.symm.trans h2) rfl
  next h2 err herr =>
    have hfailed : clients.putObject.err ≠ none := by simp [herr]
    cases hout : clients.putObject.output with
    | none => exact .refused ⟨h2, hfailed, hout⟩ rfl
    | some _ => exact .unsent (fun h => nomatch h.2.2.symm.trans hout) (fun h => hfailed h.2.1) rfl
  next herr hout =>
    refine .unsent (fun h => h.2.1 herr) (fun h => h.2.2.1 ?_) rfl
    simpa using hout
  next h2 herr hout => exact sendExit_of_sendEnvelope h2 herr (by simpa using hout)

/-- What `DeleteObject` can do: nothing, or delete the object. -/
theorem deletePayload_spec (ctx : Context) (clients : Clients E) (envelope : Envelope) (w : World) :
    ∃ out effect, (reportsDeleted out = true ↔ PayloadKept ctx clients) ∧
      deletePayload ctx clients envelope w =
        (out, w.after effect fun w => w.deleteObject envelope.bucket envelope.key) := by
  unfold PayloadKept
  fun_cases deletePayload ctx clients envelope w
  next err h3 => exact ⟨_, false, iff_of_true rfl (.inl (by simp [h3])), rfl⟩
  next err h4 => exact ⟨_, _, iff_of_true rfl (.inr (.inl (by simp [h4]))), rfl⟩
  next err herr => exact ⟨_, _, iff_of_true rfl (.inr (.inr (.inl (by simp [herr])))), rfl⟩
  next hout => exact ⟨_, _, iff_of_true rfl (.inr (.inr (.inr (by simpa using hout)))), rfl⟩
  next h3 _ h4 herr hout =>
    refine ⟨none, _, iff_of_false Bool.false_ne_true ?_, rfl⟩
    rintro (h | h | h | h)
    · exact h h3
    · exact h h4
    · exact h herr
    · exact hout (by simp [h])

/-- **What a `Delete` can do** once it has passed its checks. -/
theorem deleteExit_of_prepared (clients : Clients E) {request : DeleteRequest} (w : World)
    (hprep : (prepareDelete ctx p request : Option (Error E)) = none) :
    DeleteExit ctx clients request w (delete ctx clients p request w) := by
  fun_cases delete ctx clients p request w
  next err herr => exact nomatch hprep.symm.trans herr
  next err h2 => exact .stopped (iff_of_true rfl (.inl (by simp [h2])))
  next h2 err herr =>
    refine .stopped ⟨fun h => .inr ⟨?_, .inl (by simp [herr])⟩, ?_⟩
    · exact Option.isSome_iff_ne_none.mp h
    · rintro (h | ⟨hout, -⟩)
      · exact absurd h2 h
      · exact Option.isSome_iff_ne_none.mpr hout
  next h2 herr hout =>
    refine .stopped (iff_of_false nofun ?_)
    rintro (h | ⟨h, -⟩)
    · exact h h2
    · exact h (by simpa using hout)
  next h2 herr hout =>
    have hout' : clients.deleteMessage.output ≠ none := by simpa using hout
    obtain ⟨out, effect, hflag, heq⟩ := deletePayload_spec ctx clients
      request.envelope (w.afterDelete clients request)
    refine Eq.subst heq.symm (.deleted hout' (hflag.trans ⟨fun h => .inr ⟨hout', .inr h⟩, ?_⟩))
    rintro (h | ⟨-, h | h⟩)
    · exact absurd h2 h
    · exact absurd herr h
    · exact h

/-! ### The flags -/

variable {request : SendRequest} {w w' : World} {err : Error E}

theorem unreferenced_afterPut {bucket key : Text} :
    (w.afterPut clients request).Unreferenced bucket key ↔ w.Unreferenced bucket key := by
  rw [World.Unreferenced, queues_afterPut, World.Unreferenced]

theorem unreferenced_afterSend :
    (w.afterSend clients request (request.envelope codec)).Unreferenced request.bucket request.key ↔
      w.Unreferenced request.bucket request.key ∧ clients.sendMessage.effect = false := by
  rw [World.afterSend]
  cases clients.sendMessage.effect with
  | false => exact (and_iff_left rfl).symm
  | true =>
    refine iff_of_false (fun hun => ?_) (fun h => nomatch h.2)
    exact hun request.queueURL _ (mem_sendMessage.mpr (.inr ⟨rfl, rfl⟩)) ⟨rfl, rfl⟩

/-- What `DeleteObject` can do: nothing, or delete the object. -/
theorem deleteObject_cases (ctx : Context) (clients : Clients E) (p : Option Provider)
    (envelope : Envelope) (w : World) :
    ∃ effect, (deleteObject ctx clients p envelope w).2 =
      w.after effect fun w => w.deleteObject envelope.bucket envelope.key := by
  fun_cases deleteObject ctx clients p envelope w
  · exact ⟨false, rfl⟩
  all_goals exact ⟨_, rfl⟩

/-- **Deleting the object loses no message**: every queued message stays, with the object it refers
to. -/
def LosesNone (w : World) (envelope : Envelope) : Prop :=
  ∀ (ctx : Context) (clients : Clients E) (p : Option Provider) (q : Text) (m : Message),
    m ∈ w.queues q → m ∈ (deleteObject ctx clients p envelope w).2.queues q ∧
      (deleteObject ctx clients p envelope w).2.objects m.envelope.bucket m.envelope.key =
        w.objects m.envelope.bucket m.envelope.key

theorem losesNone_of_unreferenced {envelope : Envelope}
    (hun : w.Unreferenced envelope.bucket envelope.key) : LosesNone (E := E) w envelope := by
  intro ctx clients p q m hm
  obtain ⟨effect, heq⟩ := deleteObject_cases ctx clients p envelope w
  rw [heq, queues_after_deleteObject]
  exact ⟨hm, objects_deleteObject_of_unreferenced hun hm effect⟩

theorem not_mem_afterDelete {request : DeleteRequest} :
    (∀ m ∈ (w.afterDelete clients request).queues request.queueURL,
      m.receiptHandle ≠ request.receiptHandle) ↔
    clients.deleteMessage.effect = true ∨
      ∀ m ∈ w.queues request.queueURL, m.receiptHandle ≠ request.receiptHandle := by
  rw [World.afterDelete]
  cases clients.deleteMessage.effect with
  | false => exact (or_iff_right nofun).symm
  | true =>
    refine iff_of_true (fun m hm hhandle => ?_) (.inl rfl)
    exact (mem_deleteMessage.mp hm).2 ⟨rfl, hhandle⟩

/-- **When the flags of an error are true.** A `Send` reports an orphan only if no queued message
refers to the object, so that deleting it loses none, exactly if this holds: should it pass its
checks and end at an exit that reports one – any but the success and the refusal of `PutObject` –
no queued message has referred to the object before, and `SendMessage`, if it was called, has had
no effect. A `Delete` reports its message as deleted only if the queue does not have it, exactly
if this holds: should it pass its checks and end at an exit that reports so, `DeleteMessage` has
taken effect, or there was no such message. -/
theorem flags_truthful_iff (codec : Codec E) (ctx : Context) (clients : Clients E)
    (p : Option Provider) (w : World) :
    (∀ request : SendRequest,
      (∀ err, (send codec ctx clients p request w).1 = .error err → err.orphanedObject = true →
        (send codec ctx clients p request w).2.Unreferenced request.bucket request.key ∧
        LosesNone (E := E) (send codec ctx clients p request w).2 (request.envelope codec)) ↔
      ∀ body, prepareSend codec ctx p request = .ok body →
        ¬PutRefused ctx clients → ¬(Called ctx clients ∧ Acknowledged ctx clients) →
        w.Unreferenced request.bucket request.key ∧
          (Called ctx clients → clients.sendMessage.effect = false)) ∧
    ∀ request : DeleteRequest,
      (∀ err, (delete ctx clients p request w).1 = some err → err.queueDeleted = true →
        ∀ m ∈ (delete ctx clients p request w).2.queues request.queueURL,
          m.receiptHandle ≠ request.receiptHandle) ↔
      ((prepareDelete ctx p request : Option (Error E)) = none → DeletedExit ctx clients →
        clients.deleteMessage.effect = true ∨
          ∀ m ∈ w.queues request.queueURL, m.receiptHandle ≠ request.receiptHandle) := by
  refine ⟨fun request => ?_, fun request => ?_⟩
  · have hloses : ∀ {v : World}, v.Unreferenced request.bucket request.key ↔
        v.Unreferenced request.bucket request.key ∧
          LosesNone (E := E) v (request.envelope codec) :=
      fun {v} => ⟨fun h => ⟨h, losesNone_of_unreferenced h⟩, And.left⟩
    simp only [← hloses]
    cases hprep : prepareSend codec ctx p request with
    | error err =>
      refine iff_of_true ?_ nofun
      rw [show send codec ctx clients p request w = (.error err, w) by simp only [send, hprep]]
      rintro _ ⟨⟩ hflag
      exact nomatch (ChecksOnly.prepareSend hprep).1.symm.trans hflag
    | ok body =>
      have hexit := sendExit_of_prepared clients w hprep
      generalize send codec ctx clients p request w = out at hexit ⊢
      cases hexit with
      | refused hrefused hflag =>
        refine iff_of_true ?_ fun _ _ hne => absurd hrefused hne
        rintro _ ⟨⟩ h
        exact nomatch hflag.symm.trans h
      | unsent hne hcalled hflag =>
        constructor
        · intro h _ _ _ _
          exact ⟨unreferenced_afterPut.mp (h _ rfl hflag), fun hc => absurd hc hcalled⟩
        · rintro h _ ⟨⟩ -
          exact unreferenced_afterPut.mpr (h body rfl hne fun hc => hcalled hc.1).1
      | unanswered hcalled hack hflag =>
        constructor
        · intro h _ _ _ _
          obtain ⟨hun, heffect⟩ := unreferenced_afterSend.mp (h _ rfl hflag)
          exact ⟨unreferenced_afterPut.mp hun, fun _ => heffect⟩
        · rintro h _ ⟨⟩ -
          obtain ⟨hun, heffect⟩ := h body rfl (fun hr => hr.2.1 hcalled.2.1) fun hc => hack hc.2
          exact unreferenced_afterSend.mpr ⟨unreferenced_afterPut.mpr hun, heffect hcalled⟩
      | sent hcalled hack =>
        exact iff_of_true nofun fun _ _ _ hne => absurd ⟨hcalled, hack⟩ hne
  · rw [← not_mem_afterDelete]
    cases hprep : (prepareDelete ctx p request : Option (Error E)) with
    | some err =>
      refine iff_of_true ?_ nofun
      rw [show delete ctx clients p request w = (some err, w) by simp only [delete, hprep]]
      rintro _ ⟨⟩ hflag
      exact nomatch (ChecksOnly.prepareDelete ctx p request err hprep).2.symm.trans hflag
    | none =>
      have hexit := deleteExit_of_prepared clients w hprep
      generalize delete ctx clients p request w = out at hexit ⊢
      cases hexit with
      | stopped hflag =>
        constructor
        · exact fun h _ hexit => h _ rfl (hflag.mpr hexit)
        · rintro h _ ⟨⟩ hfl
          exact h rfl (hflag.mp hfl)
      | @deleted out effect _ hflag =>
        rw [queues_after_deleteObject]
        constructor
        · intro h _ hexit
          have := hflag.mpr hexit
          cases out with
          | none => exact nomatch this
          | some err => exact h err rfl this
        · rintro h err rfl hfl
          exact h rfl (hflag.mp hfl)

/-! ### Examples of calls -/

/-- A codec. -/
def plainCodec : Codec Unit where
  marshal e := .ok (e.bucket ++ e.key)
  payloadChecksum _ := List.replicate 64 0x30

/-- A call that succeeds. -/
def Reply.done {O : Type} (out : O) : Reply O Unit := ⟨true, some out, none⟩

/-- All calls succeed. -/
def goodClients : Clients Unit where
  putObject := .done ()
  sendMessage := .done (some (ascii "id"))
  receiptHandle := ascii "r"
  deleteMessage := .done ()
  deleteObject := .done ()

/-- `SendMessage` fails; it may have taken effect. -/
def sendFails (effect : Bool) : Clients Unit :=
  { goodClients with sendMessage := ⟨effect, none, some ()⟩ }

/-- `DeleteMessage` fails without an output; it may have taken effect. -/
def deleteFails (effect : Bool) : Clients Unit :=
  { goodClients with deleteMessage := ⟨effect, none, some ()⟩ }

/-- The context ends during the first call. -/
def endsDuringFirst : Context := fun look => if look < 2 then none else some .canceled

/-- A context that does not end. -/
def live : Context := fun _ => none

/-- A provider for short payloads. -/
def plainProvider : Option Provider := some ⟨true, 16, 16⟩

/-- A request. -/
def plainRequest : SendRequest := ⟨ascii "q", ascii "b", ascii "k", ascii "data", [], none⟩

/-- Nothing is stored. -/
def World.empty : World := ⟨fun _ => [], fun _ _ => none⟩

/-- What is queued for it. -/
def plainMessage : Message := ⟨ascii "r", plainRequest.envelope plainCodec⟩

/-- The request to delete it. -/
def plainDelete : DeleteRequest := ⟨ascii "q", ascii "r", plainMessage.envelope⟩

theorem World.unreferenced_empty (bucket key : Text) : empty.Unreferenced bucket key := by
  intro q m hm
  cases hm

/-- **The flags of an error may be false**: a `SendMessage` that takes effect and returns an error
leaves an object that is reported as orphaned and that a queued message refers to, and deleting it
takes the payload from the message; a `DeleteMessage` that has no effect while the context ends
leaves a message in the queue that is reported as deleted. -/
theorem flags_may_be_false :
    (empty.Unreferenced plainRequest.bucket plainRequest.key ∧
      ∃ err, (send plainCodec live (sendFails true) plainProvider plainRequest .empty).1 =
          .error err ∧ err.orphanedObject = true ∧
        plainMessage.RefersTo plainRequest.bucket plainRequest.key ∧
        plainMessage ∈ (send plainCodec live (sendFails true) plainProvider plainRequest
          .empty).2.queues (ascii "q") ∧
        (send plainCodec live (sendFails true) plainProvider plainRequest .empty).2.objects
          (ascii "b") (ascii "k") = some (ascii "data") ∧
        (deleteObject live goodClients plainProvider (plainRequest.envelope plainCodec)
          (send plainCodec live (sendFails true) plainProvider plainRequest .empty).2).2.objects
          (ascii "b") (ascii "k") = none) ∧
    ∃ err, (delete endsDuringFirst (deleteFails false) plainProvider plainDelete
          (empty.sendMessage (ascii "q") plainMessage)).1 = some err ∧
        err.queueDeleted = true ∧
        plainMessage ∈ (delete endsDuringFirst (deleteFails false) plainProvider plainDelete
          (empty.sendMessage (ascii "q") plainMessage)).2.queues (ascii "q") := by
  refine ⟨⟨unreferenced_empty _ _,
    newError .messageSendFailed "send message" (some (.client ())) true false, ?_⟩,
    canceled .canceled "delete message" false true, ?_⟩
  · decide +kernel
  · decide +kernel

end Bluetape.SqsExtended
