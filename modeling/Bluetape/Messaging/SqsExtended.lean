import Bluetape.GoString

/-!
# Large messages: an object in S3 and an envelope in SQS

`Send` stores the payload as an object and queues an envelope that refers to it; `Delete`
removes the message and then the object; `DeleteObject` removes an object that was left behind.
Each of them is a sequence of checks and of calls to the two services, and each error says with
two flags what has been left behind: that the object of a `Send` is *orphaned*, or that the
message of a `Delete` is gone from the queue.

What a call does and what it returns are two things (`Reply`): it may take effect and return an
error or nothing, and it may have no effect. The context is looked at before and after each call,
and may end at any time (`Context`). The state of the services is the `World`: the messages of each
queue with the envelopes they hold, and the objects.

The encoding of an envelope and the checksum of a payload are parameters.
-/

namespace Bluetape.SqsExtended

open GoString

/-! ### Errors -/

/-- What went wrong. -/
inductive Kind where
  | nilClient
  | invalidOptions
  | invalidRequest
  | invalidEnvelope
  | unsupportedVersion
  | envelopeTooLarge
  | payloadTooLarge
  | objectPutFailed
  | messageSendFailed
  | messageDeleteFailed
  | objectDeleteFailed
  | malformedOutput
  | canceled
  deriving DecidableEq

/-- The errors of a context. -/
inductive ContextError where
  | canceled
  | deadlineExceeded
  deriving DecidableEq

/-- The answers of the context, one for each look. -/
abbrev Context := ℕ → Option ContextError

variable {E : Type}

/-- The error that is wrapped. -/
inductive Cause (E : Type) where
  | context (err : ContextError)
  | client (err : E)
  deriving DecidableEq

/-- `Error` of the package. -/
structure ProviderError (E : Type) where
  kind : Kind
  operation : String
  cause : Option (Cause E)
  orphaned : Bool
  queueDeleted : Bool
  deriving DecidableEq

/-- What an operation returns: the error of the context itself, or one of the package. -/
inductive Error (E : Type) where
  | context (err : ContextError)
  | provider (err : ProviderError E)
  deriving DecidableEq

/-- An operation that may be named in an error. -/
def safeOperation (operation : String) : String :=
  if operation ∈ ["validate options", "validate request", "encode envelope", "decode envelope",
      "send", "put object", "send message", "receive", "get object", "read object", "delete",
      "delete message", "delete object"] then operation
  else ""

/-- `newError`, with the two flags. -/
def newError (kind : Kind) (operation : String) (cause : Option (Cause E))
    (orphaned queueDeleted : Bool) : Error E :=
  .provider ⟨kind, safeOperation operation, cause, orphaned, queueDeleted⟩

namespace Error

/-- The object is orphaned. -/
def orphanedObject : Error E → Bool
  | .context _ => false
  | .provider err => err.orphaned

/-- The message is deleted. -/
def queueDeleted : Error E → Bool
  | .context _ => false
  | .provider err => err.queueDeleted

end Error

/-! ### Envelopes -/

/-- What is queued instead of the payload. -/
structure Envelope where
  version : ℤ
  bucket : Text
  key : Text
  contentSize : ℤ
  checksum : Text
  contentType : Text
  encryptionMetadata : Option (List (Text × Text))
  deriving DecidableEq

/-- The only version. -/
def envelopeVersion : ℤ := 1

/-- 256 MiB. -/
def defaultMaxPayloadSize : ℤ := 268435456

/-- 512 MiB. -/
def defaultMaxReceivePayloadSize : ℤ := 536870912

/-- In bytes, once encoded. -/
def maxEnvelopeSize : ℕ := 65536

/-- In bytes. -/
def maxBucketSize : ℕ := 1024

/-- In bytes. -/
def maxObjectKeySize : ℕ := 1024

/-- In bytes. -/
def maxContentTypeSize : ℕ := 1024

/-- The number of entries. -/
def maxMetadataEntries : ℕ := 32

/-- In bytes. -/
def maxMetadataKeySize : ℕ := 128

/-- In bytes. -/
def maxMetadataValSize : ℕ := 2048

/-- Valid UTF-8, and not too long. -/
def validString (value : Text) (maxBytes : ℕ) : Bool :=
  decide (value.length ≤ maxBytes) && validUTF8 value

/-- Not blank, either. -/
def validRequiredString (value : Text) (maxBytes : ℕ) : Bool :=
  decide (value ≠ []) && validString value maxBytes && decide (trimSpace value ≠ [])

/-- Lower-case hexadecimal digits. -/
def isLowerHex (value : Text) : Bool :=
  value.all fun b => (0x30 ≤ b && b ≤ 0x39) || (0x61 ≤ b && b ≤ 0x66)

/-- The entries of the metadata, which may be nil, are valid. -/
def validMetadata (metadata : Option (List (Text × Text))) : Bool :=
  (metadata.getD []).all fun e =>
    validRequiredString e.1 maxMetadataKeySize && validString e.2 maxMetadataValSize

/-- The checks of an envelope. -/
def validateEnvelope (e : Envelope) : Option (Error E) :=
  if e.version ≠ envelopeVersion then
    some (newError .unsupportedVersion "validate envelope" none false false)
  else if !validRequiredString e.bucket maxBucketSize ||
      !validRequiredString e.key maxObjectKeySize then
    some (newError .invalidEnvelope "validate envelope" none false false)
  else if e.contentSize < 0 ∨ defaultMaxPayloadSize < e.contentSize then
    some (newError .payloadTooLarge "validate envelope" none false false)
  else if e.checksum.length ≠ 64 ∨ isLowerHex e.checksum = false then
    some (newError .invalidEnvelope "validate envelope" none false false)
  else if e.contentType ≠ [] ∧ validRequiredString e.contentType maxContentTypeSize = false then
    some (newError .invalidEnvelope "validate envelope" none false false)
  else if maxMetadataEntries < (e.encryptionMetadata.getD []).length then
    some (newError .invalidEnvelope "validate envelope" none false false)
  else if !validMetadata e.encryptionMetadata then
    some (newError .invalidEnvelope "validate envelope" none false false)
  else none

/-- JSON and SHA-256. -/
structure Codec (E : Type) where
  /-- `json.Marshal` of an envelope. -/
  marshal : Envelope → Except E Text
  payloadChecksum : Text → Text

/-- A check, and what follows it. -/
def orElse {α : Type} (err : Option (Error E)) (next : Except (Error E) α) : Except (Error E) α :=
  match err with
  | some e => .error e
  | none => next

/-- An envelope as the body of a message. -/
def encodeEnvelope (codec : Codec E) (e : Envelope) : Except (Error E) Text :=
  orElse (validateEnvelope e) <|
    match codec.marshal e with
    | .error err =>
      .error (newError .invalidEnvelope "encode envelope" (some (.client err)) false false)
    | .ok encoded =>
      if maxEnvelopeSize < encoded.length then
        .error (newError .envelopeTooLarge "encode envelope" none false false)
      else .ok encoded

/-! ### The services -/

/-- A message of a queue: the handle to delete it with, and its envelope. -/
structure Message where
  receiptHandle : Text
  envelope : Envelope
  deriving DecidableEq

/-- **The state of the two services.** -/
structure World where
  queues : Text → List Message
  objects : Text → Text → Option Text

namespace World

/-- `PutObject`. -/
def putObject (w : World) (bucket key payload : Text) : World :=
  { w with objects := fun b k => if b = bucket ∧ k = key then some payload else w.objects b k }

/-- `DeleteObject`. -/
def deleteObject (w : World) (bucket key : Text) : World :=
  { w with objects := fun b k => if b = bucket ∧ k = key then none else w.objects b k }

/-- `SendMessage`. -/
def sendMessage (w : World) (queueURL : Text) (m : Message) : World :=
  { w with queues := fun q => if q = queueURL then w.queues q ++ [m] else w.queues q }

/-- `DeleteMessage`. -/
def deleteMessage (w : World) (queueURL receiptHandle : Text) : World :=
  { w with queues := fun q =>
      if q = queueURL then (w.queues q).filter fun m => decide (m.receiptHandle ≠ receiptHandle)
      else w.queues q }

/-- A call that may have no effect. -/
def after (w : World) (effect : Bool) (change : World → World) : World :=
  if effect then change w else w

end World

/-- **What a call does and returns**: whether it has taken effect, its output, which may be nil,
and its error. -/
structure Reply (O E : Type) where
  effect : Bool
  output : Option O
  err : Option E

/-- What the calls do and answer. -/
structure Clients (E : Type) where
  putObject : Reply Unit E
  sendMessage : Reply (Option Text) E
  /-- The handle with which the message that was sent can be deleted. -/
  receiptHandle : Text
  deleteMessage : Reply Unit E
  deleteObject : Reply Unit E

/-! ### The provider -/

/-- What `New` returns. -/
structure Provider where
  hasClients : Bool
  maxPayloadSize : ℤ
  maxReceivePayloadSize : ℤ

/-- What `New` is given. -/
structure Options where
  hasClients : Bool
  maxPayloadSize : ℤ
  maxReceivePayloadSize : ℤ

/-- `New`. -/
def new (options : Options) : Except (Error E) Provider :=
  if !options.hasClients then .error (newError .nilClient "validate options" none false false)
  else
    let maxPayloadSize :=
      if options.maxPayloadSize = 0 then defaultMaxPayloadSize else options.maxPayloadSize
    if maxPayloadSize < 1 ∨ defaultMaxPayloadSize < maxPayloadSize then
      .error (newError .invalidOptions "validate options" none false false)
    else
      let maxReceivePayloadSize :=
        if options.maxReceivePayloadSize = 0 then defaultMaxReceivePayloadSize
        else options.maxReceivePayloadSize
      if maxReceivePayloadSize < maxPayloadSize ∨
          defaultMaxReceivePayloadSize < maxReceivePayloadSize then
        .error (newError .invalidOptions "validate options" none false false)
      else .ok ⟨options.hasClients, maxPayloadSize, maxReceivePayloadSize⟩

/-- `validate` of a provider, which may be nil. -/
def validate (p : Option Provider) : Option (Error E) :=
  match p with
  | none => some (newError .invalidOptions "validate options" none false false)
  | some p =>
    if !p.hasClients || decide (p.maxPayloadSize < 1) then
      some (newError .invalidOptions "validate options" none false false)
    else none

/-- **What `New` returns passes `validate`.** -/
theorem validate_new {options : Options} {p : Provider}
    (h : (new options : Except (Error E) Provider) = .ok p) :
    (validate (some p) : Option (Error E)) = none := by
  simp only [new] at h
  -- The sizes after the defaults: only the first is checked again.
  generalize (if options.maxPayloadSize = 0 then _ else _) = size at h
  generalize (if options.maxReceivePayloadSize = 0 then _ else _) = total at h
  rcases Bool.eq_false_or_eq_true options.hasClients with hclients | hclients
  · rw [hclients] at h
    by_cases hsize : size < 1 ∨ defaultMaxPayloadSize < size
    · simp [hsize] at h
    · by_cases htotal : total < size ∨ defaultMaxReceivePayloadSize < total
      · simp [hsize, htotal] at h
      · simp only [hsize, htotal, Bool.not_true, Bool.false_eq_true, if_false] at h
        cases h
        have hpos : ¬size < 1 := fun hlt => hsize (.inl hlt)
        simp [validate, hpos]
  · simp [hclients] at h

/-- What `Send` is given. -/
structure SendRequest where
  queueURL : Text
  bucket : Text
  key : Text
  payload : Text
  contentType : Text
  encryptionMetadata : Option (List (Text × Text))

/-- The checks of a request. -/
def validateSendRequest (p : Provider) (request : SendRequest) : Option (Error E) :=
  if !validRequiredString request.queueURL 2048 ||
      !validRequiredString request.bucket maxBucketSize ||
      !validRequiredString request.key maxObjectKeySize then
    some (newError .invalidRequest "validate request" none false false)
  else if p.maxPayloadSize < request.payload.length then
    some (newError .payloadTooLarge "validate request" none false false)
  else if request.contentType ≠ [] ∧ (validUTF8 request.contentType = false ∨
      trimSpace request.contentType = [] ∨ maxContentTypeSize < request.contentType.length) then
    some (newError .invalidRequest "validate request" none false false)
  else if maxMetadataEntries < (request.encryptionMetadata.getD []).length then
    some (newError .invalidRequest "validate request" none false false)
  else if !validMetadata request.encryptionMetadata then
    some (newError .invalidRequest "validate request" none false false)
  else none

/-- An error of the context, as it is. -/
def contextError (err : Option ContextError) : Option (Error E) := err.map .context

/-- The envelope of a request. -/
def SendRequest.envelope (codec : Codec E) (request : SendRequest) : Envelope :=
  { version := envelopeVersion
    bucket := request.bucket
    key := request.key
    contentSize := request.payload.length
    checksum := codec.payloadChecksum request.payload
    contentType := request.contentType
    encryptionMetadata := request.encryptionMetadata }

/-- The part of `Send` before the first call. -/
def prepareSend (codec : Codec E) (ctx : Context) (p : Option Provider) (request : SendRequest) :
    Except (Error E) Text :=
  orElse (contextError (ctx 0)) <|
    orElse (validate p) <|
      orElse (p.bind fun p => validateSendRequest p request) <|
        match encodeEnvelope codec (request.envelope codec) with
        | .error err => .error err
        | .ok body => orElse (contextError (ctx 1)) (.ok body)

/-- What `Send` returns. -/
structure SendResult where
  messageID : Text
  envelope : Envelope
  deriving DecidableEq

/-- The context has ended during a call. -/
def canceled (err : ContextError) (operation : String) (orphaned queueDeleted : Bool) : Error E :=
  newError .canceled operation (some (.context err)) orphaned queueDeleted

/-- The part of `Send` after `PutObject`. -/
def sendEnvelope (ctx : Context) (clients : Clients E) (request : SendRequest)
    (envelope : Envelope) (w : World) : Except (Error E) SendResult × World :=
  match ctx 3 with
  | some err => (.error (canceled err "send message" true false), w)
  | none =>
    let w := w.after clients.sendMessage.effect fun w =>
      w.sendMessage request.queueURL ⟨clients.receiptHandle, envelope⟩
    match ctx 4 with
    | some err => (.error (canceled err "send message" true false), w)
    | none =>
      match clients.sendMessage.err with
      | some err =>
        (.error (newError .messageSendFailed "send message" (some (.client err)) true false), w)
      | none =>
        match clients.sendMessage.output with
        | some (some messageID) =>
          if validRequiredString messageID 128 then (.ok ⟨messageID, envelope⟩, w)
          else (.error (newError .malformedOutput "send message" none true false), w)
        | _ => (.error (newError .malformedOutput "send message" none true false), w)

/-- **`Send`.** -/
def send (codec : Codec E) (ctx : Context) (clients : Clients E) (p : Option Provider)
    (request : SendRequest) (w : World) : Except (Error E) SendResult × World :=
  match prepareSend codec ctx p request with
  | .error err => (.error err, w)
  | .ok _ =>
    let w := w.after clients.putObject.effect fun w =>
      w.putObject request.bucket request.key request.payload
    match ctx 2 with
    | some err => (.error (canceled err "put object" true false), w)
    | none =>
      match clients.putObject.err with
      | some err =>
        (.error (newError .objectPutFailed "put object" (some (.client err))
          clients.putObject.output.isSome false), w)
      | none =>
        if clients.putObject.output.isNone then
          (.error (newError .malformedOutput "put object" none true false), w)
        else sendEnvelope ctx clients request (request.envelope codec) w

/-- What `Delete` is given. -/
structure DeleteRequest where
  queueURL : Text
  receiptHandle : Text
  envelope : Envelope

/-- The part of `Delete` after `DeleteMessage`. -/
def deletePayload (ctx : Context) (clients : Clients E) (envelope : Envelope) (w : World) :
    Option (Error E) × World :=
  match ctx 3 with
  | some err => (some (canceled err "delete object" false true), w)
  | none =>
    let w := w.after clients.deleteObject.effect fun w =>
      w.deleteObject envelope.bucket envelope.key
    match ctx 4 with
    | some err => (some (canceled err "delete object" false true), w)
    | none =>
      match clients.deleteObject.err with
      | some err =>
        (some (newError .objectDeleteFailed "delete object" (some (.client err)) false true), w)
      | none =>
        if clients.deleteObject.output.isNone then
          (some (newError .malformedOutput "delete object" none false true), w)
        else (none, w)

/-- What `Delete` checks before its first call. -/
def prepareDelete (ctx : Context) (p : Option Provider) (request : DeleteRequest) :
    Option (Error E) :=
  (contextError (ctx 0)).or <| (validate p).or <| (if !validRequiredString request.queueURL 2048 ||
        !validRequiredString request.receiptHandle 1024 then
      some (newError .invalidRequest "validate request" none false false) else none).or <|
    (validateEnvelope request.envelope).or <| contextError (ctx 1)

/-- **`Delete`.** -/
def delete (ctx : Context) (clients : Clients E) (p : Option Provider) (request : DeleteRequest)
    (w : World) : Option (Error E) × World :=
  match prepareDelete ctx p request with
  | some err => (some err, w)
  | none =>
    let w := w.after clients.deleteMessage.effect fun w =>
      w.deleteMessage request.queueURL request.receiptHandle
    match ctx 2 with
    | some err => (some (canceled err "delete message" false true), w)
    | none =>
      match clients.deleteMessage.err with
      | some err =>
        (some (newError .messageDeleteFailed "delete message" (some (.client err)) false
          clients.deleteMessage.output.isSome), w)
      | none =>
        if clients.deleteMessage.output.isNone then
          (some (newError .malformedOutput "delete message" none false false), w)
        else deletePayload ctx clients request.envelope w

/-- **`DeleteObject`.** -/
def deleteObject (ctx : Context) (clients : Clients E) (p : Option Provider) (envelope : Envelope)
    (w : World) : Option (Error E) × World :=
  match (contextError (ctx 0)).or <| (validate p).or <| (validateEnvelope envelope).or <|
      contextError (ctx 1) with
  | some err => (some err, w)
  | none =>
    let w := w.after clients.deleteObject.effect fun w =>
      w.deleteObject envelope.bucket envelope.key
    match ctx 2 with
    | some err => (some (.context err), w)
    | none =>
      match clients.deleteObject.err with
      | some err =>
        (some (newError .objectDeleteFailed "delete object" (some (.client err)) false false), w)
      | none =>
        if clients.deleteObject.output.isNone then
          (some (newError .malformedOutput "delete object" none false false), w)
        else (none, w)

end Bluetape.SqsExtended
