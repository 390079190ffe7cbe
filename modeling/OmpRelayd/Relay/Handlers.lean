/-
  OmpRelayd.Relay.Handlers — what a connection's reader does with each thing it reads
  (server/src/relay.rs: `run_reader`, `handle_inbound`, `handle_frame` and what they call).

  A handler runs without awaiting, so nothing of its own connection comes in between; other
  connections' tasks run on other threads, and every use of something shared is a point where
  they may have moved: a section of the registry lock, one `try_send` on a peer's outbound
  queue, one section of the store. Those uses, and those of the connection's own reply
  channel, are its calls (`Call`). The same programs are run in one go by `Relay.Effects` and
  one call at a time, among other tasks, by `Relay.System`.

  `encode` stands for MessagePack, `debugChar` and `idleDebug` for the standard library's
  `Debug`; logging is left out.
-/

import OmpRelayd.Blob.Index
import OmpRelayd.Lib.Bytes
import OmpRelayd.Lib.Prog
import OmpRelayd.Relay.Registry

namespace OmpRelayd.Relay

def outboundQueueCapacity : Nat := 128

def replyQueueCapacity : Nat := 8

def diagnosticReserve : Nat := 1

def maxDiagnosticBytes : Nat := 1024

/-- What the relay is built on and configured with. -/
structure Env where
  encode : ServerFrame → Option Bytes
  debugChar : Char → String
  /-- The idle deadline, as its diagnostic spells it. -/
  idleDebug : String
  /-- A payload store is attached. -/
  blobs : Bool

inductive TrySendError where
  | full
  | closed
  deriving DecidableEq, Repr

inductive Call where
  | capacity
  | trySend (frame : ServerFrame)
  | tryReserve
  | permitSend (frame : ServerFrame)
  | permitDrop
  | listPeers (room : RoomId)
  | outboundOf (room : RoomId) (target : String)
  | recipients (room : RoomId) (announcer : String)
  | enqueue (outbound : Nat) (payload : Bytes)
  | reserve (room : RoomId) (digest : String) (bytes : Nat)
  deriving DecidableEq, Repr

abbrev Call.Answer : Call → Type
  | .capacity => Nat
  | .trySend _ => Except TrySendError Unit
  | .tryReserve => Bool
  | .permitSend _ => Unit
  | .permitDrop => Unit
  | .listPeers _ => List String
  | .outboundOf _ _ => Option Nat
  | .recipients _ _ => List Nat
  | .enqueue _ _ => ReceiptStatus
  | .reserve _ _ _ => Except Blob.Refusal Blob.Grant

abbrev Handler := Prog Call Call.Answer

def ask (call : Call) : Handler call.Answer := Prog.ask call

inductive ControlFlow where
  | continues
  | breaks
  deriving DecidableEq, Repr

/-- The guard a connection's handlers are given. -/
structure RegisteredPeer where
  room : RoomId
  peer : String
  connectionId : Nat
  deriving DecidableEq, Repr

structure Submission where
  id : String
  body : String
  replyTo : Option String
  attachment : Option String
  deriving DecidableEq, Repr

inductive Routed where
  | status (status : ReceiptStatus)
  | unwritable
  deriving DecidableEq, Repr

structure Fanout where
  delivered : Nat := 0
  shed : Nat := 0
  deriving DecidableEq, Repr

/-! ## The reply channel -/

def capDiagnostic (message : String) : String := truncateBytes maxDiagnosticBytes message

def queueDiagnostic (code : ErrorCode) (message : String) : Handler Unit := do
  let _ ← ask (.trySend (.error code (some (capDiagnostic message)) none))
  pure ()

def enqueueReply (frame : ServerFrame) : Handler ControlFlow := do
  let free : Nat ← ask .capacity
  if free ≤ diagnosticReserve then pure .continues
  else
    let queued : Except TrySendError Unit ← ask (.trySend frame)
    match queued with
    | .ok () => pure .continues
    | .error .full => pure .continues
    | .error .closed => pure .breaks

def reserveAcknowledgement : Handler Bool := do
  let free : Nat ← ask .capacity
  if free ≤ diagnosticReserve then pure false else ask .tryReserve

def claimAcknowledgement (what : String) : Handler Bool := do
  let slot ← reserveAcknowledgement
  if slot then pure true
  else
    queueDiagnostic .idleTimeout
      s!"replies are not being drained, so this {what} cannot be acknowledged; it was not performed"
    pure false

def refuseOverBudget (field : String) (bodyBytes : Nat) : Handler ControlFlow := do
  queueDiagnostic .frameTooLarge
    s!"{field} is {bodyBytes} bytes; at most {maxBodyBytes} can be relayed within the {maxFrameBytes}-byte frame cap"
  pure .breaks

def refuseUnwritable (produced : String) : Handler ControlFlow := do
  queueDiagnostic .frameTooLarge
    s!"the {produced} this frame would produce does not fit the frame cap; it was not routed"
  pure .breaks

/-! ## Routing -/

def encodeDelivery (env : Env) (frame : ServerFrame) : Option Bytes :=
  (env.encode frame).filter fun payload => payload.length ≤ maxFrameBytes

def route (env : Env) (room : RoomId) (target : String) (frame : ServerFrame) : Handler Routed := do
  let outbound : Option Nat ← ask (.outboundOf room target)
  match outbound with
  | none => pure (.status .peerOffline)
  | some outbound =>
    match encodeDelivery env frame with
    | none => pure .unwritable
    | some payload =>
      let status : ReceiptStatus ← ask (.enqueue outbound payload)
      pure (.status status)

def fanoutTo (payload : Bytes) : List Nat → Fanout → Handler Fanout
  | [], counts => pure counts
  | outbound :: rest, counts => do
    let status : ReceiptStatus ← ask (.enqueue outbound payload)
    if status = .routed then fanoutTo payload rest { counts with delivered := counts.delivered + 1 }
    else fanoutTo payload rest { counts with shed := counts.shed + 1 }

def fanout (room : RoomId) (announcer : String) (payload : Bytes) : Handler Fanout := do
  let recipients : List Nat ← ask (.recipients room announcer)
  fanoutTo payload recipients {}

/-! ## Requests -/

def boundedTarget (target : String) : String := truncateBytes maxIdentifierBytes target

/-- A recoverable rejection that names a field. -/
def rejectField (field reason : String) (requestId : Option String) : Handler ControlFlow :=
  enqueueReply (.error .invalidIdentifier (some (field ++ " " ++ reason)) requestId)

def optionalError {ε : Type} (validate : String → Except ε Unit) (value : Option String) : Option ε :=
  value.bind fun v => match validate v with
    | .error error => some error
    | .ok () => none

/-- The frame a submission becomes for whoever it is addressed to. -/
def Submission.message (submitted : Submission) (sender : String) : ServerFrame :=
  .message submitted.id sender submitted.body submitted.replyTo submitted.attachment

def Submission.notice (submitted : Submission) (sender : String) : ServerFrame :=
  .notice submitted.id sender submitted.body submitted.replyTo submitted.attachment

/-- The checks `send` and `announce` share after their own: `reply_to`, `attachment`, the body. -/
def checkSubmission (env : Env) (frame field : String) (submitted : Submission) (accept : Handler ControlFlow) :
    Handler ControlFlow :=
  match optionalError validateCorrelationId submitted.replyTo with
  | some error => rejectField (frame ++ ".reply_to") (error.text env.debugChar) (some submitted.id)
  | none =>
    match optionalError validateDigest submitted.attachment with
    | some error => rejectField (frame ++ ".attachment") (error.text env.debugChar) (some submitted.id)
    | none =>
      match bodyOverBudget submitted.body with
      | some bodyBytes => refuseOverBudget field bodyBytes
      | none => accept

def handleSend (env : Env) (registered : RegisteredPeer) (target : String) (submitted : Submission) :
    Handler ControlFlow :=
  match validateCorrelationId submitted.id with
  | .error error => rejectField "send.id" (error.text env.debugChar) none
  | .ok () =>
    match validateIdentifier target with
    | .error _ => enqueueReply (.receipt submitted.id (boundedTarget target) .invalidTarget)
    | .ok () =>
      checkSubmission env "send" "body" submitted do
        let receiptSlot ← claimAcknowledgement "send"
        if receiptSlot then
          let outcome ← route env registered.room target (submitted.message registered.peer)
          match outcome with
          | .unwritable =>
            let _ ← ask .permitDrop
            refuseUnwritable "message"
          | .status status =>
            let _ ← ask (.permitSend (.receipt submitted.id target status))
            pure .continues
        else pure .breaks

def handleAnnounce (env : Env) (registered : RegisteredPeer) (submitted : Submission) : Handler ControlFlow :=
  match validateCorrelationId submitted.id with
  | .error error => rejectField "announce.id" (error.text env.debugChar) none
  | .ok () =>
    checkSubmission env "announce" "announced body" submitted do
      let acceptedSlot ← claimAcknowledgement "announcement"
      if acceptedSlot then
        match encodeDelivery env (submitted.notice registered.peer) with
        | none =>
          let _ ← ask .permitDrop
          refuseUnwritable "notice"
        | some payload =>
          let counts ← fanout registered.room registered.peer payload
          let _ ← ask (.permitSend (.accepted submitted.id counts.delivered counts.shed))
          pure .continues
      else pure .breaks

def reserveStatus : Blob.Refusal → ReserveStatus
  | .payloadTooLarge => .payloadTooLarge
  | .roomFull => .roomFull
  | .storeFull => .storeFull

/-- The answer to a reservation; a lifetime is told in whole seconds. -/
def reservedFrame (requestId : String) : Except Blob.Refusal Blob.Grant → ServerFrame
  | .ok grant => .reserved requestId .granted (some (grant.timeToLive / Blob.nanos))
  | .error refusal => .reserved requestId (reserveStatus refusal) none

def handleReserve (env : Env) (registered : RegisteredPeer) (requestId digest : String) (bytes : Nat) :
    Handler ControlFlow :=
  match validateCorrelationId requestId with
  | .error error => rejectField "reserve.request_id" (error.text env.debugChar) none
  | .ok () =>
    match validateDigest digest with
    | .error error => rejectField "reserve.digest" (error.text env.debugChar) (some requestId)
    | .ok () =>
      if env.blobs then do
        let replySlot ← claimAcknowledgement "reservation"
        if replySlot then
          let granted : Except Blob.Refusal Blob.Grant ← ask (.reserve registered.room digest bytes)
          let _ ← ask (.permitSend (reservedFrame requestId granted))
          pure .continues
        else pure .breaks
      else
        enqueueReply (.error .unsupportedFrame (some "this relay holds no payloads, so nothing can be reserved")
          (some requestId))

def handleFrame (env : Env) (registered : RegisteredPeer) : ClientFrame → Handler ControlFlow
  | .hello _ _ _ => do
    queueDiagnostic .duplicateHello "this connection is already registered"
    pure .breaks
  | .ping => enqueueReply .pong
  | .list requestId =>
    match validateCorrelationId requestId with
    | .error error => rejectField "list.request_id" (error.text env.debugChar) none
    | .ok () => do
      let peers : List String ← ask (.listPeers registered.room)
      enqueueReply (.peers requestId peers)
  | .send id target body replyTo attachment => handleSend env registered target ⟨id, body, replyTo, attachment⟩
  | .announce id body replyTo attachment => handleAnnounce env registered ⟨id, body, replyTo, attachment⟩
  | .reserve requestId digest bytes => handleReserve env registered requestId digest bytes
  | .unsupported =>
    enqueueReply (.error .unsupportedFrame (some "this protocol version does not implement that frame") none)

/-! ## Reading -/

/-- What the framing layer and the decoder make of the next read. A framing violation comes with
    the code it is reported under; a transport failure with none. -/
inductive Inbound where
  | ended
  | failed (code : Option ErrorCode) (error : String)
  | undecodable (error : String)
  | decoded (frame : ClientFrame)
  deriving DecidableEq, Repr

def handleInbound (env : Env) (registered : RegisteredPeer) : Inbound → Handler ControlFlow
  | .ended => pure .breaks
  | .failed none _ => pure .breaks
  | .failed (some code) error => do
    queueDiagnostic code error
    pure .breaks
  | .undecodable error => do
    queueDiagnostic .malformedFrame error
    pure .breaks
  | .decoded frame => handleFrame env registered frame

/-- The branches of `run_reader`'s `select!`. -/
inductive Branch where
  | shutdown
  | evicted
  | idle
  | inbound (read : Inbound)
  deriving DecidableEq, Repr

def readerTurn (env : Env) (registered : RegisteredPeer) : Branch → Handler ControlFlow
  | .shutdown => pure .breaks
  | .evicted => pure .breaks
  | .idle => do
    queueDiagnostic .idleTimeout ("no frame within " ++ env.idleDebug)
    pure .breaks
  | .inbound read => handleInbound env registered read

/-! ## Admission -/

def ClientFrame.typeName : ClientFrame → String
  | .hello _ _ _ => "hello"
  | .list _ => "list"
  | .send _ _ _ _ _ => "send"
  | .announce _ _ _ _ => "announce"
  | .reserve _ _ _ => "reserve"
  | .ping => "ping"
  | .unsupported => "unsupported"

/-- The room and peer a first frame is admitted under, or the diagnostic it is closed with. -/
def admitted (env : Env) : ClientFrame → Except (ErrorCode × String) Name
  | .hello offered room peer =>
    if offered ≠ protocolVersion then
      .error (.unsupportedProtocol, s!"protocol {offered} is not supported; this relay speaks {protocolVersion}")
    else
      let check (field value : String) : Except (ErrorCode × String) Unit :=
        (validateIdentifier value).mapError fun error =>
          (.invalidIdentifier, field ++ " " ++ error.text env.debugChar)
      do
        check "room.project" room.project
        check "room.task" room.task
        check "peer" peer
        pure ⟨room, peer⟩
  | frame => .error (.invalidHello, "first frame must be hello, received " ++ ClientFrame.typeName frame)

end OmpRelayd.Relay
