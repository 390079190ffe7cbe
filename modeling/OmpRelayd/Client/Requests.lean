/-
  OmpRelayd.Client.Requests — what a caller asks of the relay (extension/src/client.ts: `list`,
  `send`, `announce`, `reserve`, `replySpace`, `RequestFailed`; extension/src/protocol.ts:
  `identifierProblem`, `correlationProblem`, `describeIdentifierProblem`, `describeDigestProblem`,
  `bodyOverBudget`).

  A call is checked before anything is done with it: what the relay would answer by closing the
  connection is refused here. What passes is a frame, and a token in one of three reply spaces,
  by which an answer finds it. `conclude` is what the caller's promise makes of the answer.
-/

import OmpRelayd.Client.Frames

namespace OmpRelayd.Client

/-! ## Kinds and reply spaces -/

inductive RequestKind where
  | list
  | send
  | announce
  | reserve
  deriving DecidableEq, Repr

inductive ReplySpace where
  | list
  | delivery
  | reserve
  deriving DecidableEq, Repr

/-- `REPLY_SPACES` -/
def replySpaces : List ReplySpace := [.list, .delivery, .reserve]

namespace RequestKind

def replySpace : RequestKind → ReplySpace
  | .list => .list
  | .reserve => .reserve
  | .send => .delivery
  | .announce => .delivery

def name : RequestKind → String
  | .list => "list"
  | .send => "send"
  | .announce => "announce"
  | .reserve => "reserve"

/-- The type of the frame that answers it. -/
def reply : RequestKind → String
  | .list => "peers"
  | .send => "receipt"
  | .announce => "accepted"
  | .reserve => "reserved"

end RequestKind

/-- `${space}:${token}`. No space's name has a colon in it. -/
structure Key where
  space : ReplySpace
  token : String
  deriving DecidableEq, Repr

/-! ## Outcomes -/

/-- Why a frame was not answered with the reply its caller asked for. -/
inductive RequestFailureReason where
  | invalidRequest
  | stopped
  | disconnected
  | timeout
  | relayError
  | unexpectedReply
  | unsupported
  deriving DecidableEq, Repr

structure RequestFailed where
  reason : RequestFailureReason
  message : String
  code : Option String := none
  deriving DecidableEq, Repr

/-- `RequestOutcome` -/
inductive RequestOutcome where
  | ok (frame : ServerFrame)
  | failed (error : RequestFailed)
  deriving DecidableEq, Repr

/-- How a caller's promise ends. -/
inductive Settlement where
  | resolved (frame : ServerFrame)
  | rejected (error : RequestFailed)
  deriving DecidableEq, Repr

def ServerFrame.type : ServerFrame → String
  | .ready _ => "ready"
  | .peers _ _ => "peers"
  | .message _ _ _ _ _ => "message"
  | .notice _ _ _ _ _ => "notice"
  | .receipt _ _ _ => "receipt"
  | .accepted _ _ _ => "accepted"
  | .reserved _ _ _ => "reserved"
  | .pong => "pong"
  | .error _ _ _ => "error"

/-- What the callbacks of `list`, `send`, `announce` and `reserve` do with an outcome. -/
def RequestKind.conclude (kind : RequestKind) (token : String) : RequestOutcome → Settlement
  | .failed error =>
    -- only `reserve` reads the code of a failure
    if kind = .reserve ∧ error.reason = .relayError ∧ error.code = some "unsupported_frame" then
      .rejected ⟨.unsupported, "this relay does not implement attachments, so nothing can be reserved", error.code⟩
    else .rejected error
  | .ok frame =>
    if frame.type = kind.reply then .resolved frame
    else .rejected ⟨.unexpectedReply, s!"{kind.name} {token} was answered with a {frame.type} frame", none⟩

/-! ## Calls -/

inductive IdentifierProblem where
  | empty
  | tooLong (limit found : Nat)
  | reservedSeparator (separator : Char)
  | surroundingWhitespace
  deriving DecidableEq, Repr

def describeIdentifierProblem : IdentifierProblem → String
  | .empty => "must not be empty"
  | .tooLong limit found => s!"must be at most {limit} UTF-8 bytes, found {found}"
  | .reservedSeparator separator => s!"must not contain the reserved separator \"{separator}\""
  | .surroundingWhitespace => "must not begin or end with whitespace"

def describeDigestProblem : DigestProblem → String
  | .wrongLength expected found => s!"must be exactly {expected} characters, found {found}"
  | .notBase64url character =>
    s!"contains {jsonString (String.singleton character)}, which is not unpadded base64url"

/-- The expression is `^\p{White_Space}|\p{White_Space}$`. -/
def surroundedByWhitespace (value : String) : Bool :=
  value.toList.head?.any isWhitespace || value.toList.getLast?.any isWhitespace

def identifierProblem (value : String) : Option IdentifierProblem :=
  if value = "" then some .empty
  else if maxIdentifierBytes < value.utf8ByteSize then some (.tooLong maxIdentifierBytes value.utf8ByteSize)
  else match value.toList.find? fun character => character == '/' || character == '@' with
    | some character => some (.reservedSeparator character)
    | none => if surroundedByWhitespace value then some .surroundingWhitespace else none

def correlationProblem (value : String) : Option IdentifierProblem :=
  if value = "" then some .empty
  else if maxCorrelationBytes < value.utf8ByteSize then some (.tooLong maxCorrelationBytes value.utf8ByteSize)
  else none

def bodyOverBudget (body : String) : Option Nat :=
  if maxBodyBytes < body.utf8ByteSize then some body.utf8ByteSize else none

/-- A call of the client. A token the caller left out is the one that was generated for it, as
    is every `reserve`'s. -/
inductive Call where
  | list (requestId : String)
  | send (id target body : String) (replyTo attachment : Option String)
  | announce (id body : String) (replyTo attachment : Option String)
  /-- `bytes` is a count, or how a number that is none prints. -/
  | reserve (requestId digest : String) (bytes : Except String SafeInteger)

/-- Refuse with a message where there is one. -/
def refuse : Option String → Except String Unit
  | some message => .error message
  | none => .ok ()

/-- What `send` and `announce` check, in their order. -/
def checkDelivery (kind : RequestKind) (id body : String) (replyTo attachment : Option String) :
    Except String Unit := do
  refuse ((correlationProblem id).map fun p => s!"{kind.name} id {describeIdentifierProblem p}")
  refuse ((replyTo.bind correlationProblem).map fun p => s!"{kind.name} reply_to {describeIdentifierProblem p}")
  refuse ((bodyOverBudget body).map fun oversized =>
    s!"{kind.name} body is {oversized} UTF-8 bytes, over the {maxBodyBytes}-byte budget")
  refuse ((attachment.bind digestProblem).map fun p => s!"{kind.name} attachment {describeDigestProblem p}")

namespace Call

def kind : Call → RequestKind
  | .list _ => .list
  | .send _ _ _ _ _ => .send
  | .announce _ _ _ _ => .announce
  | .reserve _ _ _ => .reserve

def token : Call → String
  | .list requestId => requestId
  | .send id _ _ _ _ => id
  | .announce id _ _ _ => id
  | .reserve requestId _ _ => requestId

/-- The frame it asks for, or why it is refused. -/
def frame : Call → Except String ClientFrame
  | .list requestId => do
    refuse ((correlationProblem requestId).map fun p => s!"list request_id {describeIdentifierProblem p}")
    pure (.list requestId)
  | .send id target body replyTo attachment => do
    checkDelivery .send id body replyTo attachment
    pure (.send id target body replyTo attachment)
  | .announce id body replyTo attachment => do
    checkDelivery .announce id body replyTo attachment
    pure (.announce id body replyTo attachment none)
  | .reserve requestId digest bytes => do
    refuse ((digestProblem digest).map fun p => s!"reserve digest {describeDigestProblem p}")
    match bytes with
    | .error shown => throw s!"reserve bytes must be a non-negative integer, got {shown}"
    | .ok bytes => pure (.reserve requestId digest bytes)

end Call

end OmpRelayd.Client
