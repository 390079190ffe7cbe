/-
  OmpRelayd.Protocol — the protocol v1 frames and the rules their fields are held to
  (server/src/protocol.rs).

  Strings are Unicode scalar sequences, so a Rust `&str` is a `String` here and `len()` is
  its UTF-8 size. `u32` and `u64` fields are `Nat`. A validator returns the first rule its
  value breaks, as the source does, and each rejection keeps the text it is reported with.
  `Debug` of a `char` is the standard library's; `debugChar` stands for it where a
  rejection quotes an arbitrary character.
-/

namespace OmpRelayd

def protocolVersion : Nat := 1

def maxFrameBytes : Nat := 64 * 1024

def maxIdentifierBytes : Nat := 64

def maxCorrelationBytes : Nat := 128

def digestChars : Nat := 43

def messageEnvelopeHeadroom : Nat := 512

def maxBodyBytes : Nat := maxFrameBytes - messageEnvelopeHeadroom

structure RoomId where
  project : String
  task : String
  deriving DecidableEq, Repr

inductive ClientFrame where
  | hello (protocol : Nat) (room : RoomId) (peer : String)
  | list (requestId : String)
  | send (id target body : String) (replyTo attachment : Option String)
  | announce (id body : String) (replyTo attachment : Option String)
  | reserve (requestId digest : String) (bytes : Nat)
  | ping
  | unsupported
  deriving DecidableEq, Repr

inductive ReserveStatus where
  | granted
  | payloadTooLarge
  | roomFull
  | storeFull
  deriving DecidableEq, Repr

inductive ReceiptStatus where
  | routed
  | peerOffline
  | recipientBackpressure
  | invalidTarget
  deriving DecidableEq, Repr

inductive ErrorCode where
  | unsupportedFrame
  | unsupportedProtocol
  | invalidHello
  | duplicateHello
  | invalidIdentifier
  | malformedFrame
  | frameTooLarge
  | helloTimeout
  | idleTimeout
  | peerReplaced
  deriving DecidableEq, Repr

inductive ServerFrame where
  | ready (protocol : Nat)
  | peers (requestId : String) (peers : List String)
  | message (id sender body : String) (replyTo attachment : Option String)
  | notice (id sender body : String) (replyTo attachment : Option String)
  | receipt (id target : String) (status : ReceiptStatus)
  | accepted (id : String) (delivered shed : Nat)
  | reserved (requestId : String) (status : ReserveStatus) (expiresIn : Option Nat)
  | pong
  | error (code : ErrorCode) (message requestId : Option String)
  deriving DecidableEq, Repr

/-! ## Identifiers -/

inductive IdentifierError where
  | empty
  | tooLong (limit found : Nat)
  | reservedSeparator (separator : Char)
  | surroundingWhitespace
  deriving DecidableEq, Repr

def IdentifierError.text (debugChar : Char → String) : IdentifierError → String
  | .empty => "must not be empty"
  | .tooLong limit found => s!"must be at most {limit} UTF-8 bytes, found {found}"
  | .reservedSeparator separator => "must not contain the reserved separator " ++ debugChar separator
  | .surroundingWhitespace => "must not begin or end with whitespace"

/-- `char::is_whitespace`: the Unicode White_Space property. -/
def isWhitespace (c : Char) : Bool :=
  let n := c.toNat
  (0x9 ≤ n && n ≤ 0xd) || n == 0x20 || n == 0x85 || n == 0xa0 || n == 0x1680 || (0x2000 ≤ n && n ≤ 0x200a) ||
    n == 0x2028 || n == 0x2029 || n == 0x202f || n == 0x205f || n == 0x3000

def isReservedSeparator (c : Char) : Bool := c == '/' || c == '@'

def validateIdentifier (value : String) : Except IdentifierError Unit :=
  if value.isEmpty then .error .empty
  else if maxIdentifierBytes < value.utf8ByteSize then .error (.tooLong maxIdentifierBytes value.utf8ByteSize)
  else match value.toList.find? isReservedSeparator with
    | some separator => .error (.reservedSeparator separator)
    | none =>
      if value.toList.head?.any isWhitespace || value.toList.getLast?.any isWhitespace then
        .error .surroundingWhitespace
      else .ok ()

def validateCorrelationId (value : String) : Except IdentifierError Unit :=
  if value.isEmpty then .error .empty
  else if maxCorrelationBytes < value.utf8ByteSize then .error (.tooLong maxCorrelationBytes value.utf8ByteSize)
  else .ok ()

/-! ## Digests and bodies -/

inductive DigestError where
  | wrongLength (found : Nat)
  | notBase64Url (character : Char)
  deriving DecidableEq, Repr

def DigestError.text (debugChar : Char → String) : DigestError → String
  | .wrongLength found => s!"must be exactly {digestChars} characters, found {found}"
  | .notBase64Url character => "contains " ++ debugChar character ++ ", which is not unpadded base64url"

def isBase64Url (c : Char) : Bool := c.isAlphanum || c == '-' || c == '_'

/-- Length before alphabet, and the length counted in characters. -/
def validateDigest (value : String) : Except DigestError Unit :=
  let found := value.toList.length
  if found ≠ digestChars then .error (.wrongLength found)
  else match value.toList.find? (!isBase64Url ·) with
    | some character => .error (.notBase64Url character)
    | none => .ok ()

def bodyOverBudget (body : String) : Option Nat :=
  if maxBodyBytes < body.utf8ByteSize then some body.utf8ByteSize else none

/-! ## Truncation on a character boundary -/

/-- The longest prefix of `cs` that encodes to at most `limit` bytes. -/
def takeBytes : Nat → List Char → List Char
  | _, [] => []
  | limit, c :: cs => if c.utf8Size ≤ limit then c :: takeBytes (limit - c.utf8Size) cs else []

/-- Clamp to `limit` bytes, stepping back to a character boundary. -/
def truncateBytes (limit : Nat) (value : String) : String :=
  if limit < value.utf8ByteSize then String.ofList (takeBytes limit value.toList) else value

end OmpRelayd
