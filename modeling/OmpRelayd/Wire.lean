/-
  OmpRelayd.Wire — frames as the relay writes them (server/src/protocol.rs: `encode`).

  A frame is a MessagePack map from field names to values, its type first, and an absent
  optional field has no entry. The model's counters are unbounded where the frame's fields are
  `u32` and `u64`; a release build wraps, so a field is what is left of its counter.

  Proved: what each field adds to a frame's length, that a notice is one byte shorter than the
  message with its fields (`length_notice`), and that the headroom `MAX_BODY_BYTES` leaves is
  enough for every envelope (`length_message_le`).
-/

import OmpRelayd.Lib.MsgPack
import OmpRelayd.Limits

namespace OmpRelayd

open MsgPack

/-! ## Field values -/

def ReserveStatus.asStr : ReserveStatus → String
  | .granted => "granted"
  | .payloadTooLarge => "payload_too_large"
  | .roomFull => "room_full"
  | .storeFull => "store_full"

def ReceiptStatus.asStr : ReceiptStatus → String
  | .routed => "routed"
  | .peerOffline => "peer_offline"
  | .recipientBackpressure => "recipient_backpressure"
  | .invalidTarget => "invalid_target"

def ErrorCode.asStr : ErrorCode → String
  | .unsupportedFrame => "unsupported_frame"
  | .unsupportedProtocol => "unsupported_protocol"
  | .invalidHello => "invalid_hello"
  | .duplicateHello => "duplicate_hello"
  | .invalidIdentifier => "invalid_identifier"
  | .malformedFrame => "malformed_frame"
  | .frameTooLarge => "frame_too_large"
  | .helloTimeout => "hello_timeout"
  | .idleTimeout => "idle_timeout"
  | .peerReplaced => "peer_replaced"

theorem ReserveStatus.asStr_ne_empty (status : ReserveStatus) : status.asStr ≠ "" := by cases status <;> decide

theorem ReceiptStatus.asStr_ne_empty (status : ReceiptStatus) : status.asStr ≠ "" := by cases status <;> decide

theorem ErrorCode.asStr_ne_empty (code : ErrorCode) : code.asStr ≠ "" := by cases code <;> decide

def u32 (n : Nat) : Nat := n % 2 ^ 32

def u64 (n : Nat) : Nat := n % 2 ^ 64

/-! ## Frames -/

abbrev Fields := List (String × Value)

/-- A field that is left out when it is `None`. -/
def optional (name : String) (value : Option String) : Fields := value.toList.map fun v => (name, .text v)

theorem forall_mem_optional {P : String × Value → Prop} {name : String} {value : Option String} :
    (∀ f ∈ optional name value, P f) ↔ ∀ s ∈ value, P (name, .text s) := by
  cases value <;> simp [optional]

namespace ServerFrame

def typeName : ServerFrame → String
  | .ready _ => "ready"
  | .peers _ _ => "peers"
  | .message _ _ _ _ _ => "message"
  | .notice _ _ _ _ _ => "notice"
  | .receipt _ _ _ => "receipt"
  | .accepted _ _ _ => "accepted"
  | .reserved _ _ _ => "reserved"
  | .pong => "pong"
  | .error _ _ _ => "error"

/-- The fields `message` and `notice` have in common. -/
def deliveryFields (id sender body : String) (replyTo attachment : Option String) : Fields :=
  [("id", .text id), ("from", .text sender), ("body", .text body)] ++ optional "reply_to" replyTo ++
    optional "attachment" attachment

def fields : ServerFrame → Fields
  | .ready protocol => [("protocol", .nat (u32 protocol))]
  | .peers requestId roster => [("request_id", .text requestId), ("peers", .array (roster.map .text))]
  | .message id sender body replyTo attachment => deliveryFields id sender body replyTo attachment
  | .notice id sender body replyTo attachment => deliveryFields id sender body replyTo attachment
  | .receipt id target status => [("id", .text id), ("to", .text target), ("status", .text status.asStr)]
  | .accepted id delivered shed =>
    [("id", .text id), ("delivered", .nat (u32 delivered)), ("shed", .nat (u32 shed))]
  | .reserved requestId status expiresIn =>
    [("request_id", .text requestId), ("status", .text status.asStr)] ++
      expiresIn.toList.map fun n => ("expires_in", .nat (u64 n))
  | .pong => []
  | .error code detail requestId =>
    [("code", .text code.asStr)] ++ optional "message" detail ++ optional "request_id" requestId

end ServerFrame

/-- A map keyed by field name. -/
def named (fields : Fields) : Value := .map (fields.map fun f => (.text f.1, f.2))

def ServerFrame.value (frame : ServerFrame) : Value := named (("type", .text frame.typeName) :: frame.fields)

def encode (frame : ServerFrame) : Bytes := frame.value.encode

/-! ## Lengths -/

/-- What a field adds to its map. -/
def fieldLength (field : String × Value) : Nat := (Value.text field.1).encode.length + field.2.encode.length

def fieldsLength (fields : Fields) : Nat := (fields.map fieldLength).sum

theorem length_text_le {s : String} (h : s.utf8ByteSize < 256 ^ 1) :
    (Value.text s).encode.length ≤ s.utf8ByteSize + 2 := by
  have := Head.length_str_le h
  simp only [Value.text, Value.length_encode, Value.head, Value.body, length_utf8]
  omega

theorem length_long_text_le {s : String} (h : s.utf8ByteSize < 256 ^ 2) :
    (Value.text s).encode.length ≤ s.utf8ByteSize + 3 := by
  have := Head.length_long_str_le h
  simp only [Value.text, Value.length_encode, Value.head, Value.body, length_utf8]
  omega

theorem length_nat_le (n : Nat) : (Value.nat n).encode.length ≤ 9 := by
  have := Head.length_int_le (IntForm.ofNat n) n
  simp only [Value.nat, Value.length_encode, Value.head, Value.body, List.length_nil]
  omega

theorem length_named (fields : Fields) :
    (named fields).encode.length = (Head.map fields.length).encode.length + fieldsLength fields := by
  have hbody : (named fields).body.length = fieldsLength fields := by
    simp only [named, Value.body, encodeEntries_eq, fieldsLength]
    induction fields with
    | nil => rfl
    | cons f rest ih =>
      simp only [List.map_cons, List.flatMap_cons, List.length_append, List.sum_cons, fieldLength, ih]
  rw [Value.length_encode, hbody]
  simp only [named, Value.head, List.length_map]

theorem fieldsLength_append (a b : Fields) : fieldsLength (a ++ b) = fieldsLength a + fieldsLength b := by
  simp [fieldsLength]

@[simp] theorem fieldsLength_cons (f : String × Value) (rest : Fields) :
    fieldsLength (f :: rest) = fieldLength f + fieldsLength rest := by simp [fieldsLength]

@[simp] theorem fieldsLength_nil : fieldsLength [] = 0 := rfl

theorem optional_length_le (name : String) (value : Option String) : (optional name value).length ≤ 1 := by
  cases value <;> simp [optional]

theorem ServerFrame.fields_length_le (frame : ServerFrame) : frame.fields.length ≤ 5 := by
  have hdelivery : ∀ id sender body replyTo attachment, (deliveryFields id sender body replyTo attachment).length ≤ 5 := by
    intro id sender body replyTo attachment
    have h1 := optional_length_le "reply_to" replyTo
    have h2 := optional_length_le "attachment" attachment
    simp only [deliveryFields, List.length_append, List.length_cons, List.length_nil]
    omega
  cases frame with
  | message id sender body replyTo attachment => exact hdelivery ..
  | notice id sender body replyTo attachment => exact hdelivery ..
  | reserved requestId status expiresIn => cases expiresIn <;> simp [fields]
  | error code detail requestId =>
    have h1 := optional_length_le "message" detail
    have h2 := optional_length_le "request_id" requestId
    simp only [fields, List.length_append, List.length_cons, List.length_nil]
    omega
  | _ => simp [fields]

/-- A frame has a one-byte head, and then its fields. -/
theorem length_encode (frame : ServerFrame) :
    (encode frame).length = 1 + fieldLength ("type", .text frame.typeName) + fieldsLength frame.fields := by
  have := frame.fields_length_le
  rw [encode, ServerFrame.value, length_named, Head.length_map (by simp only [List.length_cons]; omega), fieldsLength_cons]
  omega

theorem fieldsLength_optional_le (name : String) {value : Option String} {n : Nat}
    (h : ∀ v ∈ value, v.utf8ByteSize ≤ n) (hn : n < 256 ^ 1) :
    fieldsLength (optional name value) ≤ (Value.text name).encode.length + (n + 2) := by
  cases value with
  | none => exact Nat.zero_le _
  | some v =>
    have hv := h v rfl
    have := length_text_le (Nat.lt_of_le_of_lt hv hn)
    simp only [optional, Option.toList_some, List.map_cons, List.map_nil, fieldsLength_cons, fieldsLength_nil, fieldLength]
    omega

/-! ## Deliveries -/

section
variable {id sender body : String} {replyTo attachment : Option String}

/-- The type is all that tells the two apart. -/
theorem length_notice (id sender body : String) (replyTo attachment : Option String) :
    (encode (.notice id sender body replyTo attachment)).length + 1 =
      (encode (.message id sender body replyTo attachment)).length := by
  have hnotice : fieldLength ("type", .text "notice") = 12 := rfl
  have hmessage : fieldLength ("type", .text "message") = 13 := rfl
  have h1 : (encode (.notice id sender body replyTo attachment)).length =
      1 + 12 + fieldsLength (ServerFrame.deliveryFields id sender body replyTo attachment) := by
    rw [← hnotice]; exact length_encode _
  have h2 : (encode (.message id sender body replyTo attachment)).length =
      1 + 13 + fieldsLength (ServerFrame.deliveryFields id sender body replyTo attachment) := by
    rw [← hmessage]; exact length_encode _
  omega

/-- Every envelope around a body within its budget fits the frame cap. -/
theorem length_message_le (hid : id.utf8ByteSize ≤ maxCorrelationBytes) (hsender : sender.utf8ByteSize ≤ maxIdentifierBytes)
    (hbody : body.utf8ByteSize ≤ maxBodyBytes) (hreply : ∀ r ∈ replyTo, r.utf8ByteSize ≤ maxCorrelationBytes)
    (hattachment : ∀ a ∈ attachment, a.utf8ByteSize ≤ digestChars) :
    (encode (.message id sender body replyTo attachment)).length ≤ maxFrameBytes := by
  have htype : fieldLength ("type", .text "message") = 13 := rfl
  have hlength : (encode (.message id sender body replyTo attachment)).length =
      1 + 13 + fieldsLength (ServerFrame.deliveryFields id sender body replyTo attachment) := by
    rw [← htype]; exact length_encode _
  have h1 := length_text_le (Nat.lt_of_le_of_lt hid (by decide))
  have h2 := length_text_le (Nat.lt_of_le_of_lt hsender (by decide))
  have h3 := length_long_text_le (Nat.lt_of_le_of_lt hbody (by decide))
  have h4 := fieldsLength_optional_le "reply_to" hreply (by decide)
  have h5 := fieldsLength_optional_le "attachment" hattachment (by decide)
  have k1 : (Value.text "id").encode.length = 3 := rfl
  have k2 : (Value.text "from").encode.length = 5 := rfl
  have k3 : (Value.text "body").encode.length = 5 := rfl
  have k4 : (Value.text "reply_to").encode.length = 9 := rfl
  have k5 : (Value.text "attachment").encode.length = 11 := rfl
  simp only [ServerFrame.deliveryFields, fieldsLength_append, fieldsLength_cons, fieldsLength_nil, fieldLength] at hlength
  simp only [maxFrameBytes, maxBodyBytes, messageEnvelopeHeadroom, maxCorrelationBytes, maxIdentifierBytes, digestChars] at *
  omega

end

end OmpRelayd
