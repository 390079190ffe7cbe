/-
  OmpRelayd.Client.Codec — the client's codec (extension/src/protocol.ts: `encodePayload`,
  `encodeFrame`, `decodePayload`).

  A frame is written as a MessagePack map and goes on the wire behind its length, a big-endian
  `u32`. What the client needs of its MessagePack library is a `Codec`: decoding is some fixed
  partial function, it gives back what encoding was given whenever the payload is one the client
  would write, and no encoding is empty. `msgpack` is the codec of the format's specification,
  under the bounds the client sets its decoder.

  Proved: a named map that takes no more than a frame is decoded under those bounds
  (`decoder_encode`, `carried_named`).
-/

import OmpRelayd.Wire

namespace OmpRelayd.Client

open MsgPack

def lengthPrefixBytes : Nat := 4

/-! ## Encoding -/

/-- A MessagePack library, for frames `F` and decoded values `V`. -/
structure Codec (F V : Type) where
  type : F → String
  /-- `"to" in frame` -/
  hasTarget : F → Bool
  encode : F → Bytes
  /-- The value, or what the library's exception says. -/
  decode : Bytes → Except String V
  value : F → V
  encode_ne_nil : ∀ frame, encode frame ≠ []
  decode_encode : ∀ frame, (encode frame).length ≤ maxFrameBytes → decode (encode frame) = .ok (value frame)

namespace Codec

variable {F V : Type} (codec : Codec F V)

def encodePayload (frame : F) : Except String Bytes :=
  let payload := codec.encode frame
  if maxFrameBytes < payload.length then
    .error s!"{codec.type frame} frame is {payload.length} bytes, over the {maxFrameBytes}-byte cap"
  else .ok payload

def encodeFrame (frame : F) : Except String Bytes :=
  if codec.type frame = "announce" ∧ codec.hasTarget frame then
    .error ("an announce carries no target: the absence of a peer component is what addresses " ++
      "the room, so there is no target value to supply")
  else (codec.encodePayload frame).map fun payload => bigEndian lengthPrefixBytes payload.length ++ payload

theorem encodePayload_ok {frame : F} {payload : Bytes} (h : codec.encodePayload frame = .ok payload) :
    payload = codec.encode frame ∧ payload.length ≤ maxFrameBytes := by
  unfold encodePayload at h
  simp only at h
  split at h
  · cases h
  · cases h; exact ⟨rfl, by omega⟩

/-- What goes on the wire is a payload the codec takes back, behind its length. -/
theorem encodeFrame_ok {frame : F} {wire : Bytes} (h : codec.encodeFrame frame = .ok wire) :
    ∃ payload, wire = bigEndian lengthPrefixBytes payload.length ++ payload ∧ 0 < payload.length ∧
      payload.length ≤ maxFrameBytes ∧ codec.decode payload = .ok (codec.value frame) := by
  unfold encodeFrame at h
  split at h
  · cases h
  · cases hp : codec.encodePayload frame with
    | error e => rw [hp] at h; cases h
    | ok payload =>
      rw [hp] at h
      cases h
      obtain ⟨rfl, hle⟩ := codec.encodePayload_ok hp
      exact ⟨codec.encode frame, rfl, List.length_pos_of_ne_nil (codec.encode_ne_nil frame), hle,
        codec.decode_encode frame hle⟩

end Codec

/-! ## Decoding -/

mutual
/-- Within `maxStrLength`, `maxBinLength` and `maxExtLength`. -/
def Value.admitted : Value → Bool
  | .str text => text.length ≤ maxFrameBytes
  | .bin bytes => bytes.length ≤ 0
  | .ext _ bytes => bytes.length ≤ 0
  | .array items => itemsAdmitted items
  | .map entries => entriesAdmitted entries
  | _ => true

def itemsAdmitted : List Value → Bool
  | [] => true
  | v :: rest => Value.admitted v && itemsAdmitted rest

def entriesAdmitted : List (Value × Value) → Bool
  | [] => true
  | (k, v) :: rest => Value.admitted k && Value.admitted v && entriesAdmitted rest
end

def decoder (payload : Bytes) : Option Value := (decode payload).filter Value.admitted

/-- `description` is what the library's exception says of a payload it does not take. -/
def decodePayload (description : Bytes → String) (payload : Bytes) : Except String Value :=
  match decoder payload with
  | some value => .ok value
  | none => .error (description payload)

/-- The format can say it, and the decoder admits it. -/
def Carried (v : Value) : Prop := v.Fits ∧ Value.admitted v = true

theorem decoder_encode {v : Value} (h : Carried v) : decoder v.encode = some v := by
  rw [decoder, decode_encode h.1, Option.filter_some, if_pos h.2]

theorem carried_nat {n : Nat} (h : n < 2 ^ 64) : Carried (.nat n) := ⟨Value.fits_nat h, rfl⟩

theorem carried_text {s : String} (h : (Value.text s).encode.length ≤ maxFrameBytes) : Carried (.text s) := by
  have hsize : (utf8 s).length ≤ maxFrameBytes := by
    rw [Value.length_encode] at h
    simp only [Value.text, Value.body] at h
    omega
  refine ⟨Nat.lt_of_le_of_lt hsize (by decide), ?_⟩
  simp only [Value.text, Value.admitted, hsize, decide_true]

theorem carried_array {items : List Value} (hlen : (Value.array items).encode.length ≤ maxFrameBytes)
    (h : ∀ v ∈ items, v.encode.length ≤ maxFrameBytes → Carried v) : Carried (.array items) := by
  have hbody : (items.flatMap Value.encode).length ≤ maxFrameBytes := by
    rw [Value.length_encode] at hlen
    simp only [Value.body, encodeItems_eq] at hlen
    omega
  have hall : items.length ≤ (items.flatMap Value.encode).length ∧ ItemsFit items ∧ itemsAdmitted items = true := by
    clear hlen
    induction items with
    | nil => exact ⟨Nat.le_refl _, trivial, rfl⟩
    | cons v rest ih =>
      have hpos := v.encode_length_pos
      simp only [List.flatMap_cons, List.length_append, List.length_cons] at hbody ⊢
      obtain ⟨hcount, hfit, hadmitted⟩ := ih (fun w hw => h w (List.mem_cons_of_mem v hw)) (by omega)
      obtain ⟨hv, hv'⟩ := h v List.mem_cons_self (by omega)
      exact ⟨by omega, ⟨hv, hfit⟩, by simp only [itemsAdmitted, hv', hadmitted, Bool.and_self]⟩
  have hmax : maxFrameBytes < 256 ^ 4 := by decide
  exact ⟨⟨by omega, hall.2.1⟩, hall.2.2⟩

theorem carried_named {fields : Fields} (hlen : (named fields).encode.length ≤ maxFrameBytes)
    (h : ∀ f ∈ fields, f.2.encode.length ≤ maxFrameBytes → Carried f.2) : Carried (named fields) := by
  have hbody : fieldsLength fields ≤ maxFrameBytes := by
    rw [length_named] at hlen
    omega
  have hall : fields.length ≤ fieldsLength fields ∧ EntriesFit (fields.map fun f => (.text f.1, f.2)) ∧
      entriesAdmitted (fields.map fun f => (.text f.1, f.2)) = true := by
    clear hlen
    induction fields with
    | nil => exact ⟨Nat.le_refl _, trivial, rfl⟩
    | cons f rest ih =>
      have hpos := f.2.encode_length_pos
      simp only [fieldsLength_cons, fieldLength, List.length_cons] at hbody ⊢
      obtain ⟨hcount, hfit, hadmitted⟩ := ih (fun g hg => h g (List.mem_cons_of_mem f hg)) (by omega)
      obtain ⟨hk, hk'⟩ := carried_text (show (Value.text f.1).encode.length ≤ maxFrameBytes by omega)
      obtain ⟨hv, hv'⟩ := h f List.mem_cons_self (by omega)
      exact ⟨by omega, ⟨hk, hv, hfit⟩, by simp only [List.map_cons, entriesAdmitted, hk', hv', hadmitted, Bool.and_self]⟩
  have hmax : maxFrameBytes < 256 ^ 4 := by decide
  exact ⟨⟨by rw [List.length_map]; omega, hall.2.1⟩, hall.2.2⟩

/-! ## Frames -/

/-- A non-negative integer that a JavaScript number holds exactly. -/
abbrev SafeInteger := Fin (2 ^ 53)

inductive ClientFrame where
  | hello (protocol : SafeInteger) (room : RoomId) (peer : String)
  | list (requestId : String)
  | send (id target body : String) (replyTo attachment : Option String)
  /-- A target is only on an object assembled by spreading a wider one. -/
  | announce (id body : String) (replyTo attachment target : Option String)
  | reserve (requestId digest : String) (bytes : SafeInteger)
  | ping

namespace ClientFrame

def type : ClientFrame → String
  | .hello _ _ _ => "hello"
  | .list _ => "list"
  | .send _ _ _ _ _ => "send"
  | .announce _ _ _ _ _ => "announce"
  | .reserve _ _ _ => "reserve"
  | .ping => "ping"

def hasTarget : ClientFrame → Bool
  | .send _ _ _ _ _ => true
  | .announce _ _ _ _ target => target.isSome
  | _ => false

def fields : ClientFrame → Fields
  | .hello protocol room peer =>
    [("protocol", .nat protocol.val), ("room", named [("project", .text room.project), ("task", .text room.task)]),
      ("peer", .text peer)]
  | .list requestId => [("request_id", .text requestId)]
  | .send id target body replyTo attachment =>
    [("id", .text id), ("to", .text target), ("body", .text body)] ++ optional "reply_to" replyTo ++
      optional "attachment" attachment
  | .announce id body replyTo attachment target =>
    [("id", .text id), ("body", .text body)] ++ optional "reply_to" replyTo ++ optional "attachment" attachment ++
      optional "to" target
  | .reserve requestId digest bytes =>
    [("request_id", .text requestId), ("digest", .text digest), ("bytes", .nat bytes.val)]
  | .ping => []

def value (frame : ClientFrame) : Value := named (("type", .text frame.type) :: frame.fields)

end ClientFrame

/-- A field whose value is carried in any map that is no longer than a frame. -/
def Field.Plain (field : String × Value) : Prop := field.2.encode.length ≤ maxFrameBytes → Carried field.2

theorem plain_text (name s : String) : Field.Plain (name, .text s) := carried_text

theorem ClientFrame.fields_plain (frame : ClientFrame) : ∀ f ∈ frame.fields, Field.Plain f := by
  have hint : ∀ (name : String) (n : SafeInteger), Field.Plain (name, .nat n.val) := fun _ n _ => carried_nat (by omega)
  have hroom : ∀ room : RoomId, Field.Plain ("room", named [("project", .text room.project), ("task", .text room.task)]) := by
    intro room hlen
    refine carried_named hlen ?_
    simp only [List.forall_mem_cons]
    exact ⟨carried_text, carried_text, List.forall_mem_nil _⟩
  cases frame <;>
    simp only [fields, List.forall_mem_append, List.forall_mem_cons, List.not_mem_nil, forall_mem_optional, plain_text, hint,
      hroom, false_imp_iff, implies_true, and_self]

theorem ClientFrame.decoder_value (frame : ClientFrame) (h : frame.value.encode.length ≤ maxFrameBytes) :
    decoder frame.value.encode = some frame.value :=
  decoder_encode (carried_named h (List.forall_mem_cons.mpr ⟨plain_text _ _, frame.fields_plain⟩))

/-- The codec of the format's specification. -/
def msgpack (description : Bytes → String) : Codec ClientFrame Value where
  type := ClientFrame.type
  hasTarget := ClientFrame.hasTarget
  encode frame := frame.value.encode
  decode := decodePayload description
  value := ClientFrame.value
  encode_ne_nil frame := List.ne_nil_of_length_pos frame.value.encode_length_pos
  decode_encode frame h := by rw [decodePayload, frame.decoder_value h]

end OmpRelayd.Client
