/-
  OmpRelayd.Client.Frames — what the client takes for a frame (extension/src/protocol.ts:
  `validateServerFrame`, `validateDelivery`, `digestProblem`).

  A decoded payload is `unknown` until it has been looked at field by field. A map with a type
  the client does not know is ignorable; one whose fields are not what its type asks for is
  invalid, and says which field it was and what was there; only a frame reaches a caller.

  The library reads a text of more than 200 bytes with a `TextDecoder`, and that takes a byte
  order mark off its front; a shorter text, and all that follows, is read as it is (`utf8Decode`).

  Proved (`validateServerFrame_seen`): a frame of the relay whose ids are not empty, whose
  attachment is a digest, and whose lifetime is a `u32` that is there exactly for a grant is
  taken for what it is, field by field, with absent optionals absent and each text as it is read.
-/

import OmpRelayd.Client.Codec

namespace OmpRelayd.Client

open MsgPack

/-! ## Decoded values -/

/-- A decoded value. An integer that a number does not hold exactly is rounded, and stays beyond
    every bound it is compared with here; `fraction` is a number that is no integer. -/
inductive Js where
  | null
  | boolean (b : Bool)
  | number (n : Int)
  | fraction
  | string (s : String)
  | array (items : List Js)
  | binary (bytes : Bytes)
  /-- The library's `ExtData`. -/
  | ext (type : UInt8) (bytes : Bytes)
  | record (properties : List (String × Js))

/-- The integer that an IEEE number of `exponent` and `fraction` bits is, if it is one. -/
def integral (exponent fraction bits : Nat) : Option Int :=
  let e := bits / 2 ^ fraction % 2 ^ exponent
  let m := if e = 0 then bits % 2 ^ fraction else 2 ^ fraction + bits % 2 ^ fraction
  let scale := 2 ^ (exponent - 1) - 1 + fraction
  let magnitude :=
    if e = 2 ^ exponent - 1 then none
    else if scale ≤ max e 1 then some (m * 2 ^ (max e 1 - scale))
    else if m % 2 ^ (scale - max e 1) = 0 then some (m / 2 ^ (scale - max e 1))
    else none
  magnitude.map fun k => if bits / 2 ^ (exponent + fraction) = 0 then (k : Int) else -k

def floating (bits : Bytes) : Js :=
  match if bits.length = 8 then integral 11 52 (ofBigEndian bits) else integral 8 23 (ofBigEndian bits) with
  | some n => .number n
  | none => .fraction

/-- `TEXT_DECODER_THRESHOLD` -/
def textDecoderThreshold : Nat := 200

def byteOrderMark : Char := '\uFEFF'

/-- A text that is longer goes through a `TextDecoder`, which takes the mark off its front. -/
def unmark (text : Bytes) : Bytes :=
  let mark := String.utf8EncodeChar byteOrderMark
  if textDecoderThreshold < text.length ∧ mark.isPrefixOf text then text.drop mark.length else text

/-- That happens to this text. -/
def marked (s : String) : Bool := textDecoderThreshold < s.utf8ByteSize && s.toList.head? == some byteOrderMark

/-- The text that the client reads. -/
def readText (s : String) : String := if marked s then String.ofList s.toList.tail else s

theorem unmark_utf8 (s : String) : unmark (utf8 s) = utf8 (readText s) := by
  obtain ⟨chars, rfl⟩ : ∃ chars, s = String.ofList chars := ⟨s.toList, String.ofList_toList.symm⟩
  cases chars with
  | nil => rfl
  | cons c rest =>
    have hmark : (String.utf8EncodeChar byteOrderMark).isPrefixOf (utf8 (String.ofList (c :: rest))) = true ↔ c = byteOrderMark := by
      rw [List.isPrefixOf_iff_prefix, utf8_ofList_cons]
      exact ⟨fun h => (eq_of_begins_alike h).symm, fun h => h ▸ List.prefix_append _ _⟩
    simp only [unmark, readText, marked, length_utf8, hmark, String.toList_ofList, List.head?_cons, List.tail_cons,
      Bool.and_eq_true, decide_eq_true_eq, beq_iff_eq, Option.some.injEq]
    by_cases hlong : textDecoderThreshold < (String.ofList (c :: rest)).utf8ByteSize ∧ c = byteOrderMark
    · rw [if_pos hlong, if_pos hlong, utf8_ofList_cons, hlong.2, List.drop_left]
    · rw [if_neg hlong, if_neg hlong]

theorem readText_eq_self {s : String} : readText s = s ↔ marked s = false := by
  unfold readText
  split
  · rename_i hmarked
    refine iff_of_false (fun heq => ?_) (by simp [hmarked])
    have hlength := congrArg (List.length ∘ String.toList) heq
    have hpos : s.toList ≠ [] := by
      intro hnil
      simp [marked, hnil] at hmarked
    simp only [Function.comp_apply, String.toList_ofList, List.length_tail] at hlength
    have := List.length_pos_iff.mpr hpos
    omega
  · rename_i hmarked
    simpa using hmarked

theorem marked_of_short {s : String} (h : s.utf8ByteSize ≤ textDecoderThreshold) : marked s = false := by
  simp [marked, Nat.not_lt.mpr h]

theorem readText_ne_empty {s : String} (h : s ≠ "") : readText s ≠ "" := by
  unfold readText
  split
  · rename_i hmarked
    -- more than a mark is left of more than a mark
    intro htail
    obtain ⟨chars, rfl⟩ : ∃ chars, s = String.ofList chars := ⟨s.toList, String.ofList_toList.symm⟩
    rw [String.toList_ofList] at htail
    cases chars with
    | nil => exact h rfl
    | cons c rest =>
      rw [List.tail_cons] at htail
      have hsize : (String.ofList (c :: rest)).utf8ByteSize ≤ 4 := by
        rw [← length_utf8, utf8_ofList_cons, htail, List.length_append, String.length_utf8EncodeChar]
        exact c.utf8Size_le_four
      rw [marked_of_short (Nat.le_trans hsize (by decide))] at hmarked
      cases hmarked
  · exact h

section
-- what the library makes of text that is not UTF-8
variable (lossy : Bytes → String)

def utf8Decode (text : Bytes) : String := (ofUtf8 (unmark text)).getD (lossy text)

@[simp] theorem utf8Decode_utf8 (s : String) : utf8Decode lossy (utf8 s) = readText s := by
  simp [utf8Decode, unmark_utf8]

mutual
/-- A map's properties are its entries under string keys; no other is ever looked for. -/
def js : Value → Js
  | .nil => .null
  | .bool b => .boolean b
  | .int _ n => .number n
  | .float bits => floating bits
  | .str text => .string (utf8Decode lossy text)
  | .bin bytes => .binary bytes
  | .ext type bytes => .ext type bytes
  | .array items => .array (jsItems items)
  | .map entries => .record (jsEntries entries)

def jsItems : List Value → List Js
  | [] => []
  | v :: rest => js v :: jsItems rest

def jsEntries : List (Value × Value) → List (String × Js)
  | [] => []
  | (.str key, v) :: rest => (utf8Decode lossy key, js v) :: jsEntries rest
  | _ :: rest => jsEntries rest
end

@[simp] theorem js_text (s : String) : js lossy (.text s) = .string (readText s) := by simp [Value.text, js]

@[simp] theorem js_nat (n : Nat) : js lossy (.nat n) = .number n := by simp [js, Value.nat]

@[simp] theorem js_texts (items : List String) :
    js lossy (.array (items.map .text)) = .array ((items.map readText).map .string) := by
  have hitems : jsItems lossy (items.map .text) = (items.map readText).map .string := by
    induction items with
    | nil => simp [jsItems]
    | cons s rest ih => simp [jsItems, ih]
  rw [js, hitems]

theorem js_named {fields : Fields} (h : ∀ f ∈ fields, marked f.1 = false) :
    js lossy (named fields) = .record (fields.map fun f => (f.1, js lossy f.2)) := by
  have hentries : jsEntries lossy (fields.map fun f => (.text f.1, f.2)) = fields.map fun f => (f.1, js lossy f.2) := by
    induction fields with
    | nil => simp [jsEntries]
    | cons f rest ih =>
      obtain ⟨hf, hrest⟩ := List.forall_mem_cons.mp h
      rw [List.map_cons, List.map_cons, ← ih hrest]
      simp [Value.text, jsEntries, readText_eq_self.mpr hf]
  rw [named, js, hentries]

end

abbrev Record := List (String × Js)

/-- `map[name]`; of two entries with one key the later stands. -/
def Record.get (map : Record) (name : String) : Option Js := map.reverse.lookup name

def asRecord : Js → Option Record
  | .record properties => some properties
  | .binary _ => some []
  | .ext type bytes => some [("type", .number type.toInt8.toInt), ("data", .binary bytes)]
  | _ => none

def describeType : Option Js → String
  | none => "absent"
  | some .null => "nil"
  | some (.array _) => "an array"
  | some (.binary _) => "binary"
  | some (.boolean _) => "a boolean"
  | some (.number _) => "a number"
  | some .fraction => "a number"
  | some (.string _) => "a string"
  | some _ => "a object"

/-! ## Digests -/

inductive DigestProblem where
  | wrongLength (expected found : Nat)
  | notBase64url (character : Char)
  deriving DecidableEq, Repr

/-- `BASE64URL_CHARACTER` -/
def base64urlCharacter (c : Char) : Bool :=
  ('A' ≤ c && c ≤ 'Z') || ('a' ≤ c && c ≤ 'z') || ('0' ≤ c && c ≤ '9') || c == '_' || c == '-'

def digestProblem (value : String) : Option DigestProblem :=
  let found := value.toList.length
  if found ≠ digestChars then some (.wrongLength digestChars found)
  else (value.toList.find? (!base64urlCharacter ·)).map .notBase64url

/-- The relay's alphabet is the client's. -/
theorem isBase64Url_eq (c : Char) : isBase64Url c = base64urlCharacter c := by
  rw [Bool.eq_iff_iff]
  simp only [isBase64Url, base64urlCharacter, Char.isAlphanum, Char.isAlpha, Char.isUpper, Char.isLower, Char.isDigit,
    Bool.or_eq_true, Bool.and_eq_true, decide_eq_true_eq, beq_iff_eq, Char.le_def]
  tauto

theorem digestProblem_of_validateDigest {value : String} (h : validateDigest value = .ok ()) : digestProblem value = none := by
  obtain ⟨hlength, hchars⟩ := validateDigest_ok h
  have hfind : value.toList.find? (!base64urlCharacter ·) = none := by
    rw [List.find?_eq_none]
    intro c hc
    simp [← isBase64Url_eq, hchars c hc]
  simp only [digestProblem, hlength, ne_eq, not_true_eq_false, if_false, hfind, Option.map_none]

/-! ## Frames -/

inductive ServerFrame where
  | ready (protocol : Nat)
  | peers (requestId : String) (names : List String)
  | message (id sender body : String) (replyTo attachment : Option String)
  | notice (id sender body : String) (replyTo attachment : Option String)
  | receipt (id target status : String)
  | accepted (id : String) (delivered shed : Nat)
  | reserved (requestId status : String) (expiresIn : Option Nat)
  | pong
  | error (code : String) (detail requestId : Option String)
  deriving DecidableEq, Repr

def serverFrameTypes : List String :=
  ["ready", "peers", "message", "notice", "receipt", "accepted", "reserved", "pong", "error"]

inductive ServerFrameOutcome where
  | frame (frame : ServerFrame)
  | ignorable (type : String)
  | invalid (reason : String)
  deriving DecidableEq, Repr

/-! ## Fields -/

def nonEmptyString : Option Js → Option String
  | some (.string s) => if s = "" then none else some s
  | _ => none

def anyString : Option Js → Option String
  | some (.string s) => some s
  | _ => none

/-- Absent and nil are both absent. -/
def optionalString : Option Js → Option (Option String)
  | none => some none
  | some .null => some none
  | some (.string s) => some (some s)
  | _ => none

def stringArray : Option Js → Option (List String)
  | some (.array items) => items.mapM fun item => anyString (some item)
  | _ => none

def asU32 : Option Js → Option Nat
  | some (.number n) => if 0 ≤ n ∧ n ≤ 0xffffffff then some n.toNat else none
  | _ => none

/-- `fieldInvalid` -/
def fieldInvalid (frame field : String) (actual : Option Js) (expected : String) : String :=
  s!"{frame}.{field} is {describeType actual}, expected {expected}"

/-- One field of a frame, as `accept` takes it. -/
def field {α : Type} (map : Record) (frame name : String) (accept : Option Js → Option α) (expected : String) :
    Except String α :=
  match accept (map.get name) with
  | some v => .ok v
  | none => .error (fieldInvalid frame name (map.get name) expected)

theorem field_ok {α : Type} {map : Record} {name : String} {actual : Option Js} {accept : Option Js → Option α} {v : α}
    (hget : map.get name = actual) (h : accept actual = some v) (frame expected : String) :
    field map frame name accept expected = .ok v := by
  rw [field, hget, h]

section
variable (map : Record) (frame name : String)

def requiredString : Except String String := field map frame name nonEmptyString "a non-empty string"

def plainString : Except String String := field map frame name anyString "a string"

def optionalField : Except String (Option String) := field map frame name optionalString "a string"

def u32Field : Except String Nat := field map frame name asU32 "a u32"

end

/-! ## Validation -/

/-- `JSON.stringify` of one character of a string. -/
def jsonChar (c : Char) : String :=
  if c = '"' then "\\\"" else if c = '\\' then "\\\\" else if c = '\n' then "\\n" else if c = '\r' then "\\r"
  else if c = '\t' then "\\t" else if c.val = 8 then "\\b" else if c.val = 12 then "\\f"
  else if c.toNat < 32 then "\\u00" ++ String.ofList [Nat.digitChar (c.toNat / 16), Nat.digitChar (c.toNat % 16)]
  else String.singleton c

def jsonString (s : String) : String := "\"" ++ String.join (s.toList.map jsonChar) ++ "\""

def validateDelivery (type : String) (map : Record) : Except String ServerFrame := do
  let id ← requiredString map type "id"
  let sender ← requiredString map type "from"
  let body ← plainString map type "body"
  let replyTo ← optionalField map type "reply_to"
  let attachment ← optionalField map type "attachment"
  if attachment.any fun digest => (digestProblem digest).isSome then
    throw (fieldInvalid type "attachment" (map.get "attachment") s!"{digestChars} characters of unpadded base64url")
  pure (if type = "notice" then .notice id sender body replyTo attachment else .message id sender body replyTo attachment)

def validateReserved (map : Record) : Except String ServerFrame := do
  let requestId ← requiredString map "reserved" "request_id"
  let status ← requiredString map "reserved" "status"
  let expiresIn ← match map.get "expires_in" with
    | none => pure none
    | some .null => pure none
    | some _ => (u32Field map "reserved" "expires_in").map some
  if expiresIn.isSome ∧ status ≠ "granted" then
    throw s!"reserved.expires_in is present with status {jsonString status}, which is not a grant"
  if expiresIn.isNone ∧ status = "granted" then
    throw "reserved.expires_in is absent on a granted reservation, which must state a lifetime"
  pure (.reserved requestId status expiresIn)

def validateFields (type : String) (map : Record) : Except String ServerFrame :=
  match type with
  | "pong" => pure .pong
  | "ready" => do
    let protocol ← u32Field map "ready" "protocol"
    pure (.ready protocol)
  | "peers" => do
    let requestId ← requiredString map "peers" "request_id"
    let names ← field map "peers" "peers" stringArray "an array of strings"
    pure (.peers requestId names)
  | "message" => validateDelivery type map
  | "notice" => validateDelivery type map
  | "receipt" => do
    let id ← requiredString map "receipt" "id"
    let target ← plainString map "receipt" "to"
    let status ← requiredString map "receipt" "status"
    pure (.receipt id target status)
  | "accepted" => do
    let id ← requiredString map "accepted" "id"
    let delivered ← u32Field map "accepted" "delivered"
    let shed ← u32Field map "accepted" "shed"
    pure (.accepted id delivered shed)
  | "reserved" => validateReserved map
  | "error" => do
    let code ← requiredString map "error" "code"
    let detail ← optionalField map "error" "message"
    let requestId ← optionalField map "error" "request_id"
    pure (.error code detail requestId)
  | _ => throw s!"unhandled server frame type: {type}"

def validateServerFrame (value : Js) : ServerFrameOutcome :=
  match asRecord value with
  | none => .invalid s!"payload is {describeType (some value)}, not a map keyed by field name"
  | some map =>
    match map.get "type" with
    | some (.string type) =>
      if type ∉ serverFrameTypes then .ignorable type
      else
        match validateFields type map with
        | .ok frame => .frame frame
        | .error reason => .invalid reason
    | type => .invalid s!"frame discriminator \"type\" is {describeType type}, not a string"

/-! ## What the relay's frames are taken for -/

open OmpRelayd.ServerFrame (typeName fields deliveryFields)

/-- A frame of the relay, with its statuses and codes as text and its counters as they are written. -/
def seen : OmpRelayd.ServerFrame → ServerFrame
  | .ready protocol => .ready (u32 protocol)
  | .peers requestId names => .peers requestId names
  | .message id sender body replyTo attachment => .message id sender body replyTo attachment
  | .notice id sender body replyTo attachment => .notice id sender body replyTo attachment
  | .receipt id target status => .receipt id target status.asStr
  | .accepted id delivered shed => .accepted id (u32 delivered) (u32 shed)
  | .reserved requestId status expiresIn => .reserved requestId status.asStr (expiresIn.map u64)
  | .pong => .pong
  | .error code detail requestId => .error code.asStr detail requestId

/-- A frame of the relay, with each of its texts as the client reads it. -/
def readFrame : OmpRelayd.ServerFrame → OmpRelayd.ServerFrame
  | .peers requestId names => .peers (readText requestId) (names.map readText)
  | .message id sender body replyTo attachment =>
    .message (readText id) (readText sender) (readText body) (replyTo.map readText) (attachment.map readText)
  | .notice id sender body replyTo attachment =>
    .notice (readText id) (readText sender) (readText body) (replyTo.map readText) (attachment.map readText)
  | .receipt id target status => .receipt (readText id) (readText target) status
  | .accepted id delivered shed => .accepted (readText id) delivered shed
  | .reserved requestId status expiresIn => .reserved (readText requestId) status expiresIn
  | .error code detail requestId => .error code (detail.map readText) (requestId.map readText)
  | frame => frame

/-- Its texts. -/
def texts : OmpRelayd.ServerFrame → List String
  | .peers requestId names => requestId :: names
  | .message id sender body replyTo attachment => id :: sender :: body :: (replyTo.toList ++ attachment.toList)
  | .notice id sender body replyTo attachment => id :: sender :: body :: (replyTo.toList ++ attachment.toList)
  | .receipt id target _ => [id, target]
  | .accepted id _ _ => [id]
  | .reserved requestId _ _ => [requestId]
  | .error _ detail requestId => detail.toList ++ requestId.toList
  | _ => []

theorem map_readText_eq_self {value : Option String} :
    value.map readText = value ↔ ∀ text ∈ value, marked text = false := by
  cases value <;> simp [readText_eq_self]

/-- A frame is seen as it was written exactly when no text of it loses a mark. -/
theorem seen_readFrame (frame : OmpRelayd.ServerFrame) :
    seen (readFrame frame) = seen frame ↔ ∀ text ∈ texts frame, marked text = false := by
  have hnames : ∀ names : List String, names.map readText = names ↔ ∀ text ∈ names, marked text = false := by
    intro names
    induction names with
    | nil => simp
    | cons name rest ih => simp [ih, readText_eq_self]
  cases frame <;>
    simp [seen, readFrame, texts, readText_eq_self, map_readText_eq_self, hnames, or_imp, forall_and]

/-- What the client asks of a delivery. -/
def DeliveryWellFormed (id sender : String) (attachment : Option String) : Prop :=
  id ≠ "" ∧ sender ≠ "" ∧ ∀ digest ∈ attachment, validateDigest digest = .ok ()

/-- What the client asks of a frame. -/
def WellFormed : OmpRelayd.ServerFrame → Prop
  | .peers requestId _ => requestId ≠ ""
  | .message id sender _ _ attachment => DeliveryWellFormed id sender attachment
  | .notice id sender _ _ attachment => DeliveryWellFormed id sender attachment
  | .receipt id _ _ => id ≠ ""
  | .accepted id _ _ => id ≠ ""
  | .reserved requestId status expiresIn =>
    requestId ≠ "" ∧ (expiresIn.isSome ↔ status = .granted) ∧ ∀ n ∈ expiresIn, n < 2 ^ 32
  | _ => True

theorem deliveryWellFormed_read {id sender : String} {attachment : Option String} (h : DeliveryWellFormed id sender attachment) :
    DeliveryWellFormed (readText id) (readText sender) (attachment.map readText) := by
  obtain ⟨hid, hsender, hdigest⟩ := h
  have hsame : attachment.map readText = attachment := map_readText_eq_self.mpr fun digest hd =>
    marked_of_short (Nat.le_trans (Nat.le_of_eq (validateDigest_size (hdigest digest hd))) (by decide))
  exact ⟨readText_ne_empty hid, readText_ne_empty hsender, hsame.symm ▸ hdigest⟩

theorem wellFormed_readFrame {frame : OmpRelayd.ServerFrame} (h : WellFormed frame) : WellFormed (readFrame frame) := by
  cases frame with
  | peers requestId names => exact readText_ne_empty h
  | message id sender body replyTo attachment => exact deliveryWellFormed_read h
  | notice id sender body replyTo attachment => exact deliveryWellFormed_read h
  | receipt id target status => exact readText_ne_empty h
  | accepted id delivered shed => exact readText_ne_empty h
  | reserved requestId status expiresIn => exact ⟨readText_ne_empty h.1, h.2⟩
  | _ => trivial

theorem nonEmptyString_string {s : String} (h : s ≠ "") : nonEmptyString (some (.string s)) = some s := if_neg h

theorem anyString_string (s : String) : anyString (some (.string s)) = some s := rfl

theorem optionalString_map (value : Option String) : optionalString (value.map .string) = some value := by
  cases value <;> rfl

theorem asU32_number {n : Nat} (h : n < 2 ^ 32) : asU32 (some (.number n)) = some n := by
  rw [asU32, if_pos (by omega), Int.toNat_natCast]

theorem asU32_u32 (n : Nat) : asU32 (some (.number (u32 n))) = some (u32 n) := asU32_number (Nat.mod_lt _ (by decide))

theorem stringArray_strings (items : List String) : stringArray (some (.array (items.map .string))) = some items := by
  simp only [stringArray]
  induction items with
  | nil => rfl
  | cons s rest ih => rw [List.map_cons, List.mapM_cons, ih]; rfl

/-- The properties of a decoded frame. -/
def properties (lossy : Bytes → String) (frame : OmpRelayd.ServerFrame) : Record :=
  ("type", .string frame.typeName) :: frame.fields.map fun f => (f.1, js lossy f.2)

/-- Names are short: those of the fields, of the types, of the statuses and of the codes. -/
theorem name_unmarked (frame : OmpRelayd.ServerFrame) :
    ∀ f ∈ ("type", Value.text frame.typeName) :: frame.fields, marked f.1 = false := by
  have hall : ((("type", Value.text frame.typeName) :: frame.fields).all fun f => !marked f.1) = true := by
    cases frame with
    | message id sender body replyTo attachment => cases replyTo <;> cases attachment <;> rfl
    | notice id sender body replyTo attachment => cases replyTo <;> cases attachment <;> rfl
    | reserved requestId status expiresIn => cases expiresIn <;> rfl
    | error code detail requestId => cases detail <;> cases requestId <;> rfl
    | _ => rfl
  simpa using hall

theorem readText_typeName (frame : OmpRelayd.ServerFrame) : readText frame.typeName = frame.typeName := by
  cases frame <;> rfl

theorem js_value (lossy : Bytes → String) (frame : OmpRelayd.ServerFrame) :
    js lossy frame.value = .record (properties lossy frame) := by
  rw [OmpRelayd.ServerFrame.value, js_named lossy (name_unmarked frame), List.map_cons, js_text, properties, readText_typeName]

theorem get_type (lossy : Bytes → String) (frame : OmpRelayd.ServerFrame) :
    (properties lossy frame).get "type" = some (.string frame.typeName) := by
  have hdelivery : ∀ (type : String) (id sender body : String) (replyTo attachment : Option String),
      Record.get (("type", .string type) :: (deliveryFields id sender body replyTo attachment).map
        fun f => (f.1, js lossy f.2)) "type" = some (.string type) := by
    intro type id sender body replyTo attachment
    cases replyTo <;> cases attachment <;> rfl
  cases frame with
  | message id sender body replyTo attachment => exact hdelivery _ _ _ _ _ _
  | notice id sender body replyTo attachment => exact hdelivery _ _ _ _ _ _
  | reserved requestId status expiresIn => cases expiresIn <;> rfl
  | error code detail requestId => cases detail <;> cases requestId <;> rfl
  | _ => rfl

/-- The properties of a delivery. -/
def deliveryProperties (type id sender body : String) (replyTo attachment : Option String) : Record :=
  [("type", .string type), ("id", .string id), ("from", .string sender), ("body", .string body)] ++
    (replyTo.toList.map fun v => ("reply_to", .string v)) ++ attachment.toList.map fun v => ("attachment", .string v)

theorem deliveryFields_js (lossy : Bytes → String) (type id sender body : String) (replyTo attachment : Option String) :
    (("type", .string type) :: (deliveryFields id sender body replyTo attachment).map
      fun f => (f.1, js lossy f.2)) =
      deliveryProperties type (readText id) (readText sender) (readText body) (replyTo.map readText) (attachment.map readText) := by
  cases replyTo <;> cases attachment <;>
    simp only [deliveryFields, optional, deliveryProperties, Option.toList, List.map_cons, List.map_nil,
      List.cons_append, List.nil_append, List.append_nil, js_text, Option.map_some, Option.map_none]

theorem validateDelivery_seen {type id sender body : String} {replyTo attachment : Option String}
    (h : DeliveryWellFormed id sender attachment) :
    validateDelivery type (deliveryProperties type id sender body replyTo attachment) =
      .ok (if type = "notice" then .notice id sender body replyTo attachment
        else .message id sender body replyTo attachment) := by
  obtain ⟨hid, hsender, hdigest⟩ := h
  have hattachment : (attachment.any fun digest => (digestProblem digest).isSome) = false := by
    cases attachment with
    | none => rfl
    | some digest => rw [Option.any_some, digestProblem_of_validateDigest (hdigest digest rfl), Option.isSome_none]
  generalize hmap : deliveryProperties type id sender body replyTo attachment = map
  have hget : map.get "id" = some (.string id) ∧ map.get "from" = some (.string sender) ∧
      map.get "body" = some (.string body) ∧ map.get "reply_to" = replyTo.map .string ∧
      map.get "attachment" = attachment.map .string := by
    subst hmap
    cases replyTo <;> cases attachment <;> exact ⟨rfl, rfl, rfl, rfl, rfl⟩
  obtain ⟨hgetId, hgetFrom, hgetBody, hgetReply, hgetAttachment⟩ := hget
  unfold validateDelivery requiredString plainString optionalField
  rw [field_ok hgetId (nonEmptyString_string hid), field_ok hgetFrom (nonEmptyString_string hsender),
    field_ok hgetBody (anyString_string body), field_ok hgetReply (optionalString_map replyTo),
    field_ok hgetAttachment (optionalString_map attachment)]
  simp only [bind, Except.bind, hattachment, Bool.false_eq_true, if_false]
  rfl

/-- The properties of an answer to a reservation. -/
def reservedProperties (requestId : String) (status : ReserveStatus) (expiresIn : Option Nat) : Record :=
  ("type", .string "reserved") :: ("request_id", .string requestId) :: ("status", .string status.asStr) ::
    expiresIn.toList.map fun n => ("expires_in", .number (u64 n))

theorem reservedFields_js (lossy : Bytes → String) (requestId : String) (status : ReserveStatus) (expiresIn : Option Nat) :
    properties lossy (.reserved requestId status expiresIn) = reservedProperties (readText requestId) status expiresIn := by
  have hstatus : readText status.asStr = status.asStr := by cases status <;> rfl
  cases expiresIn <;>
    simp only [properties, typeName, fields, reservedProperties, Option.toList,
      List.map_cons, List.map_nil, List.cons_append, List.nil_append, js_text, js_nat, hstatus]

theorem validateReserved_seen {requestId : String} {status : ReserveStatus} {expiresIn : Option Nat}
    (hid : requestId ≠ "") (hgranted : expiresIn.isSome ↔ status = .granted) (hlifetime : ∀ n ∈ expiresIn, n < 2 ^ 32) :
    validateReserved (reservedProperties requestId status expiresIn) =
      .ok (.reserved requestId status.asStr (expiresIn.map u64)) := by
  generalize hmap : reservedProperties requestId status expiresIn = map
  have hget : map.get "request_id" = some (.string requestId) ∧ map.get "status" = some (.string status.asStr) ∧
      map.get "expires_in" = expiresIn.map fun n => .number (u64 n) := by
    subst hmap
    cases expiresIn <;> exact ⟨rfl, rfl, rfl⟩
  obtain ⟨hgetId, hgetStatus, hgetExpires⟩ := hget
  unfold validateReserved requiredString u32Field
  rw [field_ok hgetId (nonEmptyString_string hid), field_ok hgetStatus (nonEmptyString_string status.asStr_ne_empty),
    hgetExpires]
  cases expiresIn with
  | none =>
    have hrefused : status.asStr ≠ "granted" := by
      cases status with
      | granted => exact absurd (hgranted.mpr rfl) (by decide)
      | _ => decide
    simp only [bind, Except.bind, Option.map_none, hrefused]
    rfl
  | some n =>
    have hu64 : u64 n < 2 ^ 32 := Nat.lt_of_le_of_lt (Nat.mod_le _ _) (hlifetime n rfl)
    have hstatus : status.asStr = "granted" := by rw [hgranted.mp rfl]; rfl
    rw [field_ok hgetExpires (asU32_number hu64)]
    simp only [bind, Except.bind, Except.map, Option.map_some, Option.isSome_some, Option.isNone_some, Bool.false_eq_true,
      false_and, true_and, if_false, hstatus, ne_eq, not_true_eq_false]
    rfl

/-- The properties of an error. -/
def errorProperties (code : ErrorCode) (detail requestId : Option String) : Record :=
  ("type", .string "error") :: ("code", .string code.asStr) ::
    ((detail.toList.map fun v => ("message", .string v)) ++ requestId.toList.map fun v => ("request_id", .string v))

theorem errorFields_js (lossy : Bytes → String) (code : ErrorCode) (detail requestId : Option String) :
    properties lossy (.error code detail requestId) =
      errorProperties code (detail.map readText) (requestId.map readText) := by
  have hcode : readText code.asStr = code.asStr := by cases code <;> rfl
  cases detail <;> cases requestId <;>
    simp only [properties, typeName, fields, optional, errorProperties, Option.toList,
      List.map_cons, List.map_nil, List.cons_append, List.nil_append, js_text, Option.map_some, Option.map_none, hcode]

theorem get_errorProperties (code : ErrorCode) (detail requestId : Option String) :
    (errorProperties code detail requestId).get "code" = some (.string code.asStr) ∧
      (errorProperties code detail requestId).get "message" = detail.map .string ∧
      (errorProperties code detail requestId).get "request_id" = requestId.map .string := by
  cases detail <;> cases requestId <;> exact ⟨rfl, rfl, rfl⟩

theorem validateFields_seen (lossy : Bytes → String) {frame : OmpRelayd.ServerFrame} (h : WellFormed frame) :
    validateFields frame.typeName (properties lossy frame) = .ok (seen (readFrame frame)) := by
  replace h := wellFormed_readFrame h
  cases frame with
  | ready protocol =>
    simp only [properties, typeName, fields, List.map_cons, List.map_nil, js_nat, validateFields, u32Field]
    rw [field_ok rfl (asU32_u32 protocol)]
    rfl
  | peers requestId names =>
    simp only [properties, typeName, fields, List.map_cons, List.map_nil, js_text, js_texts, validateFields, requiredString]
    rw [field_ok rfl (nonEmptyString_string h), field_ok rfl (stringArray_strings (names.map readText))]
    rfl
  | message id sender body replyTo attachment | notice id sender body replyTo attachment =>
    simp only [properties, typeName, fields, deliveryFields_js, validateFields]
    rw [validateDelivery_seen h]
    rfl
  | receipt id target status =>
    have hstatus : readText status.asStr = status.asStr := by cases status <;> rfl
    simp only [properties, typeName, fields, List.map_cons, List.map_nil, js_text, validateFields, requiredString, plainString,
      hstatus]
    rw [field_ok rfl (nonEmptyString_string h), field_ok rfl (anyString_string (readText target)),
      field_ok rfl (nonEmptyString_string status.asStr_ne_empty)]
    rfl
  | accepted id delivered shed =>
    simp only [properties, typeName, fields, List.map_cons, List.map_nil, js_text, js_nat, validateFields, requiredString,
      u32Field]
    rw [field_ok rfl (nonEmptyString_string h), field_ok rfl (asU32_u32 delivered), field_ok rfl (asU32_u32 shed)]
    rfl
  | reserved requestId status expiresIn =>
    obtain ⟨hid, hgranted, hlifetime⟩ := h
    rw [reservedFields_js]
    exact validateReserved_seen hid hgranted hlifetime
  | pong => rfl
  | error code detail requestId =>
    obtain ⟨hgetCode, hgetDetail, hgetId⟩ := get_errorProperties code (detail.map readText) (requestId.map readText)
    rw [errorFields_js]
    simp only [typeName, validateFields, requiredString, optionalField]
    rw [field_ok hgetCode (nonEmptyString_string code.asStr_ne_empty), field_ok hgetDetail (optionalString_map _),
      field_ok hgetId (optionalString_map _)]
    rfl

theorem typeName_known (frame : OmpRelayd.ServerFrame) : frame.typeName ∈ serverFrameTypes := by
  cases frame <;> simp [typeName, serverFrameTypes]

/-- A frame of the relay is taken for what it is, as far as its texts are read. -/
theorem validateServerFrame_seen (lossy : Bytes → String) {frame : OmpRelayd.ServerFrame} (h : WellFormed frame) :
    validateServerFrame (js lossy frame.value) = .frame (seen (readFrame frame)) := by
  rw [js_value, validateServerFrame]
  simp only [asRecord, get_type, typeName_known, not_true_eq_false, if_false, validateFields_seen lossy h]

end OmpRelayd.Client
