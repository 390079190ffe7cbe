/-
  OmpRelayd.Decode — frames as the relay reads them (server/src/protocol.rs: `decode`, the
  deserializers of `ClientFrame`, `ServerFrame` and `RoomId`).

  A payload must begin with the marker of a map and be one value to its end. What the map says is
  decided by the derived deserializers: the entry whose key is `type` is set aside and names the
  variant, and the other entries, kept as they are, are given to the variant's own reader, which
  asks each key which field it is. Such an identifier is a string, or as many bytes, that spells a
  name; or an unsigned integer, the position of a name in its list (`identify`). Any other name or
  position is ignored in a key and, in a `ClientFrame`, is the type `unsupported`; anything else
  in place of an identifier is an error, as is a field given twice. Only `RoomId` is read by hand:
  from a map whose keys are all strings, the last of each name counting.

  Which integers are positions depends on where they come from. The type is read off the payload,
  where every unsigned spelling is one (`direct`). The other keys have been set aside, and of what
  was set aside only 8-bit and 64-bit unsigned integers are taken for identifiers (`buffered`).

  The values are those of `Lib.MsgPack`. The library reads them as it goes and stops at the first
  error; which one it was is left out.

  The claim of this code is that only named maps are frames. It is not so: the type, and any
  field, may be given by its position (`a_frame_may_be_spelled_by_index`). Proved
  (`frames_are_named_maps`): that is all, and it is always so. A payload that decodes to a known
  frame is a map that names the frame's type and each of its fields, once, if and only if the type
  is no integer and no key is the position of a field (`indexed`).
-/

import OmpRelayd.Wire

namespace OmpRelayd

open MsgPack

/-! ## Frames -/

inductive ClientType where
  | hello
  | list
  | send
  | announce
  | reserve
  | ping
  | unsupported
  deriving DecidableEq, Repr

namespace ClientType

def all : List ClientType := [.hello, .list, .send, .announce, .reserve, .ping, .unsupported]

def name : ClientType → String
  | .hello => "hello"
  | .list => "list"
  | .send => "send"
  | .announce => "announce"
  | .reserve => "reserve"
  | .ping => "ping"
  | .unsupported => "unsupported"

/-- The fields of the variant, in the order they are declared. -/
def keys : ClientType → List String
  | .hello => ["protocol", "room", "peer"]
  | .list => ["request_id"]
  | .send => ["id", "to", "body", "reply_to", "attachment"]
  | .announce => ["id", "body", "reply_to", "attachment"]
  | .reserve => ["request_id", "digest", "bytes"]
  | .ping => []
  | .unsupported => []

end ClientType

inductive ServerType where
  | ready
  | peers
  | message
  | notice
  | receipt
  | accepted
  | reserved
  | pong
  | error
  deriving DecidableEq, Repr

namespace ServerType

def all : List ServerType := [.ready, .peers, .message, .notice, .receipt, .accepted, .reserved, .pong, .error]

def name : ServerType → String
  | .ready => "ready"
  | .peers => "peers"
  | .message => "message"
  | .notice => "notice"
  | .receipt => "receipt"
  | .accepted => "accepted"
  | .reserved => "reserved"
  | .pong => "pong"
  | .error => "error"

def keys : ServerType → List String
  | .ready => ["protocol"]
  | .peers => ["request_id", "peers"]
  | .message => ["id", "from", "body", "reply_to", "attachment"]
  | .notice => ["id", "from", "body", "reply_to", "attachment"]
  | .receipt => ["id", "to", "status"]
  | .accepted => ["id", "delivered", "shed"]
  | .reserved => ["request_id", "status", "expires_in"]
  | .pong => []
  | .error => ["code", "message", "request_id"]

end ServerType

def ClientFrame.kind : ClientFrame → ClientType
  | .hello _ _ _ => .hello
  | .list _ => .list
  | .send _ _ _ _ _ => .send
  | .announce _ _ _ _ => .announce
  | .reserve _ _ _ => .reserve
  | .ping => .ping
  | .unsupported => .unsupported

def ServerFrame.kind : ServerFrame → ServerType
  | .ready _ => .ready
  | .peers _ _ => .peers
  | .message _ _ _ _ _ => .message
  | .notice _ _ _ _ _ => .notice
  | .receipt _ _ _ => .receipt
  | .accepted _ _ _ => .accepted
  | .reserved _ _ _ => .reserved
  | .pong => .pong
  | .error _ _ _ => .error

def ReserveStatus.all : List ReserveStatus := [.granted, .payloadTooLarge, .roomFull, .storeFull]

def ReceiptStatus.all : List ReceiptStatus := [.routed, .peerOffline, .recipientBackpressure, .invalidTarget]

def ErrorCode.all : List ErrorCode :=
  [.unsupportedFrame, .unsupportedProtocol, .invalidHello, .duplicateHello, .invalidIdentifier, .malformedFrame,
    .frameTooLarge, .helloTimeout, .idleTimeout, .peerReplaced]

namespace Decode

abbrev Entries := List (Value × Value)

/-! ## Identifiers -/

/-- The string, or the bytes, that spell `name`. -/
def spells (name : String) : Value → Bool
  | .str text => text == utf8 name
  | .bin bytes => bytes == utf8 name
  | _ => false

/-- The integers that `deserialize_any` hands to `visit_u64`, in the end. -/
def direct : IntForm → Bool
  | .fixpos => true
  | .unsigned _ => true
  | _ => false

/-- The integers that `ContentDeserializer::deserialize_identifier` hands on: `U8` and `U64`. -/
def buffered : IntForm → Bool
  | .fixpos => true
  | .unsigned .one => true
  | .unsigned .eight => true
  | _ => false

/-- A generated identifier: `none` for what cannot be one, `some none` for one that is not known. -/
def identify {α : Type} (position : IntForm → Bool) (name : α → String) (all : List α) : Value → Option (Option α)
  | .str text => some (all.find? fun a => text == utf8 (name a))
  | .bin bytes => some (all.find? fun a => bytes == utf8 (name a))
  | .int form (.ofNat n) => if position form then some all[n]? else none
  | _ => none

/-! ## Values -/

def asString : Value → Option String
  | .str text => ofUtf8 text
  | .bin bytes => ofUtf8 bytes
  | _ => none

/-- An unsigned integer of `bits` bits. -/
def asUnsigned (bits : Nat) : Value → Option Nat
  | .int _ (.ofNat n) => if n < 2 ^ bits then some n else none
  | _ => none

def asStrings : Value → Option (List String)
  | .array items => items.mapM asString
  | _ => none

/-- A unit variant: its name, or a map from its identifier to nothing. -/
def asVariant {α : Type} (name : α → String) (all : List α) : Value → Option α
  | .str text => all.find? fun a => text == utf8 (name a)
  | .map [(key, .nil)] => (identify buffered name all key).join
  | .map [(key, .map [])] => (identify buffered name all key).join
  | _ => none

/-- The loop of `RoomId`'s visitor. -/
def readRoom : Entries → Option String → Option String → Option RoomId
  | [], project, task => do
    let project ← project
    let task ← task
    some ⟨project, task⟩
  | (key, value) :: rest, project, task => do
    let key ← asString key
    if key = "project" then
      let project ← asString value
      readRoom rest (some project) task
    else if key = "task" then
      let task ← asString value
      readRoom rest project (some task)
    else readRoom rest project task

def asRoom : Value → Option RoomId
  | .map entries => readRoom entries none none
  | _ => none

/-! ## Fields -/

/-- The values given for a field. -/
def valuesOf (keys : List String) (name : String) (content : Entries) : List Value :=
  (content.filter fun e => identify buffered id keys e.1 == some (some name)).map (·.2)

/-- Missing, or given twice, is an error. -/
def required {α : Type} (read : Value → Option α) : List Value → Option α
  | [value] => read value
  | _ => none

def optionally {α : Type} (read : Value → Option α) : List Value → Option (Option α)
  | [] => some none
  | [.nil] => some none
  | [value] => (read value).map some
  | _ => none

/-- A struct variant: every key must be an identifier. -/
def structVariant {F : Type} (keys : List String) (content : Entries) (read : (String → List Value) → Option F) : Option F :=
  if content.all fun e => (identify buffered id keys e.1).isSome then read fun name => valuesOf keys name content else none

/-- The type, and the entries beside it. -/
def tagged (entries : Entries) : Option (Value × Entries) :=
  match entries.filter fun e => spells "type" e.1 with
  | [entry] => some (entry.2, entries.filter fun e => !spells "type" e.1)
  | _ => none

/-! ## Frames -/

/-- A unit variant looks at nothing. -/
def clientVariant (kind : ClientType) (content : Entries) : Option ClientFrame :=
  match kind with
  | .hello => structVariant kind.keys content fun field => do
    let protocol ← required (asUnsigned 32) (field "protocol")
    let room ← required asRoom (field "room")
    let peer ← required asString (field "peer")
    some (.hello protocol room peer)
  | .list => structVariant kind.keys content fun field => do
    let requestId ← required asString (field "request_id")
    some (.list requestId)
  | .send => structVariant kind.keys content fun field => do
    let id ← required asString (field "id")
    let target ← required asString (field "to")
    let body ← required asString (field "body")
    let replyTo ← optionally asString (field "reply_to")
    let attachment ← optionally asString (field "attachment")
    some (.send id target body replyTo attachment)
  | .announce => structVariant kind.keys content fun field => do
    let id ← required asString (field "id")
    let body ← required asString (field "body")
    let replyTo ← optionally asString (field "reply_to")
    let attachment ← optionally asString (field "attachment")
    some (.announce id body replyTo attachment)
  | .reserve => structVariant kind.keys content fun field => do
    let requestId ← required asString (field "request_id")
    let digest ← required asString (field "digest")
    let bytes ← required (asUnsigned 64) (field "bytes")
    some (.reserve requestId digest bytes)
  | .ping => some .ping
  | .unsupported => some .unsupported

def clientFrameOf : Value → Option ClientFrame
  | .map entries => do
    let (tag, content) ← tagged entries
    let kind ← identify direct ClientType.name ClientType.all tag
    clientVariant (kind.getD .unsupported) content
  | _ => none

/-- What `message` and `notice` have in common. -/
def delivery (make : String → String → String → Option String → Option String → ServerFrame) (field : String → List Value) :
    Option ServerFrame := do
  let id ← required asString (field "id")
  let sender ← required asString (field "from")
  let body ← required asString (field "body")
  let replyTo ← optionally asString (field "reply_to")
  let attachment ← optionally asString (field "attachment")
  some (make id sender body replyTo attachment)

def serverVariant (kind : ServerType) (content : Entries) : Option ServerFrame :=
  match kind with
  | .ready => structVariant kind.keys content fun field => do
    let protocol ← required (asUnsigned 32) (field "protocol")
    some (.ready protocol)
  | .peers => structVariant kind.keys content fun field => do
    let requestId ← required asString (field "request_id")
    let peers ← required asStrings (field "peers")
    some (.peers requestId peers)
  | .message => structVariant kind.keys content (delivery .message)
  | .notice => structVariant kind.keys content (delivery .notice)
  | .receipt => structVariant kind.keys content fun field => do
    let id ← required asString (field "id")
    let target ← required asString (field "to")
    let status ← required (asVariant ReceiptStatus.asStr ReceiptStatus.all) (field "status")
    some (.receipt id target status)
  | .accepted => structVariant kind.keys content fun field => do
    let id ← required asString (field "id")
    let delivered ← required (asUnsigned 32) (field "delivered")
    let shed ← required (asUnsigned 32) (field "shed")
    some (.accepted id delivered shed)
  | .reserved => structVariant kind.keys content fun field => do
    let requestId ← required asString (field "request_id")
    let status ← required (asVariant ReserveStatus.asStr ReserveStatus.all) (field "status")
    let expiresIn ← optionally (asUnsigned 64) (field "expires_in")
    some (.reserved requestId status expiresIn)
  | .pong => some .pong
  | .error => structVariant kind.keys content fun field => do
    let code ← required (asVariant ErrorCode.asStr ErrorCode.all) (field "code")
    let message ← optionally asString (field "message")
    let requestId ← optionally asString (field "request_id")
    some (.error code message requestId)

/-- No `ServerFrame` is of another type. -/
def serverFrameOf : Value → Option ServerFrame
  | .map entries => do
    let (tag, content) ← tagged entries
    let kind ← (identify direct ServerType.name ServerType.all tag).join
    serverVariant kind content
  | _ => none

/-! ## Payloads -/

inductive DecodeError where
  | emptyPayload
  | notAMap (marker : UInt8)
  | decode
  | trailingBytes (consumed total : Nat)
  deriving DecidableEq, Repr

def isMapMarker (marker : UInt8) : Bool :=
  (0x80 ≤ marker && marker ≤ 0x8f) || marker == 0xde || marker == 0xdf

/-- Containers may be nested less deep than this. -/
def depthLimit : Nat := 1024

def decode {F : Type} (frameOf : Value → Option F) (payload : Bytes) : Except DecodeError F :=
  match payload with
  | [] => .error .emptyPayload
  | marker :: _ =>
    if !isMapMarker marker then .error (.notAMap marker)
    else match Value.read payload.length payload with
      | none => .error .decode
      | some (value, rest) =>
        if depthLimit ≤ value.nesting then .error .decode
        else match frameOf value with
          | none => .error .decode
          | some frame =>
            if rest = [] then .ok frame
            else .error (.trailingBytes (payload.length - rest.length) payload.length)

/-! ## Named maps -/

/-- The one entry whose key spells the name has such a value. -/
def Taken (entries : Entries) (name : String) (P : Value → Prop) : Prop :=
  ∃ key value, entries.filter (fun e => spells name e.1) = [(key, value)] ∧ P value

/-- An absent field has no entry, however its key is given, or nil. -/
def TakenOptional (keys : List String) (entries : Entries) (name : String) : Option String → Prop
  | some text => Taken entries name fun v => asString v = some text
  | none => (∀ e ∈ entries, identify buffered id keys e.1 ≠ some (some name)) ∨ Taken entries name (· = .nil)

def RoomTaken (room : RoomId) (v : Value) : Prop :=
  ∃ members, v = .map members ∧ (∃ e ∈ members, spells "project" e.1 ∧ asString e.2 = some room.project) ∧
    ∃ e ∈ members, spells "task" e.1 ∧ asString e.2 = some room.task

/-- Every field of the frame is taken from the entry of its name. -/
def FieldsTaken (keys : List String) (entries : Entries) : ClientFrame → Prop
  | .hello protocol room peer =>
    Taken entries "protocol" (fun v => ∃ form, v = .int form protocol) ∧ Taken entries "room" (RoomTaken room) ∧
      Taken entries "peer" (fun v => asString v = some peer)
  | .list requestId => Taken entries "request_id" fun v => asString v = some requestId
  | .send id target body replyTo attachment =>
    Taken entries "id" (fun v => asString v = some id) ∧ Taken entries "to" (fun v => asString v = some target) ∧
      Taken entries "body" (fun v => asString v = some body) ∧ TakenOptional keys entries "reply_to" replyTo ∧
      TakenOptional keys entries "attachment" attachment
  | .announce id body replyTo attachment =>
    Taken entries "id" (fun v => asString v = some id) ∧ Taken entries "body" (fun v => asString v = some body) ∧
      TakenOptional keys entries "reply_to" replyTo ∧ TakenOptional keys entries "attachment" attachment
  | .reserve requestId digest bytes =>
    Taken entries "request_id" (fun v => asString v = some requestId) ∧
      Taken entries "digest" (fun v => asString v = some digest) ∧ Taken entries "bytes" (fun v => ∃ form, v = .int form bytes)
  | .ping => True
  | .unsupported => True

/-- The payload is one map, which names the frame's type and each of its fields. -/
def NamedMap (payload : Bytes) (frame : ClientFrame) : Prop :=
  ∃ entries, Value.read payload.length payload = some (.map entries, []) ∧
    Taken entries "type" (fun v => spells frame.kind.name v) ∧ FieldsTaken frame.kind.keys entries frame

def isInt : Value → Bool
  | .int _ _ => true
  | _ => false

/-- The key is the position of a field. -/
def isIndex (keys : List String) : Value → Bool
  | .int form (.ofNat n) => buffered form && n < keys.length
  | _ => false

/-- The type is known, and it is given by its position or some key is the position of one of its fields. -/
def indexed (payload : Bytes) : Bool :=
  match Value.read payload.length payload with
  | some (.map entries, _) =>
    match tagged entries with
    | some (tag, content) =>
      match identify direct ClientType.name ClientType.all tag with
      | some (some .unsupported) => false
      | some (some kind) => isInt tag || content.any fun e => isIndex kind.keys e.1
      | _ => false
    | none => false
  | _ => false

section
variable {α : Type} {name : α → String} {all : List α} {keys : List String} {entries content : Entries} {tag v : Value}

theorem eq_utf8_of_spells {field : String} (h : spells field v) : v = .str (utf8 field) ∨ v = .bin (utf8 field) := by
  cases v with
  | str text => exact .inl (congrArg Value.str (eq_of_beq h))
  | bin bytes => exact .inr (congrArg Value.bin (eq_of_beq h))
  | _ => cases h

theorem spells_of_asString {field : String} (h : asString v = some field) : spells field v := by
  cases v with
  | str text => exact beq_iff_eq.2 (utf8_of_ofUtf8 h).symm
  | bin bytes => exact beq_iff_eq.2 (utf8_of_ofUtf8 h).symm
  | _ => cases h

/-- Nothing spells two names. -/
theorem spells_unique {field other : String} (h : spells field v) (h' : spells other v) : field = other := by
  rcases eq_utf8_of_spells h with rfl | rfl <;> exact utf8_injective (eq_of_beq h')

/-- What is identified is spelled, or is a position. -/
theorem identify_some {position : IntForm → Bool} {a : α} (h : identify position name all v = some (some a)) :
    a ∈ all ∧ (spells (name a) v ∨ isInt v = true) := by
  cases v with
  | str text | bin bytes =>
    have hfind := Option.some.inj h
    have hspells := List.find?_some hfind
    exact ⟨List.mem_of_find?_eq_some hfind, .inl hspells⟩
  | int form n =>
    cases n with
    | ofNat n =>
      simp only [identify] at h
      split at h
      · exact ⟨List.mem_of_getElem? (Option.some.inj h), .inr rfl⟩
      · cases h
    | negSucc n => cases h
  | _ => cases h

theorem find_named {a : α} (ha : a ∈ all) (hname : ∀ b ∈ all, name a = name b → b = a) :
    (all.find? fun b => utf8 (name a) == utf8 (name b)) = some a := by
  cases hfound : all.find? fun b => utf8 (name a) == utf8 (name b) with
  | none => exact absurd (beq_self_eq_true _) (List.find?_eq_none.1 hfound a ha)
  | some b =>
    have hb := List.find?_some hfound
    rw [hname b (List.mem_of_find?_eq_some hfound) (utf8_injective (eq_of_beq hb))]

/-- A name is identified, in a list in which it is. -/
theorem identify_spelled {field : String} (hfield : field ∈ keys) (h : spells field v) :
    identify buffered id keys v = some (some field) := by
  have hfind := @find_named String id keys field hfield fun _ _ h => h.symm
  rcases eq_utf8_of_spells h with rfl | rfl <;> exact congrArg some hfind

/-- Whatever is given for the field is given by its name. -/
def ByName (keys : List String) (content : Entries) (field : String) : Prop :=
  ∀ e ∈ content, identify buffered id keys e.1 = some (some field) → spells field e.1

/-- No key is a position just when every field is given by name. -/
theorem byName_iff : (∀ field ∈ keys, ByName keys content field) ↔ content.any (fun e => isIndex keys e.1) = false := by
  constructor
  · intro h
    refine List.any_eq_false.2 fun e he hindex => ?_
    obtain ⟨key, value⟩ := e
    simp only [isIndex] at hindex
    split at hindex
    · rename_i form n
      simp only [Bool.and_eq_true, decide_eq_true_eq] at hindex
      obtain ⟨hform, hn⟩ := hindex
      have hidentify : identify buffered id keys (.int form (.ofNat n)) = some (some keys[n]) := by
        simp only [identify, if_pos hform, List.getElem?_eq_getElem hn]
      cases h keys[n] (List.getElem_mem hn) _ he hidentify
    · cases hindex
  · intro h field hfield e he hidentify
    have hnot := List.any_eq_false.1 h e he
    obtain ⟨key, value⟩ := e
    cases key with
    | int form n =>
      exfalso
      cases n with
      | ofNat n =>
        simp only [identify] at hidentify
        split at hidentify
        · rename_i hform
          obtain ⟨hn, -⟩ := List.getElem?_eq_some_iff.1 (Option.some.inj hidentify)
          simp [isIndex, hform, hn] at hnot
        · cases hidentify
      | negSucc n => cases hidentify
    | _ =>
      rcases (identify_some hidentify).2 with hspells | hint
      · exact hspells
      · cases hint

theorem tagged_some (h : tagged entries = some (tag, content)) :
    (∃ key, entries.filter (fun e => spells "type" e.1) = [(key, tag)]) ∧
      content = entries.filter fun e => !spells "type" e.1 := by
  simp only [tagged] at h
  split at h
  · cases h
    exact ⟨⟨_, ‹_›⟩, rfl⟩
  · cases h

/-- Given by name: the values of a field are those of the entries that spell it. -/
theorem valuesOf_eq {field : String} (htag : tagged entries = some (tag, content)) (hname : ByName keys content field)
    (hfield : field ∈ keys) (htype : field ≠ "type") :
    valuesOf keys field content = (entries.filter fun e => spells field e.1).map (·.2) := by
  have hcontent := (tagged_some htag).2
  have heq : content.filter (fun e => identify buffered id keys e.1 == some (some field)) =
      content.filter fun e => spells field e.1 := by
    apply List.filter_congr
    intro e he
    rw [Bool.eq_iff_iff, beq_iff_eq]
    exact ⟨hname e he, identify_spelled hfield⟩
  rw [valuesOf, heq, hcontent, List.filter_filter]
  congr 1
  apply List.filter_congr
  intro e _
  cases hspells : spells field e.1 with
  | false => rfl
  | true =>
    have : spells "type" e.1 = false := Bool.eq_false_iff.2 fun h => htype (spells_unique hspells h)
    simp [this]

/-- An entry that spells the field leaves no room for another that stands for it. -/
theorem byName_of_taken {field : String} {P : Value → Prop} (htag : tagged entries = some (tag, content))
    (hone : (valuesOf keys field content).length ≤ 1) (hfield : field ∈ keys) (htype : field ≠ "type")
    (htaken : Taken entries field P) : ByName keys content field := by
  intro e he hidentify
  obtain ⟨key, value, hfilter, -⟩ := htaken
  obtain ⟨hentry, hspells⟩ := List.mem_filter.1 (hfilter ▸ List.mem_singleton_self (key, value))
  have hcontent : (key, value) ∈ content := by
    rw [(tagged_some htag).2]
    refine List.mem_filter.2 ⟨hentry, ?_⟩
    simpa using fun h => htype (spells_unique hspells h)
  have hmem : ∀ e ∈ content, identify buffered id keys e.1 = some (some field) →
      e ∈ content.filter fun e => identify buffered id keys e.1 == some (some field) := by
    intro e he h
    exact List.mem_filter.2 ⟨he, beq_iff_eq.2 h⟩
  have hthis := hmem e he hidentify
  have hspelled := hmem _ hcontent (identify_spelled hfield hspells)
  rw [valuesOf, List.length_map] at hone
  generalize content.filter (fun e => identify buffered id keys e.1 == some (some field)) = given at hone hthis hspelled
  obtain ⟨only, rfl⟩ := List.length_eq_one_iff.1 (Nat.le_antisymm hone (List.length_pos_of_mem hthis))
  rw [List.mem_singleton.1 hthis, ← List.mem_singleton.1 hspelled]
  exact hspells

theorem required_some {read : Value → Option α} {values : List Value} {a : α} (h : required read values = some a) :
    ∃ value, values = [value] ∧ read value = some a := by
  simp only [required] at h
  split at h
  · exact ⟨_, rfl, h⟩
  · cases h

theorem taken_of_values {field : String} {P : Value → Prop} {value : Value}
    (hvalues : (entries.filter fun e => spells field e.1).map (·.2) = [value]) (hvalue : P value) :
    Taken entries field P := by
  obtain ⟨⟨key, v⟩, hfilter, rfl⟩ := List.map_eq_singleton_iff.1 hvalues
  exact ⟨key, v, hfilter, hvalue⟩

/-- A required field is taken from the entry of its name just when it is given by name. -/
theorem taken_iff {field : String} {read : Value → Option α} {a : α} {P : Value → Prop}
    (htag : tagged entries = some (tag, content)) (h : required read (valuesOf keys field content) = some a)
    (hP : ∀ v, read v = some a → P v) (hfield : field ∈ keys := by decide) (htype : field ≠ "type" := by decide) :
    Taken entries field P ↔ ByName keys content field := by
  obtain ⟨value, hvalues, hread⟩ := required_some h
  constructor
  · exact byName_of_taken htag (by rw [hvalues]; exact Nat.le_refl 1) hfield htype
  · intro hname
    rw [valuesOf_eq htag hname hfield htype] at hvalues
    exact taken_of_values hvalues (hP value hread)

theorem length_of_optionally {read : Value → Option α} {values : List Value} {a : Option α}
    (h : optionally read values = some a) : values.length ≤ 1 := by
  simp only [optionally] at h
  split at h
  · exact Nat.zero_le 1
  · exact Nat.le_refl 1
  · exact Nat.le_refl 1
  · cases h

/-- What no entry spells, and no key gives by position, no entry gives. -/
theorem not_identified {field : String} (htag : tagged entries = some (tag, content)) (hname : ByName keys content field)
    (hnone : (entries.filter fun e => spells field e.1) = []) (e : Value × Value) (he : e ∈ entries) :
    identify buffered id keys e.1 ≠ some (some field) := by
  intro hidentify
  have hnot := List.filter_eq_nil_iff.1 hnone e he
  by_cases hkey : spells "type" e.1 = true
  · -- the type's own entry was set aside, and spells another name
    rcases (identify_some hidentify).2 with hspells | hint
    · exact hnot hspells
    · rcases eq_utf8_of_spells hkey with hv | hv <;> rw [hv] at hint <;> cases hint
  · refine hnot (hname e ?_ hidentify)
    rw [(tagged_some htag).2]
    exact List.mem_filter.2 ⟨he, by simpa using hkey⟩

theorem takenOptional_iff {field : String} {text : Option String} (htag : tagged entries = some (tag, content))
    (h : optionally asString (valuesOf keys field content) = some text) (hfield : field ∈ keys := by decide)
    (htype : field ≠ "type" := by decide) :
    TakenOptional keys entries field text ↔ ByName keys content field := by
  constructor
  · intro htaken
    have hone := length_of_optionally h
    cases text with
    | some text => exact byName_of_taken htag hone hfield htype htaken
    | none =>
      rcases htaken with hnone | htaken
      · intro e he hidentify
        rw [(tagged_some htag).2] at he
        exact absurd hidentify (hnone e (List.mem_filter.1 he).1)
      · exact byName_of_taken htag hone hfield htype htaken
  · intro hname
    rw [valuesOf_eq htag hname hfield htype] at h
    simp only [optionally] at h
    split at h
    · cases h
      exact .inl (not_identified htag hname (List.map_eq_nil_iff.1 ‹_›))
    · cases h
      exact .inr (taken_of_values ‹_› rfl)
    · obtain ⟨s, hs, rfl⟩ := Option.map_eq_some_iff.1 h
      exact taken_of_values ‹_› hs
    · cases h

end

theorem asUnsigned_some {bits n : Nat} {v : Value} (h : asUnsigned bits v = some n) : ∃ form, v = .int form n := by
  simp only [asUnsigned] at h
  split at h
  · split at h
    · cases h
      exact ⟨_, rfl⟩
    · cases h
  · cases h

/-- What the visitor ends with it began with, or found under its name. -/
theorem readRoom_some {room : RoomId} : ∀ (members : Entries) (project task : Option String),
    readRoom members project task = some room →
      (project = some room.project ∨ ∃ e ∈ members, spells "project" e.1 ∧ asString e.2 = some room.project) ∧
      (task = some room.task ∨ ∃ e ∈ members, spells "task" e.1 ∧ asString e.2 = some room.task)
  | [], project, task, h => by
    simp only [readRoom, Option.bind_eq_bind, Option.bind_eq_some_iff, Option.some.injEq] at h
    obtain ⟨p, rfl, t, rfl, rfl⟩ := h
    exact ⟨.inl rfl, .inl rfl⟩
  | (key, value) :: rest, project, task, h => by
    have later : ∀ {name text : String}, (∃ e ∈ rest, spells name e.1 ∧ asString e.2 = some text) →
        ∃ e ∈ (key, value) :: rest, spells name e.1 ∧ asString e.2 = some text := by
      intro name text he
      obtain ⟨e, he, hspells⟩ := he
      exact ⟨e, List.mem_cons_of_mem _ he, hspells⟩
    simp only [readRoom, Option.bind_eq_bind, Option.bind_eq_some_iff] at h
    obtain ⟨name, hname, h⟩ := h
    split at h
    case isTrue hproject =>
      subst hproject
      obtain ⟨text, htext, h⟩ := Option.bind_eq_some_iff.1 h
      obtain ⟨hp, ht⟩ := readRoom_some rest _ _ h
      refine ⟨.inr ?_, ht.imp_right later⟩
      rcases hp with hp | hp
      · cases hp
        exact ⟨(key, value), List.mem_cons_self, spells_of_asString hname, htext⟩
      · exact later hp
    case isFalse =>
      split at h
      case isTrue htask =>
        subst htask
        obtain ⟨text, htext, h⟩ := Option.bind_eq_some_iff.1 h
        obtain ⟨hp, ht⟩ := readRoom_some rest _ _ h
        refine ⟨hp.imp_right later, .inr ?_⟩
        rcases ht with ht | ht
        · cases ht
          exact ⟨(key, value), List.mem_cons_self, spells_of_asString hname, htext⟩
        · exact later ht
      case isFalse =>
        obtain ⟨hp, ht⟩ := readRoom_some rest _ _ h
        exact ⟨hp.imp_right later, ht.imp_right later⟩

theorem asRoom_some {room : RoomId} {v : Value} (h : asRoom v = some room) : RoomTaken room v := by
  cases v with
  | map members =>
    obtain ⟨hp, ht⟩ := readRoom_some members none none h
    exact ⟨members, rfl, hp.resolve_left (Option.some_ne_none _).symm, ht.resolve_left (Option.some_ne_none _).symm⟩
  | _ => cases h

theorem structVariant_some {F : Type} {keys : List String} {content : Entries} {read : (String → List Value) → Option F}
    {frame : F} (h : structVariant keys content read = some frame) :
    read (fun name => valuesOf keys name content) = some frame := by
  simp only [structVariant] at h
  split at h
  · exact h
  · cases h

/-- A variant's reader makes a frame of that type, and takes its fields by name when they are given so. -/
theorem clientVariant_some {kind : ClientType} {entries content : Entries} {tag : Value} {frame : ClientFrame}
    (htag : tagged entries = some (tag, content)) (h : clientVariant kind content = some frame) :
    frame.kind = kind ∧ (FieldsTaken kind.keys entries frame ↔ ∀ field ∈ kind.keys, ByName kind.keys content field) := by
  unfold clientVariant at h
  cases kind with
  | hello =>
    have h := structVariant_some h
    simp only [Option.bind_eq_bind, Option.bind_eq_some_iff, Option.some.injEq] at h
    obtain ⟨protocol, hprotocol, room, hroom, peer, hpeer, rfl⟩ := h
    refine ⟨rfl, ?_⟩
    rw [FieldsTaken, taken_iff htag hprotocol fun _ => asUnsigned_some, taken_iff htag hroom fun _ => asRoom_some,
      taken_iff htag hpeer fun _ => id]
    simp [ClientType.keys]
  | list =>
    have h := structVariant_some h
    simp only [Option.bind_eq_bind, Option.bind_eq_some_iff, Option.some.injEq] at h
    obtain ⟨requestId, hrequestId, rfl⟩ := h
    refine ⟨rfl, ?_⟩
    rw [FieldsTaken, taken_iff htag hrequestId fun _ => id]
    simp [ClientType.keys]
  | send =>
    have h := structVariant_some h
    simp only [Option.bind_eq_bind, Option.bind_eq_some_iff, Option.some.injEq] at h
    obtain ⟨id, hid, target, htarget, body, hbody, replyTo, hreplyTo, attachment, hattachment, rfl⟩ := h
    refine ⟨rfl, ?_⟩
    rw [FieldsTaken, taken_iff htag hid fun _ h => h, taken_iff htag htarget fun _ h => h,
      taken_iff htag hbody fun _ h => h, takenOptional_iff htag hreplyTo, takenOptional_iff htag hattachment]
    simp [ClientType.keys]
  | announce =>
    have h := structVariant_some h
    simp only [Option.bind_eq_bind, Option.bind_eq_some_iff, Option.some.injEq] at h
    obtain ⟨id, hid, body, hbody, replyTo, hreplyTo, attachment, hattachment, rfl⟩ := h
    refine ⟨rfl, ?_⟩
    rw [FieldsTaken, taken_iff htag hid fun _ h => h, taken_iff htag hbody fun _ h => h,
      takenOptional_iff htag hreplyTo, takenOptional_iff htag hattachment]
    simp [ClientType.keys]
  | reserve =>
    have h := structVariant_some h
    simp only [Option.bind_eq_bind, Option.bind_eq_some_iff, Option.some.injEq] at h
    obtain ⟨requestId, hrequestId, digest, hdigest, bytes, hbytes, rfl⟩ := h
    refine ⟨rfl, ?_⟩
    rw [FieldsTaken, taken_iff htag hrequestId fun _ => id, taken_iff htag hdigest fun _ => id,
      taken_iff htag hbytes fun _ => asUnsigned_some]
    simp [ClientType.keys]
  | ping =>
    cases h
    simp [ClientFrame.kind, FieldsTaken, ClientType.keys]
  | unsupported =>
    cases h
    simp [ClientFrame.kind, FieldsTaken, ClientType.keys]

theorem decode_ok {F : Type} {frameOf : Value → Option F} {payload : Bytes} {frame : F}
    (h : decode frameOf payload = .ok frame) :
    ∃ value, Value.read payload.length payload = some (value, []) ∧ frameOf value = some frame := by
  simp only [decode] at h
  split at h
  · cases h
  split at h
  · cases h
  split at h
  · cases h
  rename_i value rest hread
  split at h
  · cases h
  split at h
  · cases h
  split at h
  · cases h
    subst rest
    exact ⟨value, hread, ‹_›⟩
  · cases h

theorem clientFrameOf_some {value : Value} {frame : ClientFrame} (h : clientFrameOf value = some frame) :
    ∃ entries tag content kind, value = .map entries ∧ tagged entries = some (tag, content) ∧
      identify direct ClientType.name ClientType.all tag = some kind ∧ clientVariant (kind.getD .unsupported) content = some frame := by
  cases value with
  | map entries =>
    simp only [clientFrameOf, Option.bind_eq_bind, Option.bind_eq_some_iff] at h
    obtain ⟨⟨tag, content⟩, htag, kind, hkind, hvariant⟩ := h
    exact ⟨entries, tag, content, kind, rfl, htag, hkind, hvariant⟩
  | _ => cases h

/-- Where the type is known, only positions make a payload indexed. -/
theorem indexed_eq {payload : Bytes} {entries content : Entries} {tag : Value} {kind : ClientType} {rest : Bytes}
    (hread : Value.read payload.length payload = some (.map entries, rest)) (htag : tagged entries = some (tag, content))
    (hkind : identify direct ClientType.name ClientType.all tag = some (some kind)) (hknown : kind ≠ .unsupported) :
    indexed payload = (isInt tag || content.any fun e => isIndex kind.keys e.1) := by
  cases kind with
  | unsupported => exact absurd rfl hknown
  | _ => simp only [indexed, hread, htag, hkind]

theorem namedMap_iff {payload : Bytes} {frame : ClientFrame} (hdecode : decode clientFrameOf payload = .ok frame)
    (hknown : frame ≠ .unsupported) : NamedMap payload frame ↔ indexed payload = false := by
  obtain ⟨value, hread, hframe⟩ := decode_ok hdecode
  obtain ⟨entries, tag, content, kind, rfl, htag, hkind, hvariant⟩ := clientFrameOf_some hframe
  obtain ⟨key, hkey⟩ := (tagged_some htag).1
  cases kind with
  | none => cases hvariant; exact absurd rfl hknown
  | some kind =>
    obtain ⟨hframeKind, hfields⟩ := clientVariant_some htag hvariant
    simp only [Option.getD_some] at hframeKind hfields
    subst hframeKind
    have hsupported : frame.kind ≠ .unsupported := by
      intro h
      cases frame with
      | unsupported => exact hknown rfl
      | _ => cases h
    rw [indexed_eq hread htag hkind hsupported, Bool.or_eq_false_iff, ← byName_iff, ← hfields]
    constructor
    · intro ⟨found, hfound, ⟨key', value, hfilter, hspells⟩, htaken⟩
      rw [hread] at hfound
      cases hfound
      rw [hkey] at hfilter
      cases hfilter
      refine ⟨?_, htaken⟩
      rcases eq_utf8_of_spells hspells with rfl | rfl <;> rfl
    · intro ⟨hint, htaken⟩
      rcases (identify_some hkind).2 with hspells | htrue
      · exact ⟨entries, hread, ⟨key, tag, hkey, hspells⟩, htaken⟩
      · rw [hint] at htrue
        cases htrue

/-- A payload that is read as a known frame names its type and its fields if and only if neither is
    given by its position. -/
theorem frames_are_named_maps (payload : Bytes) (frame : ClientFrame) (hdecode : decode clientFrameOf payload = .ok frame)
    (hknown : frame ≠ .unsupported) : NamedMap payload frame ↔ indexed payload = false :=
  namedMap_iff hdecode hknown

/-- The payload is `{"type": "list", "request_id": "r-1"}`. -/
theorem a_named_list_is_a_frame :
    NamedMap [0x82, 0xa4, 0x74, 0x79, 0x70, 0x65, 0xa4, 0x6c, 0x69, 0x73, 0x74, 0xaa, 0x72, 0x65, 0x71, 0x75, 0x65, 0x73,
      0x74, 0x5f, 0x69, 0x64, 0xa3, 0x72, 0x2d, 0x31] (.list "r-1") :=
  (frames_are_named_maps _ (.list "r-1") (by decide +kernel) (by decide)).mpr (by decide +kernel)

-- `{"type": "list", 0: "r-1"}` with the position as a `uint16`, and `{"type": 5}` with it signed, are no frames
example : decode clientFrameOf [0x82, 0xa4, 0x74, 0x79, 0x70, 0x65, 0xa4, 0x6c, 0x69, 0x73, 0x74, 0xcd, 0x00, 0x00, 0xa3, 0x72,
    0x2d, 0x31] = .error .decode := by decide +kernel

example : decode clientFrameOf [0x81, 0xa4, 0x74, 0x79, 0x70, 0x65, 0xd0, 0x05] = .error .decode := by decide +kernel

/-- The payloads are `{"type": 5}` and `{"type": "list", 0: "r-1"}`. -/
theorem a_frame_may_be_spelled_by_index :
    (decode clientFrameOf [0x81, 0xa4, 0x74, 0x79, 0x70, 0x65, 0x05] = .ok .ping ∧
      ¬ NamedMap [0x81, 0xa4, 0x74, 0x79, 0x70, 0x65, 0x05] .ping) ∧
    decode clientFrameOf [0x82, 0xa4, 0x74, 0x79, 0x70, 0x65, 0xa4, 0x6c, 0x69, 0x73, 0x74, 0x00, 0xa3, 0x72, 0x2d, 0x31] =
      .ok (.list "r-1") ∧
    ¬ NamedMap [0x82, 0xa4, 0x74, 0x79, 0x70, 0x65, 0xa4, 0x6c, 0x69, 0x73, 0x74, 0x00, 0xa3, 0x72, 0x2d, 0x31]
      (.list "r-1") := by
  have hnot : ∀ (payload : Bytes) (frame : ClientFrame), decode clientFrameOf payload = .ok frame → frame ≠ .unsupported →
      indexed payload = true → ¬ NamedMap payload frame := by
    intro payload frame hdecode hknown hindexed hnamed
    rw [(namedMap_iff hdecode hknown).mp hnamed] at hindexed
    cases hindexed
  have hping : decode clientFrameOf [0x81, 0xa4, 0x74, 0x79, 0x70, 0x65, 0x05] = .ok .ping := by decide +kernel
  have hlist : decode clientFrameOf [0x82, 0xa4, 0x74, 0x79, 0x70, 0x65, 0xa4, 0x6c, 0x69, 0x73, 0x74, 0x00, 0xa3, 0x72, 0x2d,
      0x31] = .ok (.list "r-1") := by decide +kernel
  exact ⟨⟨hping, hnot _ _ hping (by decide) (by decide +kernel)⟩, hlist, hnot _ _ hlist (by decide) (by decide +kernel)⟩

end Decode

end OmpRelayd
