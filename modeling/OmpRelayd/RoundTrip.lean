/-
  OmpRelayd.RoundTrip — what is encoded is decoded (server/src/protocol.rs: `encode`, `decode`).

  Fields are found by name, so what a frame's map says does not depend on the order of its
  entries, nor on entries of other names, nor on whether an absent field is left out or nil.
  `Carries` is what a variant's reader is owed of the entries beside the type: the frame's own
  fields, each once, and no other value for those that are absent. Every map that extends a
  frame's is of that kind (`carries_of_perm`), and of that every reader makes the frame
  (`clientVariant_carries`, `serverVariant_carries`).

  A frame's numbers are of the width its type gives them, and its texts are short enough for the
  format to say their length.

  Proved (`frames_round_trip`): every frame is decoded from its encoding, which has no key for an
  absent field; from its map with other fields added, in any order; and from nothing longer.
-/

import OmpRelayd.Decode

namespace OmpRelayd

open MsgPack

/-! ## Frames written -/

def RoomId.value (room : RoomId) : Value := named [("project", .text room.project), ("task", .text room.task)]

namespace ClientFrame

def fields : ClientFrame → Fields
  | .hello protocol room peer => [("protocol", .nat (u32 protocol)), ("room", room.value), ("peer", .text peer)]
  | .list requestId => [("request_id", .text requestId)]
  | .send id target body replyTo attachment =>
    [("id", .text id), ("to", .text target), ("body", .text body)] ++ optional "reply_to" replyTo ++
      optional "attachment" attachment
  | .announce id body replyTo attachment =>
    [("id", .text id), ("body", .text body)] ++ optional "reply_to" replyTo ++ optional "attachment" attachment
  | .reserve requestId digest bytes =>
    [("request_id", .text requestId), ("digest", .text digest), ("bytes", .nat (u64 bytes))]
  | .ping => []
  | .unsupported => []

def value (frame : ClientFrame) : Value := named (("type", .text frame.kind.name) :: frame.fields)

end ClientFrame

/-! ## What a frame is -/

/-- The name of a field that is `None`. -/
def absentName {α : Type} (name : String) (value : Option α) : List String := if value.isNone then [name] else []

def ClientFrame.absent : ClientFrame → List String
  | .send _ _ _ replyTo attachment => absentName "reply_to" replyTo ++ absentName "attachment" attachment
  | .announce _ _ replyTo attachment => absentName "reply_to" replyTo ++ absentName "attachment" attachment
  | _ => []

def ServerFrame.absent : ServerFrame → List String
  | .message _ _ _ replyTo attachment => absentName "reply_to" replyTo ++ absentName "attachment" attachment
  | .notice _ _ _ replyTo attachment => absentName "reply_to" replyTo ++ absentName "attachment" attachment
  | .reserved _ _ expiresIn => absentName "expires_in" expiresIn
  | .error _ detail requestId => absentName "message" detail ++ absentName "request_id" requestId
  | _ => []

/-- The numbers are a `u32` and a `u64`. -/
def ClientFrame.Typed : ClientFrame → Prop
  | .hello protocol _ _ => protocol < 2 ^ 32
  | .reserve _ _ bytes => bytes < 2 ^ 64
  | _ => True

def ServerFrame.Typed : ServerFrame → Prop
  | .ready protocol => protocol < 2 ^ 32
  | .accepted _ delivered shed => delivered < 2 ^ 32 ∧ shed < 2 ^ 32
  | .reserved _ _ expiresIn => ∀ n ∈ expiresIn, n < 2 ^ 64
  | _ => True

namespace Decode

/-- What may be added to a frame's map: other fields, and nil for an absent one. -/
structure Additions (keys absent : List String) (extra : Fields) : Prop where
  distinct : (extra.map (·.1)).Nodup
  harmless : ∀ e ∈ extra, (e.1 ∉ "type" :: keys ∧ e.2.isScalar) ∨ (e.1 ∈ absent ∧ e.2 = .nil)

/-- A frame of this type and with these fields, and no value for the absent ones. -/
structure RoundTrips {F : Type} (frameOf : Value → Option F) (frame : F) (type : String) (keys : List String)
    (fields : Fields) (absent : List String) : Prop where
  decoded : decode frameOf (named (("type", .text type) :: fields)).encode = .ok frame
  leftOut : ∀ name ∈ absent, name ∉ fields.map (·.1)
  extended : ∀ extra entries, Additions keys absent extra → entries.Perm (("type", .text type) :: (fields ++ extra)) →
    (named entries).Fits → decode frameOf (named entries).encode = .ok frame
  trailing : ∀ rest, rest ≠ [] → decode frameOf ((named (("type", .text type) :: fields)).encode ++ rest) =
    .error (.trailingBytes (named (("type", .text type) :: fields)).encode.length
      ((named (("type", .text type) :: fields)).encode.length + rest.length))

/-! ## Payloads -/

theorem isMapMarker_fixed : ∀ n < 0x10, isMapMarker (UInt8.ofNat (0x80 + n)) = true := by decide

theorem encode_map (entries : Entries) :
    ∃ marker rest, (Value.map entries).encode = marker :: rest ∧ isMapMarker marker = true := by
  simp only [Value.encode, Value.head, Head.encode]
  split
  · exact ⟨_, _, rfl, isMapMarker_fixed _ ‹_›⟩
  split
  · exact ⟨_, _, rfl, rfl⟩
  · exact ⟨_, _, rfl, rfl⟩

/-- A map that is a frame is decoded if nothing follows it. -/
theorem decode_encode_append {F : Type} {frameOf : Value → Option F} {frame : F} {entries : Entries}
    (hfits : (Value.map entries).Fits) (hdepth : (Value.map entries).nesting < depthLimit)
    (hframe : frameOf (.map entries) = some frame) (rest : Bytes) :
    decode frameOf ((Value.map entries).encode ++ rest) =
      if rest = [] then .ok frame
      else .error (.trailingBytes (Value.map entries).encode.length ((Value.map entries).encode.length + rest.length)) := by
  have hread := (Value.map entries).read_encode hfits ((Value.map entries).encode ++ rest).length (by simp) rest
  obtain ⟨marker, tail, hencode, hmarker⟩ := encode_map entries
  simp only [decode, hencode, List.cons_append, hmarker, Bool.not_true, Bool.false_eq_true, if_false] at hread ⊢
  simp only [hread, if_neg (Nat.not_le.2 hdepth), hframe]
  split
  · rfl
  · simp only [List.length_cons, List.length_append]
    congr 2 <;> omega

theorem nesting_named_le {fields : Fields} {n : Nat} (h : ∀ f ∈ fields, f.2.nesting ≤ n) :
    (named fields).nesting ≤ n + 1 := by
  simp only [named, Value.nesting]
  induction fields with
  | nil => simp [entriesNesting]
  | cons f rest ih =>
    have hf := h f List.mem_cons_self
    have hrest := ih fun g hg => h g (List.mem_cons_of_mem f hg)
    have hkey : (Value.text f.1).nesting = 0 := rfl
    simp only [List.map_cons, entriesNesting, hkey]
    omega

/-! ## Fields by name -/

section
variable {keys absent : List String} {fields extra : Fields} {name type : String}

def keyed (f : String × Value) : Value × Value := (.text f.1, f.2)

theorem spells_text (name other : String) : spells name (.text other) = (other == name) := by
  rw [Bool.eq_iff_iff, beq_iff_eq]
  constructor
  · intro h
    exact utf8_injective (eq_of_beq h)
  · intro h
    subst h
    exact beq_self_eq_true (utf8 other)

theorem identify_text (hname : name ∈ keys) (other : String) :
    (identify buffered id keys (.text other) == some (some name)) = (other == name) := by
  rw [← spells_text, Bool.eq_iff_iff, beq_iff_eq]
  exact ⟨fun h => (identify_some h).2.resolve_right (by intro hint; cases hint), identify_spelled hname⟩

theorem valuesOf_named (hname : name ∈ keys) (fields : Fields) :
    valuesOf keys name (fields.map keyed) = (fields.filter fun f => f.1 == name).map (·.2) := by
  simp only [valuesOf, List.filter_map, List.map_map]
  congr 1
  exact List.filter_congr fun f _ => identify_text hname f.1

theorem filter_name_of_notMem (h : name ∉ fields.map (·.1)) : (fields.filter fun f => f.1 == name) = [] := by
  rw [List.filter_eq_nil_iff]
  intro f hf heq
  exact h (List.mem_map.2 ⟨f, hf, eq_of_beq heq⟩)

theorem filter_name {v : Value} (hnodup : (fields.map (·.1)).Nodup) (h : (name, v) ∈ fields) :
    (fields.filter fun f => f.1 == name) = [(name, v)] := by
  induction fields with
  | nil => exact absurd h (List.not_mem_nil)
  | cons f rest ih =>
    obtain ⟨hf, hrest⟩ := List.nodup_cons.1 hnodup
    rcases List.mem_cons.1 h with rfl | h
    · rw [List.filter_cons_of_pos (by simp), filter_name_of_notMem hf]
    · have hne : f.1 ≠ name := by
        intro heq
        exact hf (List.mem_map.2 ⟨(name, v), h, heq.symm⟩)
      rw [List.filter_cons_of_neg (by simpa using hne), ih hrest h]

/-- What the entries beside the type must be for a reader to make a frame of these fields. -/
structure Carries (keys : List String) (fields : Fields) (absent : List String) (content : Entries) : Prop where
  identified : content.all (fun e => (identify buffered id keys e.1).isSome) = true
  given : ∀ name v, (name, v) ∈ fields → valuesOf keys name content = [v]
  absent : ∀ name ∈ absent, valuesOf keys name content = [] ∨ valuesOf keys name content = [.nil]

/-- A frame's fields are some of those of its type, in their order; the absent ones are others. -/
structure Laid (keys : List String) (fields : Fields) (absent : List String) : Prop where
  ordered : (fields.map (·.1)).Sublist keys
  absent_known : ∀ name ∈ absent, name ∈ keys
  absent_out : ∀ name ∈ absent, name ∉ fields.map (·.1)

theorem Laid.of_names (h : ((fields.map (·.1)).isSublist keys &&
    absent.all fun name => keys.contains name && !(fields.map (·.1)).contains name) = true) : Laid keys fields absent := by
  simp only [Bool.and_eq_true, List.all_eq_true, Bool.not_eq_true', List.contains_eq_mem, decide_eq_true_eq,
    decide_eq_false_iff_not, List.isSublist_iff_sublist] at h
  exact ⟨h.1, fun name hname => (h.2 name hname).1, fun name hname => (h.2 name hname).2⟩

theorem Additions.notMem_of_known (h : Additions keys absent extra) (hname : name ∈ keys) (habsent : name ∉ absent) :
    name ∉ extra.map (·.1) := by
  intro hmem
  obtain ⟨e, he, rfl⟩ := List.mem_map.1 hmem
  rcases h.harmless e he with ⟨hunknown, -⟩ | ⟨hin, -⟩
  · exact hunknown (List.mem_cons_of_mem _ hname)
  · exact habsent hin

theorem carries_of_perm {content : Entries} (hkeys : keys.Nodup) (hlaid : Laid keys fields absent)
    (hextra : Additions keys absent extra) (hperm : content.Perm ((fields ++ extra).map keyed)) :
    Carries keys fields absent content := by
  have hvalues : ∀ name ∈ keys, (valuesOf keys name content).Perm
      (((fields ++ extra).filter fun f => f.1 == name).map (·.2)) := by
    intro name hname
    rw [← valuesOf_named hname]
    exact (hperm.filter _).map _
  refine ⟨?_, ?_, ?_⟩
  · rw [List.all_eq_true]
    intro e he
    obtain ⟨f, -, rfl⟩ := List.mem_map.1 (hperm.subset he)
    rfl
  · intro name v hv
    have hmem : name ∈ fields.map (·.1) := List.mem_map.2 ⟨_, hv, rfl⟩
    have hknown := hlaid.ordered.subset hmem
    have hout := hextra.notMem_of_known hknown fun h => hlaid.absent_out name h hmem
    have := hvalues name hknown
    rw [List.filter_append, filter_name (hlaid.ordered.nodup hkeys) hv, filter_name_of_notMem hout] at this
    exact List.perm_singleton.1 this
  · intro name hname
    have hknown := hlaid.absent_known name hname
    have := hvalues name hknown
    rw [List.filter_append, filter_name_of_notMem (hlaid.absent_out name hname), List.nil_append] at this
    by_cases hmem : name ∈ extra.map (·.1)
    · obtain ⟨⟨_, v⟩, he, rfl⟩ := List.mem_map.1 hmem
      rcases hextra.harmless _ he with ⟨hunknown, -⟩ | ⟨-, rfl⟩
      · exact absurd (List.mem_cons_of_mem _ hknown) hunknown
      · rw [filter_name hextra.distinct he] at this
        exact .inr (List.perm_singleton.1 this)
    · rw [filter_name_of_notMem hmem] at this
      exact .inl (List.perm_nil.1 this)

/-- The type is set aside, wherever it stands. -/
theorem tagged_of_perm {entries others : Fields} {tag : Value} (hothers : "type" ∉ others.map (·.1))
    (hperm : entries.Perm (("type", tag) :: others)) :
    ∃ content, tagged (entries.map keyed) = some (tag, content) ∧ content.Perm (others.map keyed) := by
  have htype : ((("type", tag) :: others).map keyed).filter (fun e => spells "type" e.1) = [(.text "type", tag)] := by
    have hnone := filter_name_of_notMem hothers
    simp only [List.filter_map, Function.comp_def, keyed, spells_text] at hnone ⊢
    rw [List.filter_cons_of_pos (by rfl), hnone]
    rfl
  have hrest : ((("type", tag) :: others).map keyed).filter (fun e => !spells "type" e.1) = others.map keyed := by
    simp only [List.filter_map, Function.comp_def, keyed, spells_text]
    rw [List.filter_cons_of_neg (by simp)]
    congr 1
    rw [List.filter_eq_self]
    intro f hf
    simpa using fun heq => hothers (List.mem_map.2 ⟨f, hf, heq⟩)
  have hp := hperm.map keyed
  have hone := hp.filter fun e => spells "type" e.1
  rw [htype] at hone
  refine ⟨(entries.map keyed).filter fun e => !spells "type" e.1, ?_, hrest ▸ hp.filter _⟩
  simp only [tagged, List.perm_singleton.1 hone]

theorem Additions.nil : Additions keys absent [] := ⟨List.nodup_nil, List.forall_mem_nil _⟩

/-- A frame round trips if its reader makes it of whatever carries its fields. -/
theorem RoundTrips.of_carries {F : Type} {frameOf : Value → Option F} {frame : F} (hkeys : keys.Nodup)
    (htype : "type" ∉ keys) (hlaid : Laid keys fields absent) (hshallow : ∀ f ∈ fields, f.2.nesting ≤ 1)
    (hfits : (named (("type", .text type) :: fields)).Fits)
    (hread : ∀ entries content, tagged entries = some (.text type, content) → Carries keys fields absent content →
      frameOf (.map entries) = some frame) : RoundTrips frameOf frame type keys fields absent := by
  have hframe : ∀ extra entries, Additions keys absent extra →
      entries.Perm (("type", .text type) :: (fields ++ extra)) → (named entries).nesting < depthLimit ∧
        frameOf (.map (entries.map keyed)) = some frame := by
    intro extra entries hextra hperm
    have hothers : "type" ∉ (fields ++ extra).map (·.1) := by
      rw [List.map_append, List.mem_append]
      rintro (h | h)
      · exact htype (hlaid.ordered.subset h)
      · obtain ⟨e, he, heq⟩ := List.mem_map.1 h
        rcases hextra.harmless e he with ⟨hunknown, -⟩ | ⟨hin, -⟩
        · exact hunknown (heq ▸ List.mem_cons_self)
        · exact htype (heq ▸ hlaid.absent_known _ hin)
    obtain ⟨content, htagged, hcontent⟩ := tagged_of_perm hothers hperm
    refine ⟨?_, hread _ content htagged (carries_of_perm hkeys hlaid hextra hcontent)⟩
    refine Nat.lt_of_le_of_lt (nesting_named_le (n := 1) ?_) (by decide)
    intro f hf
    rcases List.mem_cons.1 (hperm.subset hf) with rfl | hf
    · exact Nat.zero_le 1
    rcases List.mem_append.1 hf with hf | hf
    · exact hshallow f hf
    · rcases hextra.harmless f hf with ⟨-, hscalar⟩ | ⟨-, hnil⟩
      · rw [Value.nesting_of_isScalar hscalar]; exact Nat.zero_le 1
      · rw [hnil]; exact Nat.zero_le 1
  have hself := hframe [] (("type", .text type) :: fields) Additions.nil (by rw [List.append_nil])
  have hdecode := decode_encode_append hfits hself.1 hself.2
  refine ⟨?_, hlaid.absent_out, ?_, ?_⟩
  · have := hdecode []
    rwa [List.append_nil, if_pos rfl] at this
  · intro extra entries hextra hperm hfits
    obtain ⟨hdepth, hframe⟩ := hframe extra entries hextra hperm
    have := decode_encode_append hfits hdepth hframe []
    rwa [List.append_nil, if_pos rfl] at this
  · intro rest hrest
    exact (hdecode rest).trans (if_neg hrest)

end

/-! ## Readers -/

section
variable {α : Type} {keys absent : List String} {fields : Fields} {content : Entries} {name : String}

theorem Carries.structVariant {F : Type} (h : Carries keys fields absent content)
    (read : (String → List Value) → Option F) :
    structVariant keys content read = read fun name => valuesOf keys name content := by
  rw [Decode.structVariant, if_pos h.identified]

theorem Carries.required {read : Value → Option α} {v : Value} {a : α} (h : Carries keys fields absent content)
    (hv : (name, v) ∈ fields) (hread : read v = some a) : required read (valuesOf keys name content) = some a := by
  rw [h.given name v hv]
  exact hread

theorem Carries.optionally {read : Value → Option α} {value : Option α} (h : Carries keys fields absent content)
    (write : α → Value) (hfields : ∀ a ∈ value, (name, write a) ∈ fields)
    (habsent : value = none → name ∈ absent) (hnil : ∀ a, write a ≠ .nil) (hread : ∀ a ∈ value, read (write a) = some a) :
    optionally read (valuesOf keys name content) = some value := by
  cases value with
  | none =>
    rcases h.absent name (habsent rfl) with heq | heq
    · rw [heq]; rfl
    · rw [heq]; rfl
  | some a =>
    rw [h.given name (write a) (hfields a rfl)]
    have hne := hnil a
    have hsome := hread a rfl
    cases hwrite : write a with
    | nil => exact absurd hwrite hne
    | _ => rw [hwrite] at hsome; simp only [Decode.optionally, hsome, Option.map_some]

end

@[simp] theorem asString_text (s : String) : asString (.text s) = some s := ofUtf8_utf8 s

theorem asUnsigned_nat {bits n : Nat} (h : n < 2 ^ bits) : asUnsigned bits (.nat n) = some n := if_pos h

theorem asRoom_value (room : RoomId) : asRoom room.value = some room := by
  simp [asRoom, RoomId.value, named, readRoom]

theorem asStrings_texts (texts : List String) : asStrings (.array (texts.map .text)) = some texts := by
  simp only [asStrings]
  induction texts with
  | nil => rfl
  | cons s rest ih => simp only [List.map_cons, List.mapM_cons, asString_text, ih, Option.bind_eq_bind, Option.bind_some,
      Option.pure_def]

theorem mem_optional {name : String} {value : Option String} : ∀ s ∈ value, (name, Value.text s) ∈ optional name value := by
  intro s hs
  rw [Option.mem_def.1 hs]
  exact List.mem_singleton_self _

theorem mem_absentName {α : Type} {name : String} {value : Option α} (h : value = none) : name ∈ absentName name value := by
  subst h
  exact List.mem_singleton_self _

section
variable {keys absent : List String} {fields : Fields} {content : Entries}

theorem Carries.text (h : Carries keys fields absent content) (name s : String)
    (hv : (name, .text s) ∈ fields) :
    Decode.required asString (valuesOf keys name content) = some s :=
  h.required hv (asString_text s)

theorem Carries.unsigned {bits n : Nat} (h : Carries keys fields absent content) (name : String)
    (hv : (name, .nat (n % 2 ^ bits)) ∈ fields) (hn : n < 2 ^ bits) :
    Decode.required (asUnsigned bits) (valuesOf keys name content) = some n := by
  rw [Nat.mod_eq_of_lt hn] at hv
  exact h.required hv (asUnsigned_nat hn)

theorem Carries.optionalText (h : Carries keys fields absent content) (name : String) (value : Option String)
    (hfields : optional name value ⊆ fields) (habsent : absentName name value ⊆ absent) :
    Decode.optionally asString (valuesOf keys name content) = some value :=
  h.optionally .text (fun s hs => hfields (mem_optional s hs)) (fun hnone => habsent (mem_absentName hnone))
    (fun s hs => by cases hs) (fun s _ => asString_text s)

end

theorem asVariant_receiptStatus (status : ReceiptStatus) :
    asVariant ReceiptStatus.asStr ReceiptStatus.all (.text status.asStr) = some status :=
  find_named (by cases status <;> decide) (by cases status <;> decide)

theorem asVariant_reserveStatus (status : ReserveStatus) :
    asVariant ReserveStatus.asStr ReserveStatus.all (.text status.asStr) = some status :=
  find_named (by cases status <;> decide) (by cases status <;> decide)

theorem asVariant_errorCode (code : ErrorCode) : asVariant ErrorCode.asStr ErrorCode.all (.text code.asStr) = some code :=
  find_named (by cases code <;> decide) (by cases code <;> decide)

/-! ## Frames -/

theorem ClientType.keys_nodup (kind : ClientType) : kind.keys.Nodup := by cases kind <;> decide

theorem ClientType.type_notMem_keys (kind : ClientType) : "type" ∉ kind.keys := by cases kind <;> decide

theorem ClientType.identify_name (kind : ClientType) :
    identify direct ClientType.name ClientType.all (.text kind.name) = some (some kind) :=
  congrArg some (find_named (by cases kind <;> decide) (by cases kind <;> decide))

theorem ClientFrame.laid (frame : ClientFrame) : Laid frame.kind.keys frame.fields frame.absent := by
  cases frame with
  | send id target body replyTo attachment => cases replyTo <;> cases attachment <;> exact .of_names rfl
  | announce id body replyTo attachment => cases replyTo <;> cases attachment <;> exact .of_names rfl
  | _ => exact .of_names rfl

theorem ClientFrame.shallow (frame : ClientFrame) : ∀ f ∈ frame.fields, f.2.nesting ≤ 1 := by
  have hroom : ∀ room : RoomId, room.value.nesting ≤ 1 := fun room => nesting_named_le (by simp [Value.text, Value.nesting])
  cases frame <;>
    simp only [ClientFrame.fields, List.forall_mem_append, List.forall_mem_cons, forall_mem_optional] <;>
    simp [Value.text, Value.nat, Value.nesting, hroom]

theorem clientVariant_carries {frame : ClientFrame} {content : Entries} (htyped : frame.Typed)
    (h : Carries frame.kind.keys frame.fields frame.absent content) :
    clientVariant frame.kind content = some frame := by
  cases frame with
  | hello protocol room peer =>
    simp only [ClientFrame.kind, clientVariant] at h ⊢
    rw [h.structVariant, h.unsigned "protocol" (by simp [ClientFrame.fields, u32]) htyped,
      h.required (by simp [ClientFrame.fields]) (asRoom_value room), h.text "peer" peer (by simp [ClientFrame.fields])]
    rfl
  | list requestId =>
    simp only [ClientFrame.kind, clientVariant] at h ⊢
    rw [h.structVariant, h.text "request_id" requestId (by simp [ClientFrame.fields])]
    rfl
  | send id target body replyTo attachment =>
    simp only [ClientFrame.kind, clientVariant] at h ⊢
    rw [h.structVariant, h.text "id" id (by simp [ClientFrame.fields]), h.text "to" target (by simp [ClientFrame.fields]),
      h.text "body" body (by simp [ClientFrame.fields]),
      h.optionalText "reply_to" replyTo (List.subset_append_of_subset_left _ (List.subset_append_right _ _))
        (by simp [ClientFrame.absent]),
      h.optionalText "attachment" attachment (List.subset_append_right _ _) (by simp [ClientFrame.absent])]
    rfl
  | announce id body replyTo attachment =>
    simp only [ClientFrame.kind, clientVariant] at h ⊢
    rw [h.structVariant, h.text "id" id (by simp [ClientFrame.fields]), h.text "body" body (by simp [ClientFrame.fields]),
      h.optionalText "reply_to" replyTo (List.subset_append_of_subset_left _ (List.subset_append_right _ _))
        (by simp [ClientFrame.absent]),
      h.optionalText "attachment" attachment (List.subset_append_right _ _) (by simp [ClientFrame.absent])]
    rfl
  | reserve requestId digest bytes =>
    simp only [ClientFrame.kind, clientVariant] at h ⊢
    rw [h.structVariant, h.text "request_id" requestId (by simp [ClientFrame.fields]),
      h.text "digest" digest (by simp [ClientFrame.fields]), h.unsigned "bytes" (by simp [ClientFrame.fields, u64]) htyped]
    rfl
  | ping => rfl
  | unsupported => rfl

theorem ServerType.keys_nodup (kind : ServerType) : kind.keys.Nodup := by cases kind <;> decide

theorem ServerType.type_notMem_keys (kind : ServerType) : "type" ∉ kind.keys := by cases kind <;> decide

theorem ServerType.identify_name (kind : ServerType) :
    identify direct ServerType.name ServerType.all (.text kind.name) = some (some kind) :=
  congrArg some (find_named (by cases kind <;> decide) (by cases kind <;> decide))

theorem ServerFrame.typeName_eq (frame : ServerFrame) : frame.typeName = frame.kind.name := by cases frame <;> rfl

theorem ServerFrame.laid (frame : ServerFrame) : Laid frame.kind.keys frame.fields frame.absent := by
  cases frame with
  | message id sender body replyTo attachment => cases replyTo <;> cases attachment <;> exact .of_names rfl
  | notice id sender body replyTo attachment => cases replyTo <;> cases attachment <;> exact .of_names rfl
  | reserved requestId status expiresIn => cases expiresIn <;> exact .of_names rfl
  | error code detail requestId => cases detail <;> cases requestId <;> exact .of_names rfl
  | _ => exact .of_names rfl

theorem itemsNesting_texts (texts : List String) : itemsNesting (texts.map .text) = 0 := by
  induction texts with
  | nil => rfl
  | cons s rest ih =>
    have hs : (Value.text s).nesting = 0 := rfl
    simp [itemsNesting, ih, hs]

theorem ServerFrame.shallow (frame : ServerFrame) : ∀ f ∈ frame.fields, f.2.nesting ≤ 1 := by
  cases frame with
  | reserved requestId status expiresIn => cases expiresIn <;> simp [ServerFrame.fields, Value.text, Value.nat, Value.nesting]
  | _ =>
    simp only [ServerFrame.fields, ServerFrame.deliveryFields, List.forall_mem_append, List.forall_mem_cons,
      forall_mem_optional]
    simp [Value.text, Value.nat, Value.nesting, itemsNesting_texts]

theorem delivery_carries {keys : List String} {content : Entries}
    (make : String → String → String → Option String → Option String → ServerFrame) {id sender body : String}
    {replyTo attachment : Option String}
    (h : Carries keys (ServerFrame.deliveryFields id sender body replyTo attachment)
      (absentName "reply_to" replyTo ++ absentName "attachment" attachment) content) :
    delivery make (fun name => valuesOf keys name content) = some (make id sender body replyTo attachment) := by
  simp only [delivery]
  rw [h.text "id" id (by simp [ServerFrame.deliveryFields]), h.text "from" sender (by simp [ServerFrame.deliveryFields]),
    h.text "body" body (by simp [ServerFrame.deliveryFields]),
    h.optionalText "reply_to" replyTo (List.subset_append_of_subset_left _ (List.subset_append_right _ _))
        (by simp),
    h.optionalText "attachment" attachment (List.subset_append_right _ _) (by simp)]
  rfl

theorem serverVariant_carries {frame : ServerFrame} {content : Entries} (htyped : frame.Typed)
    (h : Carries frame.kind.keys frame.fields frame.absent content) :
    serverVariant frame.kind content = some frame := by
  cases frame with
  | ready protocol =>
    simp only [ServerFrame.kind, serverVariant] at h ⊢
    rw [h.structVariant, h.unsigned "protocol" (by simp [ServerFrame.fields, u32]) htyped]
    rfl
  | peers requestId roster =>
    simp only [ServerFrame.kind, serverVariant] at h ⊢
    rw [h.structVariant, h.text "request_id" requestId (by simp [ServerFrame.fields]),
      h.required (by simp [ServerFrame.fields]) (asStrings_texts roster)]
    rfl
  | message id sender body replyTo attachment | notice id sender body replyTo attachment =>
    simp only [ServerFrame.kind, serverVariant] at h ⊢
    rw [h.structVariant, delivery_carries _ h]
  | receipt id target status =>
    simp only [ServerFrame.kind, serverVariant] at h ⊢
    rw [h.structVariant, h.text "id" id (by simp [ServerFrame.fields]), h.text "to" target (by simp [ServerFrame.fields]),
      h.required (by simp [ServerFrame.fields]) (asVariant_receiptStatus status)]
    rfl
  | accepted id delivered shed =>
    simp only [ServerFrame.kind, serverVariant] at h ⊢
    rw [h.structVariant, h.text "id" id (by simp [ServerFrame.fields]),
      h.unsigned "delivered" (by simp [ServerFrame.fields, u32]) htyped.1,
      h.unsigned "shed" (by simp [ServerFrame.fields, u32]) htyped.2]
    rfl
  | reserved requestId status expiresIn =>
    simp only [ServerFrame.kind, serverVariant] at h ⊢
    have hexpires : Decode.optionally (asUnsigned 64) (valuesOf ServerType.reserved.keys "expires_in" content) =
        some expiresIn := by
      refine h.optionally (fun n => .nat (u64 n)) ?_ (fun hnone => mem_absentName hnone) ?_ ?_
      · intro n hn
        rw [Option.mem_def.1 hn]
        simp [ServerFrame.fields]
      · intro n heq
        cases heq
      · intro n hn
        have hn := htyped n hn
        rw [u64, Nat.mod_eq_of_lt hn]
        exact asUnsigned_nat hn
    rw [h.structVariant, h.text "request_id" requestId (by simp [ServerFrame.fields]),
      h.required (by simp [ServerFrame.fields]) (asVariant_reserveStatus status), hexpires]
    rfl
  | pong => rfl
  | error code detail requestId =>
    simp only [ServerFrame.kind, serverVariant] at h ⊢
    rw [h.structVariant, h.required (by simp [ServerFrame.fields]) (asVariant_errorCode code),
      h.optionalText "message" detail (List.subset_append_of_subset_left _ (List.subset_append_right _ _))
        (by simp [ServerFrame.absent]),
      h.optionalText "request_id" requestId (List.subset_append_right _ _) (by simp [ServerFrame.absent])]
    rfl

theorem frames_round_trip :
    (∀ frame : ClientFrame, frame.Typed → frame.value.Fits →
      RoundTrips clientFrameOf frame frame.kind.name frame.kind.keys frame.fields frame.absent) ∧
    ∀ frame : ServerFrame, frame.Typed → frame.value.Fits →
      RoundTrips serverFrameOf frame frame.typeName frame.kind.keys frame.fields frame.absent := by
  constructor
  · intro frame htyped hfits
    refine .of_carries (ClientType.keys_nodup _) (ClientType.type_notMem_keys _) (ClientFrame.laid frame)
      (ClientFrame.shallow frame) hfits ?_
    intro entries content htag hcarries
    simp only [clientFrameOf, htag, ClientType.identify_name, Option.bind_eq_bind, Option.bind_some, Option.getD_some]
    exact clientVariant_carries htyped hcarries
  · intro frame htyped hfits
    refine .of_carries (ServerType.keys_nodup _) (ServerType.type_notMem_keys _) (ServerFrame.laid frame)
      (ServerFrame.shallow frame) hfits ?_
    intro entries content htag hcarries
    rw [ServerFrame.typeName_eq] at htag
    simp only [serverFrameOf, htag, ServerType.identify_name, Option.bind_eq_bind, Option.bind_some, Option.join_some]
    exact serverVariant_carries htyped hcarries

/-- A listing, its fields the other way round, beside one that no relay knows. -/
theorem an_extended_list_is_read :
    decode clientFrameOf (named [("since", .bool true), ("request_id", .text "r-1"), ("type", .text "list")]).encode =
      .ok (.list "r-1") := by
  have hperm : [("since", Value.bool true), ("request_id", .text "r-1"), ("type", .text "list")].Perm
      (("type", .text "list") :: ([("request_id", .text "r-1")] ++ [("since", .bool true)])) :=
    List.reverse_perm [("type", Value.text "list"), ("request_id", Value.text "r-1"), ("since", Value.bool true)]
  refine (frames_round_trip.1 (.list "r-1") trivial ?_).extended [("since", .bool true)] _ ⟨?_, ?_⟩ hperm ?_
  · simp [ClientFrame.value, ClientFrame.kind, ClientFrame.fields, named, Value.Fits, EntriesFit, Value.text]
    decide
  · decide
  · simp [ClientFrame.kind, ClientType.keys, Value.isScalar]
  · simp [named, Value.Fits, EntriesFit, Value.text]
    decide

end Decode

end OmpRelayd
