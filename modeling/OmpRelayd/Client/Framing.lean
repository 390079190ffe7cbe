/-
  OmpRelayd.Client.Framing — frames out of a byte stream (extension/src/protocol.ts:
  `FrameAccumulator`, `concat`).

  `push` joins a chunk to what it held back and walks an offset over the two, one frame at a
  time, until the next frame is incomplete or its framing is wrong; a wrong one is remembered
  and nothing after it is looked at. `Received` is what the owner of an accumulator has got out
  of it, with the place in the stream its last push stopped at.

  What the walk decides is decided by the front of what it has not walked yet (`nextFrame`), and
  more bytes do not change it: the walk is a scan (`extract_scan`), so pushing is feeding a scan
  (`push_feed`). Proved (`reassembly_ignores_chunking`): any two ways of cutting a stream come to
  the same values, the same failure and the same place; after a failure nothing comes any more;
  what `encodeFrame` wrote comes back; and what is held back is less than one full frame.
-/

import OmpRelayd.Client.Codec
import OmpRelayd.Lib.Scan

namespace OmpRelayd.Client

inductive FramingFailureReason where
  | zeroLength
  | oversized
  | undecodable
  deriving DecidableEq, Repr

structure FramingFailure where
  reason : FramingFailureReason
  detail : String
  deriving DecidableEq, Repr

def zeroLength : FramingFailure := ⟨.zeroLength, "a length prefix declared 0 bytes"⟩

def oversized (declared : Nat) : FramingFailure :=
  ⟨.oversized, s!"a length prefix declared {declared} bytes, over the {maxFrameBytes}-byte cap"⟩

def undecodable (declared : Nat) (detail : String) : FramingFailure :=
  ⟨.undecodable, s!"a {declared}-byte payload did not decode as one MessagePack value: {detail}"⟩

structure AccumulatorOutcome (V : Type) where
  values : List V
  failure : Option FramingFailure

structure FrameAccumulator where
  buffer : Bytes := []
  failure : Option FramingFailure := none

/-! ## Pushing -/

section
variable {V : Type} (decode : Bytes → Except String V)

/-- The loop's variables where it is left, and the failure it is left with. -/
structure Extracted (V : Type) where
  values : List V
  offset : Nat
  failure : Option FramingFailure

/-- The length a stream starts with. -/
def declaredLength (input : Bytes) : Nat := ofBigEndian (input.take lengthPrefixBytes)

/-- The loop of `push`. -/
def extract (buffer : Bytes) (offset : Nat) (values : List V) : Extracted V :=
  if buffer.length - offset < lengthPrefixBytes then ⟨values, offset, none⟩
  else
    let declared := declaredLength (buffer.drop offset)
    if declared = 0 then ⟨values, offset, some zeroLength⟩
    else if maxFrameBytes < declared then ⟨values, offset, some (oversized declared)⟩
    else
      let stop := offset + lengthPrefixBytes + declared
      if buffer.length < stop then ⟨values, offset, none⟩
      else
        match decode ((buffer.drop (offset + lengthPrefixBytes)).take declared) with
        | .error detail => ⟨values, offset, some (undecodable declared detail)⟩
        | .ok value => extract buffer stop (values ++ [value])
termination_by buffer.length - offset
decreasing_by simp only [lengthPrefixBytes] at *; omega

namespace FrameAccumulator

def join (acc : FrameAccumulator) (chunk : Bytes) : Bytes :=
  if acc.buffer.length = 0 then chunk else acc.buffer ++ chunk

def push (acc : FrameAccumulator) (chunk : Bytes) : AccumulatorOutcome V × FrameAccumulator :=
  match acc.failure with
  | some failure => (⟨[], some failure⟩, acc)
  | none =>
    let buffer := acc.join chunk
    let e := extract decode buffer 0 []
    match e.failure with
    | some failure => (⟨e.values, some failure⟩, { buffer := [], failure := some failure })
    | none =>
      (⟨e.values, none⟩, { acc with buffer := if e.offset = buffer.length then [] else buffer.drop e.offset })

/-- How far a push gets in the stream. -/
def advance (acc : FrameAccumulator) (chunk : Bytes) : Nat :=
  match acc.failure with
  | some _ => 0
  | none => (extract decode (acc.join chunk) 0 []).offset

end FrameAccumulator

/-- What a fresh accumulator has come to: itself, the values it gave, the first failure it
    reported, and the place in the stream it stopped at. -/
structure Received (V : Type) where
  acc : FrameAccumulator := {}
  values : List V := []
  failure : Option FramingFailure := none
  position : Nat := 0

def Received.push (r : Received V) (chunk : Bytes) : Received V :=
  let (outcome, acc) := r.acc.push decode chunk
  { acc := acc
    values := r.values ++ outcome.values
    failure := r.failure <|> outcome.failure
    position := r.position + r.acc.advance decode chunk }

def received (chunks : List Bytes) : Received V := chunks.foldl (Received.push decode) {}

/-! ## The walk is a scan -/

/-- What the front of the stream says. -/
def nextFrame (input : Bytes) : Next UInt8 V FramingFailure :=
  if input.length < lengthPrefixBytes then .more
  else if declaredLength input = 0 then .refuse zeroLength
  else if maxFrameBytes < declaredLength input then .refuse (oversized (declaredLength input))
  else if input.length < lengthPrefixBytes + declaredLength input then .more
  else
    match decode ((input.drop lengthPrefixBytes).take (declaredLength input)) with
    | .error detail => .refuse (undecodable (declaredLength input) detail)
    | .ok value => .item value (input.drop (lengthPrefixBytes + declaredLength input))

variable {decode}

/-- A complete frame is taken off, or refused, by its own bytes alone. -/
theorem nextFrame_append {input : Bytes} (piece : Bytes) (h : nextFrame decode input ≠ .more) :
    nextFrame decode (input ++ piece) =
      match nextFrame decode input with
      | .more => .more
      | .refuse failure => .refuse failure
      | .item value rest => .item value (rest ++ piece) := by
  have hprefix : ¬ input.length < lengthPrefixBytes := by
    intro hshort
    exact h (by rw [nextFrame, if_pos hshort])
  have hdeclared : declaredLength (input ++ piece) = declaredLength input := by
    simp only [declaredLength, List.take_append_of_le_length (Nat.le_of_not_lt hprefix)]
  have hprefix' : ¬ (input ++ piece).length < lengthPrefixBytes := by
    rw [List.length_append]; omega
  unfold nextFrame at h ⊢
  rw [if_neg hprefix, if_neg hprefix', hdeclared]
  rw [if_neg hprefix] at h
  by_cases hzero : declaredLength input = 0
  · simp only [hzero, if_true]
  by_cases hover : maxFrameBytes < declaredLength input
  · simp only [hzero, hover, if_true, if_false]
  simp only [hzero, hover, if_false] at h ⊢
  have hall : ¬ input.length < lengthPrefixBytes + declaredLength input := fun hshort => h (by rw [if_pos hshort])
  have hall' : ¬ (input ++ piece).length < lengthPrefixBytes + declaredLength input := by
    rw [List.length_append]; omega
  rw [if_neg hall, if_neg hall']
  -- the payload lies before the piece
  have hpayload : ((input ++ piece).drop lengthPrefixBytes).take (declaredLength input) =
      (input.drop lengthPrefixBytes).take (declaredLength input) := by
    rw [List.drop_append_of_le_length (by omega), List.take_append_of_le_length (by rw [List.length_drop]; omega)]
  rw [hpayload, List.drop_append_of_le_length (by omega)]
  cases decode ((input.drop lengthPrefixBytes).take (declaredLength input)) <;> rfl

theorem nextFrame_item {input rest : Bytes} {value : V} (h : nextFrame decode input = .item value rest) :
    lengthPrefixBytes + declaredLength input ≤ input.length ∧
      rest = input.drop (lengthPrefixBytes + declaredLength input) := by
  unfold nextFrame at h
  repeat' split at h
  all_goals cases h
  exact ⟨by omega, rfl⟩

/-- The bytes of one frame, and no more. -/
theorem nextFrame_whole {input : Bytes} {value : V} (hpos : declaredLength input ≠ 0) (hmax : declaredLength input ≤ maxFrameBytes)
    (hlength : input.length = lengthPrefixBytes + declaredLength input)
    (hdecode : decode (input.drop lengthPrefixBytes) = .ok value) : nextFrame decode input = .item value [] := by
  have hbody : (input.drop lengthPrefixBytes).take (declaredLength input) = input.drop lengthPrefixBytes := by
    apply List.take_of_length_le
    rw [List.length_drop]
    omega
  rw [nextFrame, if_neg (by omega), if_neg hpos, if_neg (by omega), if_neg (by omega), hbody, hdecode, ← hlength,
    List.drop_length]

/-- Nothing is waited for that would be longer than a full frame. -/
theorem nextFrame_more {input : Bytes} (h : nextFrame decode input = .more) :
    input.length < lengthPrefixBytes + maxFrameBytes := by
  unfold nextFrame at h
  repeat' split at h
  all_goals first | omega | cases h

variable (decode)

def frames : Scanner UInt8 V FramingFailure where
  next := nextFrame decode
  next_nil := rfl
  suffix h := by
    obtain ⟨-, rfl⟩ := nextFrame_item h
    exact List.drop_suffix _ _
  shorter h := by
    obtain ⟨hle, rfl⟩ := nextFrame_item h
    rw [List.length_drop]
    simp only [lengthPrefixBytes] at *
    omega
  item_append h piece := by rw [nextFrame_append piece (by rw [h]; nofun), h]
  refuse_append h piece := by rw [nextFrame_append piece (by rw [h]; nofun), h]

theorem frames_next (input : Bytes) : (frames decode).next input = nextFrame decode input := rfl

/-- One round of the loop looks at what lies beyond its offset. -/
theorem extract_next (buffer : Bytes) (offset : Nat) (values : List V) :
    extract decode buffer offset values =
      match nextFrame decode (buffer.drop offset) with
      | .more => ⟨values, offset, none⟩
      | .refuse failure => ⟨values, offset, some failure⟩
      | .item value rest => extract decode buffer (offset + ((buffer.drop offset).length - rest.length)) (values ++ [value]) := by
  rw [extract, nextFrame, List.length_drop]
  by_cases hshort : buffer.length - offset < lengthPrefixBytes
  · rw [if_pos hshort, if_pos hshort]
  rw [if_neg hshort, if_neg hshort]
  generalize hd : declaredLength (buffer.drop offset) = declared
  simp only
  by_cases hzero : declared = 0
  · rw [if_pos hzero, if_pos hzero]
  rw [if_neg hzero, if_neg hzero]
  by_cases hover : maxFrameBytes < declared
  · rw [if_pos hover, if_pos hover]
  rw [if_neg hover, if_neg hover]
  by_cases hall : buffer.length < offset + lengthPrefixBytes + declared
  · rw [if_pos hall, if_pos (by omega)]
  rw [if_neg hall, if_neg (by omega), List.drop_drop]
  cases decode ((buffer.drop (offset + lengthPrefixBytes)).take declared) with
  | error detail => rfl
  | ok value =>
    have hstop : offset + (buffer.length - offset - (buffer.length - offset - (lengthPrefixBytes + declared))) =
        offset + lengthPrefixBytes + declared := by omega
    simp only [List.length_drop, hstop]

/-- The loop scans what lies beyond its offset. -/
theorem extract_scan (buffer input : Bytes) : ∀ (offset : Nat) (values : List V), buffer.drop offset = input →
    extract decode buffer offset values =
      ⟨values ++ ((frames decode).scan input).values, offset + ((frames decode).scan input).taken,
        ((frames decode).scan input).failure⟩ := by
  induction input using (frames decode).scan_induction with
  | more input h =>
    rintro offset values rfl
    rw [extract_next, ← frames_next, h, Scanner.scan_more h, List.append_nil, Nat.add_zero]
  | refuse input failure h =>
    rintro offset values rfl
    rw [extract_next, ← frames_next, h, Scanner.scan_refuse h, List.append_nil, Nat.add_zero]
  | item input value rest h ih =>
    rintro offset values rfl
    -- the next round starts where the frame ends
    have hdrop : buffer.drop (offset + ((buffer.drop offset).length - rest.length)) = rest := by
      rw [← List.drop_drop, Scanner.drop_item h]
    rw [extract_next, ← frames_next, h]
    simp only [ih _ (values ++ [value]) hdrop, Scanner.scan_item h, List.append_assoc, List.singleton_append, Nat.add_assoc]

/-! ## Pushing is feeding it -/

/-- An accumulator that has been fed as much as `s` says. -/
def Received.of (s : Scanned UInt8 V FramingFailure) : Received V :=
  { acc := { buffer := s.rest, failure := s.failure }, values := s.values, failure := s.failure, position := s.taken }

theorem join_eq (acc : FrameAccumulator) (chunk : Bytes) : acc.join chunk = acc.buffer ++ chunk := by
  unfold FrameAccumulator.join
  split
  · rename_i h
    rw [List.eq_nil_of_length_eq_zero h, List.nil_append]
  · rfl

theorem push_feed (s : Scanned UInt8 V FramingFailure) (chunk : Bytes) :
    (Received.of s).push decode chunk = .of (s.feed (frames decode) chunk) := by
  cases hf : s.failure with
  | some failure =>
    simp [Received.push, Received.of, FrameAccumulator.push, FrameAccumulator.advance, Scanned.feed, hf]
  | none =>
    have hextract := extract_scan decode (s.rest ++ chunk) (s.rest ++ chunk) 0 [] rfl
    simp only [List.nil_append, Nat.zero_add] at hextract
    simp only [Received.push, Received.of, FrameAccumulator.push, FrameAccumulator.advance, Scanned.feed, hf, join_eq,
      hextract]
    cases hnew : ((frames decode).scan (s.rest ++ chunk)).failure with
    | some failure => simp [Scanner.scan_refused _ (by rw [hnew]; exact Option.some_ne_none failure)]
    | none =>
      rw [← Scanner.scan_kept _ hnew]
      -- an offset at the end of the buffer leaves nothing of it
      have hend : ∀ n, (if n = (s.rest ++ chunk).length then [] else (s.rest ++ chunk).drop n) = (s.rest ++ chunk).drop n := by
        intro n
        split
        · rename_i he
          rw [he, List.drop_length]
        · rfl
      simp only [hend]
      rfl

/-- A chunk that is one frame. -/
theorem push_frame {wire : Bytes} {value : V} (h : nextFrame decode wire = .item value []) :
    FrameAccumulator.push decode {} wire = (⟨[value], none⟩, {}) := by
  have hscan := Scanner.scan_item (frames_next decode wire ▸ h)
  rw [Scanner.scan_nil] at hscan
  have hextract := extract_scan decode wire wire 0 [] rfl
  rw [hscan] at hextract
  simp [FrameAccumulator.push, FrameAccumulator.join, hextract]

theorem received_scan (chunks : List Bytes) : received decode chunks = .of ((frames decode).scan chunks.flatten) := by
  have hfeed : ∀ (chunks : List Bytes) (s : Scanned UInt8 V FramingFailure),
      chunks.foldl (Received.push decode) (.of s) = .of (chunks.foldl (Scanned.feed (frames decode)) s) := by
    intro chunks
    induction chunks with
    | nil => intro s; rfl
    | cons chunk chunks ih => intro s; rw [List.foldl_cons, push_feed, ih, List.foldl_cons]
  rw [← (frames decode).feed_flatten]
  exact hfeed chunks {}

theorem received_failed {chunks : List Bytes} {failure : FramingFailure}
    (h : (received decode chunks).failure = some failure) (chunk : Bytes) :
    (received decode chunks).acc.push decode chunk = (⟨[], some failure⟩, (received decode chunks).acc) := by
  rw [received_scan] at h ⊢
  replace h : ((frames decode).scan chunks.flatten).failure = some failure := h
  simp only [Received.of, FrameAccumulator.push, h]

theorem received_append_failed {chunks : List Bytes} {failure : FramingFailure}
    (h : (received decode chunks).failure = some failure) (later : List Bytes) :
    received decode (chunks ++ later) = received decode chunks := by
  rw [received_scan] at h
  replace h : ((frames decode).scan chunks.flatten).failure = some failure := h
  rw [received_scan, received_scan, List.flatten_append, Scanner.scan_append, Scanned.feed, h]

end

section
variable {F V : Type} (codec : Codec F V)

theorem nextFrame_encodeFrame {frame : F} {wire : Bytes} (h : codec.encodeFrame frame = .ok wire) (rest : Bytes) :
    nextFrame codec.decode (wire ++ rest) = .item (codec.value frame) rest := by
  obtain ⟨payload, rfl, hpos, hle, hdecode⟩ := codec.encodeFrame_ok h
  have hprefix := length_bigEndian lengthPrefixBytes payload.length
  have hdeclared : declaredLength (bigEndian lengthPrefixBytes payload.length ++ payload ++ rest) = payload.length := by
    rw [declaredLength, List.append_assoc, List.take_left' hprefix, ofBigEndian_bigEndian]
    exact Nat.lt_of_le_of_lt hle (by decide)
  have hlength : (bigEndian lengthPrefixBytes payload.length ++ payload ++ rest).length =
      lengthPrefixBytes + payload.length + rest.length := by
    simp only [List.length_append, hprefix]
  have hbody : ((bigEndian lengthPrefixBytes payload.length ++ payload ++ rest).drop lengthPrefixBytes).take
      payload.length = payload := by
    rw [List.append_assoc, List.drop_left' hprefix, List.take_left' rfl]
  unfold nextFrame
  rw [hdeclared, hlength, if_neg (by omega), if_neg (by omega), if_neg (by omega), if_neg (by omega), hbody, hdecode,
    List.drop_left' (by rw [List.length_append, hprefix])]

theorem mapM_encodeFrame {fs : List F} : ∀ {wires : List Bytes}, fs.mapM codec.encodeFrame = .ok wires →
    List.Forall₂ (fun wire value => ∀ rest, nextFrame codec.decode (wire ++ rest) = .item value rest) wires
      (fs.map codec.value) := by
  induction fs with
  | nil =>
    intro wires h
    cases h
    exact .nil
  | cons frame fs ih =>
    intro wires h
    rw [List.mapM_cons] at h
    cases hframe : codec.encodeFrame frame with
    | error e => rw [hframe] at h; cases h
    | ok wire =>
      cases hfs : fs.mapM codec.encodeFrame with
      | error e => rw [hframe, hfs] at h; cases h
      | ok rest =>
        rw [hframe, hfs] at h
        cases h
        exact .cons (nextFrame_encodeFrame codec hframe) (ih hfs)

theorem received_encoded {fs : List F} {wires : List Bytes} (h : fs.mapM codec.encodeFrame = .ok wires) :
    received codec.decode [wires.flatten] = { values := fs.map codec.value, position := wires.flatten.length } := by
  rw [received_scan, List.flatten_singleton, (frames codec.decode).scan_written (mapM_encodeFrame codec h)]
  rfl

/-- However a stream is cut, the same values come of it, the same failure at the same place, and
    after a failure nothing more; frames as they were written come back whole; and never a full
    frame is held back. -/
theorem reassembly_ignores_chunking :
    (∀ chunks, received codec.decode chunks = received codec.decode [chunks.flatten]) ∧
    (∀ chunks failure, (received codec.decode chunks).failure = some failure → ∀ later chunk,
      received codec.decode (chunks ++ later) = received codec.decode chunks ∧
        ((received codec.decode chunks).acc.push codec.decode chunk).1 = ⟨[], some failure⟩) ∧
    (∀ (fs : List F) (wires : List Bytes), fs.mapM codec.encodeFrame = .ok wires →
      received codec.decode [wires.flatten] = { values := fs.map codec.value, position := wires.flatten.length }) ∧
    ∀ chunks, (received codec.decode chunks).acc.buffer.length < lengthPrefixBytes + maxFrameBytes := by
  refine ⟨fun chunks => ?_, fun chunks failure h later chunk => ?_, fun fs wires h => received_encoded codec h,
    fun chunks => ?_⟩
  · rw [received_scan, received_scan, List.flatten_singleton]
  · exact ⟨received_append_failed _ h later, by rw [received_failed _ h]⟩
  · rw [received_scan]
    exact (frames codec.decode).rest_length_lt (fun _ => nextFrame_more) chunks.flatten

end

def pingWire : Bytes := [0, 0, 0, 11, 0x81, 0xa4, 0x74, 0x79, 0x70, 0x65, 0xa4, 0x70, 0x69, 0x6e, 0x67]

def listWire : Bytes :=
  [0, 0, 0, 26, 0x82, 0xa4, 0x74, 0x79, 0x70, 0x65, 0xa4, 0x6c, 0x69, 0x73, 0x74,
    0xaa, 0x72, 0x65, 0x71, 0x75, 0x65, 0x73, 0x74, 0x5f, 0x69, 0x64, 0xa3, 0x72, 0x2d, 0x31]

def plainMsgpack : Codec ClientFrame MsgPack.Value := msgpack fun _ => "not one value"

/-- A ping, then a request cut in the middle of its length; and a length of zero before a ping. -/
theorem two_frames_in_two_chunks :
    [ClientFrame.ping, .list "r-1"].mapM plainMsgpack.encodeFrame = .ok [pingWire, listWire] ∧
    received plainMsgpack.decode [pingWire ++ listWire.take 2, listWire.drop 2] =
      { values := [ClientFrame.ping.value, (ClientFrame.list "r-1").value], position := 45 } ∧
    (received plainMsgpack.decode [[0, 0], [0, 0]]).failure = some zeroLength ∧
    received plainMsgpack.decode ([[0, 0], [0, 0]] ++ [pingWire]) = received plainMsgpack.decode [[0, 0], [0, 0]] := by
  have hping : plainMsgpack.encodeFrame .ping = .ok pingWire := rfl
  have hlist : plainMsgpack.encodeFrame (.list "r-1") = .ok listWire := rfl
  have hwires : [ClientFrame.ping, .list "r-1"].mapM plainMsgpack.encodeFrame = .ok [pingWire, listWire] := by
    rw [List.mapM_cons, List.mapM_cons, List.mapM_nil, hping, hlist]
    rfl
  have hbroken : (received plainMsgpack.decode [[0, 0], [0, 0]]).failure = some zeroLength := by
    have hzero : (frames plainMsgpack.decode).next [0, 0, 0, 0] = .refuse zeroLength := by
      rw [frames_next, nextFrame, if_neg (by decide), if_pos (by decide)]
    rw [received_scan, show ([[0, 0], [0, 0]] : List Bytes).flatten = [0, 0, 0, 0] from rfl,
      Scanner.scan_refuse hzero]
    rfl
  obtain ⟨hcut, hfailed, hwritten, -⟩ := reassembly_ignores_chunking plainMsgpack
  refine ⟨hwires, ?_, hbroken, (hfailed _ zeroLength hbroken [pingWire] []).1⟩
  rw [hcut]
  exact hwritten _ _ hwires

end OmpRelayd.Client
