/-
  OmpRelayd.Framing — the relay's end of a byte stream (server/src/protocol.rs: `codec`,
  `framed_split`, `framing_error_code`).

  `LengthDelimitedCodec` takes a head off its buffer as soon as its four bytes are there, and
  keeps the length it declared until that many bytes more have come; a length over the cap is
  refused before any of the payload has. `FramedRead` asks it for payloads until it waits, and
  only then reads on. What the client does with the same stream is written the other way round:
  its accumulator leaves the head where it is until the frame is whole (`Client.Framing`).

  A head that was taken off is put back by `FrameReader.pending`; what the reader does to that is
  a scan (`drain_scan`). Proved (`both_ends_split_alike`): of one stream, however it is cut for
  each of them, the two ends make the same payloads, wait and refuse at the same place, and differ
  on a length of zero alone.
-/

import OmpRelayd.Client.Framing

namespace OmpRelayd

/-! ## The codec -/

/-- `length_field_type::<u32>()`. -/
def headBytes : Nat := 4

inductive IoError where
  | invalidData (text : String)
  | other (text : String)
  deriving DecidableEq, Repr

def tooBig : IoError := .invalidData "frame size too big"

def IoError.text : IoError → String
  | .invalidData text => text
  | .other text => text

def framingErrorCode : IoError → Option ErrorCode
  | .invalidData _ => some .frameTooLarge
  | .other _ => none

inductive DecodeState where
  | head
  | data (length : Nat)
  deriving DecidableEq, Repr

structure FrameReader where
  buffer : Bytes := []
  state : DecodeState := .head
  deriving DecidableEq, Repr

namespace FrameReader

def decodeHead (r : FrameReader) : Except IoError FrameReader :=
  match r.state with
  | .data _ => .ok r
  | .head =>
    if r.buffer.length < headBytes then .ok r
    else
      let declared := ofBigEndian (r.buffer.take headBytes)
      if maxFrameBytes < declared then .error tooBig
      else .ok { buffer := r.buffer.drop headBytes, state := .data declared }

def decodeData (r : FrameReader) : Option Bytes × FrameReader :=
  match r.state with
  | .head => (none, r)
  | .data length =>
    match readBytes length r.buffer with
    | none => (none, r)
    | some (payload, rest) => (some payload, { buffer := rest, state := .head })

def decode (r : FrameReader) : Except IoError (Option Bytes × FrameReader) := r.decodeHead.map decodeData

/-- What is still to be read, with the head that was taken off put back. -/
def pending (r : FrameReader) : Bytes :=
  match r.state with
  | .head => r.buffer
  | .data length => bigEndian headBytes length ++ r.buffer

theorem decode_shorter {r r' : FrameReader} {payload : Bytes} (h : r.decode = .ok (some payload, r')) :
    r'.pending.length < r.pending.length := by
  have hdata : ∀ (length : Nat) (buffer : Bytes), decodeData { buffer := buffer, state := .data length } = (some payload, r') →
      r'.pending.length ≤ buffer.length := by
    intro length buffer h
    simp only [decodeData, readBytes] at h
    by_cases hlt : buffer.length < length
    · simp [hlt] at h
    · simp only [hlt, if_false, Prod.mk.injEq] at h
      obtain ⟨-, rfl⟩ := h
      simp [pending]
  obtain ⟨buffer, state⟩ := r
  cases state with
  | data length =>
    have hle := hdata length buffer (Except.ok.inj h)
    show r'.pending.length < (bigEndian headBytes length ++ buffer).length
    rw [List.length_append, length_bigEndian, headBytes]
    omega
  | head =>
    simp only [decode, decodeHead] at h
    by_cases hlt : buffer.length < headBytes
    · rw [if_pos hlt] at h
      cases h
    by_cases hmax : maxFrameBytes < ofBigEndian (buffer.take headBytes)
    · rw [if_neg hlt, if_pos hmax] at h
      cases h
    rw [if_neg hlt, if_neg hmax] at h
    have hle := hdata _ _ (Except.ok.inj h)
    rw [List.length_drop] at hle
    show r'.pending.length < buffer.length
    simp only [headBytes] at *
    omega

/-- `FramedRead` asks for payloads until there is none, or an error. -/
def drain (r : FrameReader) : List Bytes × Option IoError × FrameReader :=
  match h : r.decode with
  | .error error => ([], some error, r)
  | .ok (none, r') => ([], none, r')
  | .ok (some payload, r') =>
    have := decode_shorter h
    let (payloads, error, last) := r'.drain
    (payload :: payloads, error, last)
termination_by r.pending.length

end FrameReader

/-- What has come of a stream: the payloads in order, and the error after which nothing is read. -/
structure FramedRead where
  reader : FrameReader := {}
  payloads : List Bytes := []
  error : Option IoError := none

def FramedRead.push (f : FramedRead) (chunk : Bytes) : FramedRead :=
  match f.error with
  | some _ => f
  | none =>
    let (payloads, error, reader) := { f.reader with buffer := f.reader.buffer ++ chunk }.drain
    { reader := reader, payloads := f.payloads ++ payloads, error := error }

def framedRead (chunks : List Bytes) : FramedRead := chunks.foldl FramedRead.push {}

/-- `LengthDelimitedCodec::encode`. -/
def framed (payload : Bytes) : Option Bytes :=
  if maxFrameBytes < payload.length then none else some (bigEndian headBytes payload.length ++ payload)

/-! ## Reading is scanning -/

def declared (input : Bytes) : Nat := ofBigEndian (input.take headBytes)

/-- What the front of the stream says. -/
def nextPayload (input : Bytes) : Next UInt8 Bytes IoError :=
  if input.length < headBytes then .more
  else if maxFrameBytes < declared input then .refuse tooBig
  else if input.length < headBytes + declared input then .more
  else .item ((input.drop headBytes).take (declared input)) (input.drop (headBytes + declared input))

theorem declared_append {input : Bytes} (h : ¬ input.length < headBytes) (piece : Bytes) :
    declared (input ++ piece) = declared input := by
  rw [declared, declared, List.take_append_of_le_length (by omega)]

theorem nextPayload_append {input : Bytes} (piece : Bytes) (h : nextPayload input ≠ .more) :
    nextPayload (input ++ piece) =
      match nextPayload input with
      | .item payload rest => .item payload (rest ++ piece)
      | next => next := by
  unfold nextPayload at h ⊢
  by_cases hhead : input.length < headBytes
  · simp [hhead] at h
  have hhead' : ¬ (input ++ piece).length < headBytes := by rw [List.length_append]; omega
  rw [declared_append hhead]
  by_cases hmax : maxFrameBytes < declared input
  · simp only [hhead, hhead', hmax, if_false, if_true]
  by_cases hwhole : input.length < headBytes + declared input
  · simp [hhead, hmax, hwhole] at h
  have hwhole' : ¬ (input ++ piece).length < headBytes + declared input := by rw [List.length_append]; omega
  simp only [hhead, hhead', hmax, hwhole, hwhole', if_false]
  rw [List.drop_append_of_le_length (by omega), List.take_append_of_le_length (by rw [List.length_drop]; omega),
    List.drop_append_of_le_length (by omega)]

theorem nextPayload_item {input payload rest : Bytes} (h : nextPayload input = .item payload rest) :
    headBytes + declared input ≤ input.length ∧ declared input ≤ maxFrameBytes ∧
      payload = (input.drop headBytes).take (declared input) ∧ rest = input.drop (headBytes + declared input) := by
  unfold nextPayload at h
  by_cases hhead : input.length < headBytes
  · simp [hhead] at h
  by_cases hmax : maxFrameBytes < declared input
  · simp [hhead, hmax] at h
  by_cases hwhole : input.length < headBytes + declared input
  · simp [hhead, hmax, hwhole] at h
  simp only [hhead, hmax, hwhole, if_false, Next.item.injEq] at h
  exact ⟨by omega, by omega, h.1.symm, h.2.symm⟩

/-- Payloads off the front of a stream. -/
def payloads : Scanner UInt8 Bytes IoError where
  next := nextPayload
  next_nil := rfl
  suffix h := by
    obtain ⟨-, -, -, rfl⟩ := nextPayload_item h
    exact List.drop_suffix _ _
  shorter h := by
    obtain ⟨hle, -, -, rfl⟩ := nextPayload_item h
    rw [List.length_drop]
    simp only [headBytes] at *
    omega
  item_append h piece := by rw [nextPayload_append piece (by rw [h]; nofun), h]
  refuse_append h piece := by rw [nextPayload_append piece (by rw [h]; nofun), h]

namespace FrameReader

/-- A length that was taken off is one the cap allows. -/
def Sound (r : FrameReader) : Prop := ∀ length, r.state = .data length → length ≤ maxFrameBytes

theorem declared_pending {length : Nat} (h : length ≤ maxFrameBytes) (buffer : Bytes) :
    declared (bigEndian headBytes length ++ buffer) = length := by
  rw [declared, List.take_left' (length_bigEndian _ _), ofBigEndian_bigEndian]
  exact Nat.lt_of_le_of_lt h (by decide)

/-- A head taken off a buffer and put back is the buffer. -/
theorem pending_taken {buffer : Bytes} (h : ¬ buffer.length < headBytes) :
    bigEndian headBytes (declared buffer) ++ buffer.drop headBytes = buffer := by
  have hlength : (buffer.take headBytes).length = headBytes := by rw [List.length_take]; omega
  have hhead := bigEndian_ofBigEndian (buffer.take headBytes)
  rw [hlength] at hhead
  rw [declared, hhead, List.take_append_drop]

/-- What one call of the decoder does where the front of the stream says this. -/
def Answers (r : FrameReader) : Next UInt8 Bytes IoError → Prop
  | .more => ∃ r', r.decode = .ok (none, r') ∧ r'.pending = r.pending ∧ r'.Sound
  | .refuse error => r.decode = .error error
  | .item payload rest => r.decode = .ok (some payload, { buffer := rest })

/-- With the head taken off, the length of the buffer decides. -/
theorem decodeData_answers {length : Nat} (hlength : length ≤ maxFrameBytes) (buffer : Bytes) {r : FrameReader}
    (hr : r.decode = .ok (decodeData ⟨buffer, .data length⟩)) (hp : r.pending = bigEndian headBytes length ++ buffer) :
    r.Answers (nextPayload r.pending) := by
  have hhead := length_bigEndian headBytes length
  have hsound : Sound ⟨buffer, .data length⟩ := by
    intro n heq
    cases heq
    exact hlength
  have hlen : (bigEndian headBytes length ++ buffer).length = headBytes + buffer.length := by
    rw [List.length_append, hhead]
  have hfits : ¬ maxFrameBytes < length := by omega
  by_cases hwhole : buffer.length < length
  · have hmore : nextPayload r.pending = .more := by
      rw [hp, nextPayload, declared_pending hlength, hlen, if_neg (by omega), if_neg hfits, if_pos (by omega)]
    rw [hmore]
    refine ⟨⟨buffer, .data length⟩, ?_, hp.symm, hsound⟩
    simp [hr, decodeData, readBytes, hwhole]
  · have hitem : nextPayload r.pending = .item (buffer.take length) (buffer.drop length) := by
      rw [hp, nextPayload, declared_pending hlength, hlen, if_neg (by omega), if_neg hfits, if_neg (by omega),
        List.drop_left' hhead, ← List.drop_drop, List.drop_left' hhead]
    rw [hitem]
    simp [Answers, hr, decodeData, readBytes, hwhole]

theorem decode_answers {r : FrameReader} (hr : r.Sound) : r.Answers (nextPayload r.pending) := by
  obtain ⟨buffer, state⟩ := r
  cases state with
  | data length => exact decodeData_answers (hr length rfl) buffer rfl rfl
  | head =>
    show Answers _ (nextPayload buffer)
    by_cases hshort : buffer.length < headBytes
    · have hmore : nextPayload buffer = .more := if_pos hshort
      rw [hmore]
      refine ⟨⟨buffer, .head⟩, ?_, rfl, hr⟩
      simp [decode, decodeHead, decodeData, hshort, Except.map]
    by_cases hmax : maxFrameBytes < declared buffer
    · have hrefuse : nextPayload buffer = .refuse tooBig := by rw [nextPayload, if_neg hshort, if_pos hmax]
      have hmax : maxFrameBytes < ofBigEndian (buffer.take headBytes) := hmax
      rw [hrefuse]
      simp [Answers, decode, decodeHead, hshort, hmax, Except.map]
    refine decodeData_answers (Nat.le_of_not_lt hmax) (buffer.drop headBytes) ?_ (pending_taken hshort).symm
    have hmax : ¬ maxFrameBytes < ofBigEndian (buffer.take headBytes) := hmax
    simp only [decode, decodeHead, hshort, hmax, if_false]
    rfl

theorem decode_none {r r' : FrameReader} (hr : r.Sound) (h : r.decode = .ok (none, r')) :
    nextPayload r.pending = .more ∧ r'.pending = r.pending ∧ r'.Sound := by
  have hanswers := decode_answers hr
  cases hnext : nextPayload r.pending with
  | more =>
    rw [hnext] at hanswers
    obtain ⟨r'', hdecode, hpending, hsound⟩ := hanswers
    cases h.symm.trans hdecode
    exact ⟨rfl, hpending, hsound⟩
  | refuse error =>
    rw [hnext] at hanswers
    cases h.symm.trans hanswers
  | item payload rest =>
    rw [hnext] at hanswers
    cases h.symm.trans hanswers

theorem decode_some {r r' : FrameReader} {payload : Bytes} (hr : r.Sound) (h : r.decode = .ok (some payload, r')) :
    nextPayload r.pending = .item payload r'.pending ∧ r'.Sound := by
  have hanswers := decode_answers hr
  cases hnext : nextPayload r.pending with
  | more =>
    rw [hnext] at hanswers
    obtain ⟨r'', hdecode, -⟩ := hanswers
    cases h.symm.trans hdecode
  | refuse error =>
    rw [hnext] at hanswers
    cases h.symm.trans hanswers
  | item payload rest =>
    rw [hnext] at hanswers
    cases h.symm.trans hanswers
    refine ⟨rfl, ?_⟩
    intro length heq
    cases heq

theorem decode_refused {r : FrameReader} {error : IoError} (hr : r.Sound) (h : r.decode = .error error) :
    nextPayload r.pending = .refuse error := by
  have hanswers := decode_answers hr
  cases hnext : nextPayload r.pending with
  | more =>
    rw [hnext] at hanswers
    obtain ⟨r'', hdecode, -⟩ := hanswers
    cases h.symm.trans hdecode
  | refuse error =>
    rw [hnext] at hanswers
    cases h.symm.trans hanswers
    rfl
  | item payload rest =>
    rw [hnext] at hanswers
    cases h.symm.trans hanswers

theorem pending_fill (r : FrameReader) (piece : Bytes) :
    FrameReader.pending { r with buffer := r.buffer ++ piece } = r.pending ++ piece := by
  unfold pending
  cases r.state with
  | head => rfl
  | data length => exact (List.append_assoc ..).symm

theorem drain_error {r : FrameReader} {error : IoError} (h : r.decode = .error error) : r.drain = ([], some error, r) := by
  rw [drain]
  split <;> simp_all

theorem drain_none {r r' : FrameReader} (h : r.decode = .ok (none, r')) : r.drain = ([], none, r') := by
  rw [drain]
  split <;> simp_all

theorem drain_some {r r' : FrameReader} {payload : Bytes} (h : r.decode = .ok (some payload, r')) :
    r.drain = (payload :: r'.drain.1, r'.drain.2) := by
  rw [drain]
  split <;> simp_all

/-- Draining takes what a scan takes. -/
theorem drain_scan {r : FrameReader} (hr : r.Sound) :
    r.drain.1 = (payloads.scan r.pending).values ∧ r.drain.2.1 = (payloads.scan r.pending).failure ∧
      (r.drain.2.1 = none → r.drain.2.2.pending = (payloads.scan r.pending).rest ∧ r.drain.2.2.Sound) := by
  induction hn : r.pending.length using Nat.strong_induction_on generalizing r with
  | _ n ih =>
  have hanswers := decode_answers hr
  cases hnext : nextPayload r.pending with
  | more =>
    rw [hnext] at hanswers
    obtain ⟨r', hdecode, hp, hsound⟩ := hanswers
    rw [drain_none hdecode, Scanner.scan_more hnext]
    exact ⟨rfl, rfl, fun _ => ⟨hp, hsound⟩⟩
  | refuse error =>
    rw [hnext] at hanswers
    rw [drain_error hanswers, Scanner.scan_refuse hnext]
    exact ⟨rfl, rfl, nofun⟩
  | item payload rest =>
    rw [hnext] at hanswers
    have hsound : Sound { buffer := rest } := by
      intro length heq
      cases heq
    have hlt : rest.length < n := hn ▸ payloads.shorter hnext
    obtain ⟨hvalues, hfailure, hrest⟩ := ih rest.length hlt hsound rfl
    rw [drain_some hanswers, Scanner.scan_item hnext]
    exact ⟨congrArg (payload :: ·) hvalues, hfailure, hrest⟩

end FrameReader

/-- The reader stands where the scan of what it was given does. -/
structure FramedRead.Scans (f : FramedRead) (s : Scanned UInt8 Bytes IoError) : Prop where
  payloads : f.payloads = s.values
  error : f.error = s.failure
  rest : f.error = none → f.reader.pending = s.rest ∧ f.reader.Sound

theorem FramedRead.Scans.push {f : FramedRead} {s : Scanned UInt8 Bytes IoError} (h : f.Scans s) (chunk : Bytes) :
    (f.push chunk).Scans (s.feed OmpRelayd.payloads chunk) := by
  cases herror : f.error with
  | some error =>
    have hpush : f.push chunk = f := by rw [FramedRead.push, herror]
    have hfeed : s.feed OmpRelayd.payloads chunk = s := by rw [Scanned.feed, ← h.error, herror]
    rw [hpush, hfeed]
    exact h
  | none =>
    obtain ⟨hpending, hsound⟩ := h.rest herror
    let r : FrameReader := { f.reader with buffer := f.reader.buffer ++ chunk }
    have hr : r.Sound := hsound
    have hp : r.pending = s.rest ++ chunk := by rw [← hpending, FrameReader.pending_fill]
    obtain ⟨hvalues, hfailure, hrest⟩ := FrameReader.drain_scan hr
    rw [hp] at hvalues hfailure hrest
    have hpush : f.push chunk = { reader := r.drain.2.2, payloads := f.payloads ++ r.drain.1, error := r.drain.2.1 } := by
      rw [FramedRead.push, herror]
    have hfeed : s.feed OmpRelayd.payloads chunk = { OmpRelayd.payloads.scan (s.rest ++ chunk) with
        values := s.values ++ (OmpRelayd.payloads.scan (s.rest ++ chunk)).values
        taken := s.taken + (OmpRelayd.payloads.scan (s.rest ++ chunk)).taken } := by
      rw [Scanned.feed, ← h.error, herror]
    rw [hpush, hfeed]
    exact ⟨congrArg₂ _ h.payloads hvalues, hfailure, hrest⟩

/-- Reading a stream in pieces is scanning the whole of it. -/
theorem framedRead_scan (chunks : List Bytes) : (framedRead chunks).Scans (payloads.scan chunks.flatten) := by
  have hinit : ({} : FramedRead).Scans {} := by
    refine ⟨rfl, rfl, fun _ => ⟨rfl, ?_⟩⟩
    intro length heq
    cases heq
  have hfold : ∀ (chunks : List Bytes) (f : FramedRead) (s : Scanned UInt8 Bytes IoError), f.Scans s →
      (chunks.foldl FramedRead.push f).Scans (chunks.foldl (Scanned.feed payloads) s) := by
    intro chunks
    induction chunks with
    | nil => exact fun _ _ h => h
    | cons chunk chunks ih => exact fun f s h => ih _ _ (h.push chunk)
  rw [← payloads.feed_flatten]
  exact hfold chunks _ _ hinit

/-- A payload that was framed is read back. -/
theorem nextPayload_framed {payload wire : Bytes} (h : framed payload = some wire) (rest : Bytes) :
    nextPayload (wire ++ rest) = .item payload rest := by
  unfold framed at h
  by_cases hmax : maxFrameBytes < payload.length
  · simp [hmax] at h
  rw [if_neg hmax] at h
  cases h
  have hhead := length_bigEndian headBytes payload.length
  have hdeclared : declared (bigEndian headBytes payload.length ++ payload ++ rest) = payload.length := by
    rw [List.append_assoc, FrameReader.declared_pending (Nat.le_of_not_lt hmax)]
  have hlength : (bigEndian headBytes payload.length ++ payload ++ rest).length =
      headBytes + payload.length + rest.length := by
    simp only [List.length_append, hhead]
  unfold nextPayload
  rw [hdeclared, hlength, if_neg (by omega), if_neg hmax, if_neg (by omega), List.append_assoc, List.drop_left' hhead,
    List.take_left' rfl, ← List.drop_drop, List.drop_left' hhead, List.drop_left' rfl]

/-- What was read was framed. -/
theorem framed_of_nextPayload {input payload rest : Bytes} (h : nextPayload input = .item payload rest) :
    ∃ wire, framed payload = some wire ∧ input = wire ++ rest := by
  obtain ⟨hwhole, hmax, hpayload, hrest⟩ := nextPayload_item h
  have hlength : payload.length = declared input := by
    rw [hpayload, List.length_take, List.length_drop]
    omega
  refine ⟨bigEndian headBytes payload.length ++ payload, if_neg (by omega), ?_⟩
  rw [hlength, List.append_assoc, hpayload, hrest, ← List.drop_drop, List.take_append_drop,
    FrameReader.pending_taken (by omega)]

/-- A stream is these payloads, each in its frame, and then what is left. -/
def Parted (stream : Bytes) (taken : List Bytes) (left : Bytes) : Prop :=
  ∃ wires, List.Forall₂ (fun payload wire => framed payload = some wire) taken wires ∧ stream = wires.flatten ++ left

section
variable {stream left rest payload : Bytes} {taken : List Bytes}

theorem Parted.start (stream : Bytes) : Parted stream [] stream := ⟨[], .nil, rfl⟩

theorem Parted.arrive (h : Parted stream taken left) (chunk : Bytes) : Parted (stream ++ chunk) taken (left ++ chunk) := by
  obtain ⟨wires, hwires, rfl⟩ := h
  exact ⟨wires, hwires, List.append_assoc ..⟩

theorem Parted.take (h : Parted stream taken left) (hnext : nextPayload left = .item payload rest) :
    Parted stream (taken ++ [payload]) rest := by
  obtain ⟨wires, hwires, rfl⟩ := h
  obtain ⟨wire, hwire, rfl⟩ := framed_of_nextPayload hnext
  refine ⟨wires ++ [wire], List.rel_append hwires (.cons hwire .nil), ?_⟩
  simp

theorem Parted.scan (h : Parted stream taken left) :
    (payloads.scan stream).values = taken ++ (payloads.scan left).values ∧
      (payloads.scan stream).failure = (payloads.scan left).failure := by
  obtain ⟨wires, hwires, rfl⟩ := h
  induction hwires with
  | nil => exact ⟨rfl, rfl⟩
  | @cons payload wire taken wires hwire _ ih =>
    rw [List.flatten_cons, List.append_assoc, Scanner.scan_item (nextPayload_framed hwire _)]
    exact ⟨congrArg (payload :: ·) ih.1, ih.2⟩

end

/-! ## The client's end of the same stream -/

/-- How the two ends stand after the same stream. -/
structure SplitAlike (s : Scanned UInt8 Bytes IoError) (c : Scanned UInt8 Bytes Client.FramingFailure) : Prop where
  values : c.values = s.values.takeWhile (· ≠ [])
  zero : [] ∈ s.values → c.failure = some Client.zeroLength
  waits : [] ∉ s.values → s.failure = none → c.failure = none ∧ c.rest = s.rest
  refuses : [] ∉ s.values → s.failure ≠ none → ∃ n, maxFrameBytes < n ∧ c.failure = some (Client.oversized n)

theorem scan_splitAlike (input : Bytes) : SplitAlike (payloads.scan input) ((Client.frames Except.ok).scan input) := by
  induction input using payloads.scan_induction with
  | more input h =>
    have h : nextPayload input = .more := h
    have hc : (Client.frames (V := Bytes) Except.ok).next input = .more := by
      rw [Client.frames_next, Client.nextFrame]
      unfold nextPayload at h
      by_cases hhead : input.length < headBytes
      · exact if_pos hhead
      by_cases hmax : maxFrameBytes < declared input
      · simp [hhead, hmax] at h
      by_cases hwhole : input.length < headBytes + declared input
      · have hzero : declared input ≠ 0 := by omega
        exact (if_neg hhead).trans ((if_neg hzero).trans ((if_neg hmax).trans (if_pos hwhole)))
      · simp [hhead, hmax, hwhole] at h
    rw [Scanner.scan_more h, Scanner.scan_more hc]
    exact ⟨rfl, fun hm => absurd hm List.not_mem_nil, fun _ _ => ⟨rfl, rfl⟩, fun _ hne => absurd rfl hne⟩
  | refuse input error h =>
    have h : nextPayload input = .refuse error := h
    have hmax : maxFrameBytes < declared input := by
      unfold nextPayload at h
      by_cases hhead : input.length < headBytes
      · simp [hhead] at h
      by_cases hmax : maxFrameBytes < declared input
      · exact hmax
      by_cases hwhole : input.length < headBytes + declared input <;> simp [hhead, hmax, hwhole] at h
    have hc : (Client.frames (V := Bytes) Except.ok).next input = .refuse (Client.oversized (declared input)) := by
      rw [Client.frames_next, Client.nextFrame]
      unfold nextPayload at h
      by_cases hhead : input.length < headBytes
      · simp [hhead] at h
      have hzero : declared input ≠ 0 := by omega
      exact (if_neg hhead).trans ((if_neg hzero).trans (if_pos hmax))
    rw [Scanner.scan_refuse h, Scanner.scan_refuse hc]
    exact ⟨rfl, fun hm => absurd hm List.not_mem_nil, fun _ hnone => absurd hnone (Option.some_ne_none error), fun _ _ => ⟨_, hmax, rfl⟩⟩
  | item input payload rest h ih =>
    have h : nextPayload input = .item payload rest := h
    obtain ⟨hwhole, hmax, hpayload, hrest⟩ := nextPayload_item h
    have hlength : payload.length = declared input := by
      rw [hpayload, List.length_take, List.length_drop]
      omega
    have hhead : ¬ input.length < headBytes := by omega
    rw [Scanner.scan_item h]
    by_cases hzero : declared input = 0
    · have hempty : payload = [] := List.eq_nil_of_length_eq_zero (hlength.trans hzero)
      have hc : (Client.frames (V := Bytes) Except.ok).next input = .refuse Client.zeroLength := by
        rw [Client.frames_next, Client.nextFrame]
        exact (if_neg hhead).trans (if_pos hzero)
      rw [Scanner.scan_refuse hc, hempty]
      exact ⟨rfl, fun _ => rfl, fun hn => absurd List.mem_cons_self hn, fun hn => absurd List.mem_cons_self hn⟩
    · have hne : payload ≠ [] := by
        intro hempty
        rw [hempty] at hlength
        exact hzero hlength.symm
      have hc : (Client.frames (V := Bytes) Except.ok).next input = .item payload rest := by
        rw [Client.frames_next, Client.nextFrame, hpayload, hrest]
        refine (if_neg hhead).trans ((if_neg hzero).trans ((if_neg (Nat.not_lt.mpr hmax)).trans ?_))
        exact (if_neg (Nat.not_lt.mpr hwhole)).trans rfl
      rw [Scanner.scan_item hc]
      refine ⟨?_, ?_, ?_, ?_⟩
      · simp [hne, ih.values]
      · intro hm
        exact ih.zero ((List.mem_cons.mp hm).resolve_left hne.symm)
      · intro hn
        exact ih.waits fun hm => hn (List.mem_cons_of_mem _ hm)
      · intro hn
        exact ih.refuses fun hm => hn (List.mem_cons_of_mem _ hm)

/-- Whichever way one stream is cut for each of the two ends, they take the same payloads off it
    up to the first of no bytes, keep the same bytes back, and refuse the same length. -/
theorem both_ends_split_alike {relayed accumulated : List Bytes} (h : relayed.flatten = accumulated.flatten) :
    (Client.received Except.ok accumulated).values = (framedRead relayed).payloads.takeWhile (· ≠ []) ∧
    ([] ∈ (framedRead relayed).payloads →
      (Client.received (V := Bytes) Except.ok accumulated).failure = some Client.zeroLength) ∧
    ([] ∉ (framedRead relayed).payloads → (framedRead relayed).error = none →
      (Client.received (V := Bytes) Except.ok accumulated).failure = none ∧
        (Client.received (V := Bytes) Except.ok accumulated).acc.buffer = (framedRead relayed).reader.pending) ∧
    ([] ∉ (framedRead relayed).payloads → (framedRead relayed).error ≠ none →
      ∃ n, maxFrameBytes < n ∧ (Client.received (V := Bytes) Except.ok accumulated).failure = some (Client.oversized n)) := by
  have hrelay := framedRead_scan relayed
  have halike := scan_splitAlike accumulated.flatten
  rw [h] at hrelay
  rw [hrelay.payloads, Client.received_scan]
  refine ⟨halike.values, halike.zero, fun hn herror => ?_, fun hn herror => ?_⟩
  · obtain ⟨hfailure, hrest⟩ := halike.waits hn (hrelay.error.symm.trans herror)
    exact ⟨hfailure, hrest.trans (hrelay.rest herror).1.symm⟩
  · exact halike.refuses hn fun hnone => herror (hrelay.error.trans hnone)

/-- A payload of one byte and the start of a head, cut in two for the relay and in three for the client. -/
theorem one_byte_is_split_alike :
    (framedRead [[0, 0, 0], [1, 7, 0]]).payloads = [[7]] ∧
    (Client.received Except.ok [[0], [0, 0, 1], [7, 0]]).values = [[7]] ∧
    (Client.received (V := Bytes) Except.ok [[0], [0, 0, 1], [7, 0]]).failure = none ∧
    (Client.received (V := Bytes) Except.ok [[0], [0, 0, 1], [7, 0]]).acc.buffer = [0] := by
  have hpayloads : (framedRead [[0, 0, 0], [1, 7, 0]]).payloads = [[7]] := by decide +kernel
  have hpending : (framedRead [[0, 0, 0], [1, 7, 0]]).reader.pending = [0] := by decide +kernel
  obtain ⟨hvalues, -, hwaits, -⟩ := @both_ends_split_alike [[0, 0, 0], [1, 7, 0]] [[0], [0, 0, 1], [7, 0]] rfl
  rw [hpayloads] at hvalues hwaits
  obtain ⟨hfailure, hbuffer⟩ := hwaits (by decide) (by decide +kernel)
  exact ⟨hpayloads, hvalues, hfailure, hbuffer.trans hpending⟩

end OmpRelayd
