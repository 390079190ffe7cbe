/-
  OmpRelayd.Lib.MsgPack — the MessagePack format.

  A value is written as a head and what the head announces: the bytes of a string, the items
  of an array, the keys and values of a map. `Head` is what a head says, `Head.encode` spells a
  length in the shortest way, and `Head.read` reads every spelling of it. All knowledge of markers
  is in those two and in `Head.read_encode`; values are built on heads alone.

  An integer keeps the spelling it has (`IntForm`), because a reader can tell one from another;
  `Value.nat` is a number in its shortest. A string is its bytes, as the format has it; whether
  they are UTF-8 is its reader's concern. Floating-point numbers and extensions are carried as
  the bytes they are written with.

  Proved: what fits the format is read back from its encoding, whatever follows it
  (`Value.read_encode`), and a payload that is one encoding decodes to its value
  (`decode_encode`).
-/

import OmpRelayd.Lib.Bytes

namespace OmpRelayd.MsgPack

/-! ## Integers -/

/-- How many bytes follow the marker of an integer. -/
inductive Width where
  | one
  | two
  | four
  | eight
  deriving DecidableEq, Repr

def Width.bytes : Width → Nat
  | .one => 1
  | .two => 2
  | .four => 4
  | .eight => 8

/-- The spellings of an integer: in its marker, or after it. -/
inductive IntForm where
  | fixpos
  | fixneg
  | unsigned (width : Width)
  | signed (width : Width)
  deriving DecidableEq, Repr

/-- The shortest spelling of a natural number. -/
def IntForm.ofNat (n : Nat) : IntForm :=
  if n < 0x80 then .fixpos
  else if n < 256 ^ 1 then .unsigned .one
  else if n < 256 ^ 2 then .unsigned .two
  else if n < 256 ^ 4 then .unsigned .four
  else .unsigned .eight

/-- The numbers that can be spelled so. -/
def IntForm.Holds : IntForm → Int → Prop
  | .fixpos, n => 0 ≤ n ∧ n < 0x80
  | .fixneg, n => -0x20 ≤ n ∧ n < 0
  | .unsigned w, n => 0 ≤ n ∧ n < 256 ^ w.bytes
  | .signed w, n => -(256 ^ w.bytes / 2) ≤ n ∧ n < 256 ^ w.bytes / 2

theorem IntForm.holds_ofNat {n : Nat} (h : n < 2 ^ 64) : (IntForm.ofNat n).Holds n := by
  unfold IntForm.ofNat
  split
  · exact ⟨by omega, by omega⟩
  split
  · exact ⟨by omega, by simp only [Width.bytes]; omega⟩
  split
  · exact ⟨by omega, by simp only [Width.bytes]; omega⟩
  split
  · exact ⟨by omega, by simp only [Width.bytes]; omega⟩
  · exact ⟨by omega, by simp only [Width.bytes]; omega⟩

/-! ## Heads -/

inductive Head where
  | nil
  | bool (b : Bool)
  | int (form : IntForm) (n : Int)
  | float (wide : Bool)
  | str (length : Nat)
  | bin (length : Nat)
  | ext (length : Nat)
  | array (length : Nat)
  | map (length : Nat)
  deriving DecidableEq, Repr

namespace Head

def unsignedMarker : Width → UInt8
  | .one => 0xcc
  | .two => 0xcd
  | .four => 0xce
  | .eight => 0xcf

def signedMarker : Width → UInt8
  | .one => 0xd0
  | .two => 0xd1
  | .four => 0xd2
  | .eight => 0xd3

def encode : Head → Bytes
  | .nil => [0xc0]
  | .bool b => [if b then 0xc3 else 0xc2]
  | .int .fixpos n => [UInt8.ofNat n.toNat]
  | .int .fixneg n => [UInt8.ofNat (n + 0x100).toNat]
  | .int (.unsigned w) n => unsignedMarker w :: bigEndian w.bytes n.toNat
  -- in two's complement
  | .int (.signed w) n => signedMarker w :: bigEndian w.bytes (n % 256 ^ w.bytes).toNat
  | .float wide => [if wide then 0xcb else 0xca]
  | .str n =>
    if n < 0x20 then [UInt8.ofNat (0xa0 + n)]
    else if n < 256 ^ 1 then 0xd9 :: bigEndian 1 n
    else if n < 256 ^ 2 then 0xda :: bigEndian 2 n
    else 0xdb :: bigEndian 4 n
  | .bin n =>
    if n < 256 ^ 1 then 0xc4 :: bigEndian 1 n
    else if n < 256 ^ 2 then 0xc5 :: bigEndian 2 n
    else 0xc6 :: bigEndian 4 n
  | .ext n =>
    match n with
    | 1 => [0xd4]
    | 2 => [0xd5]
    | 4 => [0xd6]
    | 8 => [0xd7]
    | 16 => [0xd8]
    | n =>
      if n < 256 ^ 1 then 0xc7 :: bigEndian 1 n
      else if n < 256 ^ 2 then 0xc8 :: bigEndian 2 n
      else 0xc9 :: bigEndian 4 n
  | .array n =>
    if n < 0x10 then [UInt8.ofNat (0x90 + n)]
    else if n < 256 ^ 2 then 0xdc :: bigEndian 2 n
    else 0xdd :: bigEndian 4 n
  | .map n =>
    if n < 0x10 then [UInt8.ofNat (0x80 + n)]
    else if n < 256 ^ 2 then 0xde :: bigEndian 2 n
    else 0xdf :: bigEndian 4 n

/-- A two's complement number of `w` bytes. -/
def signed (w n : Nat) : Int := if n < 256 ^ w / 2 then n else (n : Int) - 256 ^ w

/-- A head that spells a number of `w` bytes after its marker. -/
def wide (head : Nat → Head) (w : Nat) (rest : Bytes) : Option (Head × Bytes) :=
  (readBigEndian w rest).map fun (n, rest) => (head n, rest)

/-- The heads between the fixed ones, by their markers. -/
def readMarked (marker : Nat) (rest : Bytes) : Option (Head × Bytes) :=
  match marker with
  | 0xc0 => some (.nil, rest)
  | 0xc2 => some (.bool false, rest)
  | 0xc3 => some (.bool true, rest)
  | 0xc4 => wide .bin 1 rest
  | 0xc5 => wide .bin 2 rest
  | 0xc6 => wide .bin 4 rest
  | 0xc7 => wide .ext 1 rest
  | 0xc8 => wide .ext 2 rest
  | 0xc9 => wide .ext 4 rest
  | 0xca => some (.float false, rest)
  | 0xcb => some (.float true, rest)
  | 0xcc => wide (fun n => .int (.unsigned .one) n) 1 rest
  | 0xcd => wide (fun n => .int (.unsigned .two) n) 2 rest
  | 0xce => wide (fun n => .int (.unsigned .four) n) 4 rest
  | 0xcf => wide (fun n => .int (.unsigned .eight) n) 8 rest
  | 0xd0 => wide (fun n => .int (.signed .one) (signed 1 n)) 1 rest
  | 0xd1 => wide (fun n => .int (.signed .two) (signed 2 n)) 2 rest
  | 0xd2 => wide (fun n => .int (.signed .four) (signed 4 n)) 4 rest
  | 0xd3 => wide (fun n => .int (.signed .eight) (signed 8 n)) 8 rest
  | 0xd4 => some (.ext 1, rest)
  | 0xd5 => some (.ext 2, rest)
  | 0xd6 => some (.ext 4, rest)
  | 0xd7 => some (.ext 8, rest)
  | 0xd8 => some (.ext 16, rest)
  | 0xd9 => wide .str 1 rest
  | 0xda => wide .str 2 rest
  | 0xdb => wide .str 4 rest
  | 0xdc => wide .array 2 rest
  | 0xdd => wide .array 4 rest
  | 0xde => wide .map 2 rest
  | 0xdf => wide .map 4 rest
  | _ => none

def read : Bytes → Option (Head × Bytes)
  | [] => none
  | marker :: rest =>
    let m := marker.toNat
    if m < 0x80 then some (.int .fixpos m, rest)
    else if m < 0x90 then some (.map (m - 0x80), rest)
    else if m < 0xa0 then some (.array (m - 0x90), rest)
    else if m < 0xc0 then some (.str (m - 0xa0), rest)
    else if m < 0xe0 then readMarked m rest
    else some (.int .fixneg ((m : Int) - 0x100), rest)

/-- The format can say it. -/
def Fits : Head → Prop
  | .int form n => form.Holds n
  | .str n => n < 256 ^ 4
  | .bin n => n < 256 ^ 4
  | .ext n => n < 256 ^ 4
  | .array n => n < 256 ^ 4
  | .map n => n < 256 ^ 4
  | _ => True

theorem wide_append (head : Nat → Head) {w n : Nat} (h : n < 256 ^ w) (rest : Bytes) :
    wide head w (bigEndian w n ++ rest) = some (head n, rest) := by
  simp [wide, readBigEndian_append h]

theorem signed_complement {w : Nat} {n : Int} (hle : -(256 ^ w / 2) ≤ n) (hlt : n < 256 ^ w / 2) :
    (n % 256 ^ w).toNat < 256 ^ w ∧ signed w (n % 256 ^ w).toNat = n := by
  have hpos : (0 : Int) < 256 ^ w := by positivity
  have hcast : ((256 ^ w : Nat) : Int) = 256 ^ w := by push_cast; rfl
  -- below zero the remainder is a whole turn more
  have hmod : n % 256 ^ w = if n < 0 then n + 256 ^ w else n := by
    by_cases hneg : n < 0
    · rw [if_pos hneg, ← Int.add_emod_right]
      exact Int.emod_eq_of_lt (by omega) (by omega)
    · rw [if_neg hneg]
      exact Int.emod_eq_of_lt (by omega) (by omega)
  unfold signed
  by_cases hneg : n < 0
  · rw [hmod, if_pos hneg]
    have hupper : ¬ (n + 256 ^ w).toNat < 256 ^ w / 2 := by omega
    rw [if_neg hupper]
    omega
  · rw [hmod, if_neg hneg]
    have hlower : n.toNat < 256 ^ w / 2 := by omega
    rw [if_pos hlower]
    omega

/-- A fixed head is told by the range its marker is in. -/
theorem read_fixed {m : Nat} (hm : m < 256) (rest : Bytes) : read (UInt8.ofNat m :: rest) =
    if m < 0x80 then some (.int .fixpos m, rest)
    else if m < 0x90 then some (.map (m - 0x80), rest)
    else if m < 0xa0 then some (.array (m - 0x90), rest)
    else if m < 0xc0 then some (.str (m - 0xa0), rest)
    else if m < 0xe0 then readMarked m rest
    else some (.int .fixneg ((m : Int) - 0x100), rest) := by
  simp only [read, UInt8.toNat_ofNat', Nat.mod_eq_of_lt hm]

theorem read_unsigned (w : Width) {n : Int} (h : (IntForm.unsigned w).Holds n) (rest : Bytes) :
    read (unsignedMarker w :: bigEndian w.bytes n.toNat ++ rest) = some (.int (.unsigned w) n, rest) := by
  obtain ⟨hnonneg, hlt⟩ := h
  have hcast : ((256 ^ w.bytes : Nat) : Int) = 256 ^ w.bytes := by push_cast; rfl
  have hwide := wide_append (fun n => .int (.unsigned w) n) (show n.toNat < 256 ^ w.bytes by omega) rest
  rw [Int.toNat_of_nonneg hnonneg] at hwide
  cases w <;> exact hwide

theorem read_signed (w : Width) {n : Int} (h : (IntForm.signed w).Holds n) (rest : Bytes) :
    read (signedMarker w :: bigEndian w.bytes (n % 256 ^ w.bytes).toNat ++ rest) = some (.int (.signed w) n, rest) := by
  obtain ⟨hlt, hsigned⟩ := signed_complement h.1 h.2
  have hwide := wide_append (fun m => .int (.signed w) (signed w.bytes m)) hlt rest
  rw [hsigned] at hwide
  cases w <;> exact hwide

/-- An integer is read back in the spelling it has. -/
theorem read_int {form : IntForm} {n : Int} (h : form.Holds n) (rest : Bytes) :
    read ((Head.int form n).encode ++ rest) = some (.int form n, rest) := by
  cases form with
  | fixpos =>
    obtain ⟨hnonneg, hlt⟩ := h
    rw [encode, List.singleton_append, read_fixed (by omega), if_pos (by omega), Int.toNat_of_nonneg hnonneg]
  | fixneg =>
    obtain ⟨hge, hneg⟩ := h
    rw [encode, List.singleton_append, read_fixed (by omega)]
    repeat rw [if_neg (by omega)]
    congr 3
    omega
  | unsigned w => exact read_unsigned w h rest
  | signed w => exact read_signed w h rest

/-- Every head is read back. -/
theorem read_encode (head : Head) (h : head.Fits) (rest : Bytes) : read (head.encode ++ rest) = some (head, rest) := by
  cases head with
  | nil => rfl
  | bool b => cases b <;> rfl
  | float wide => cases wide <;> rfl
  | int form n => exact read_int h rest
  | str n =>
    simp only [encode]
    split
    · rw [List.singleton_append, read_fixed (by omega)]
      repeat rw [if_neg (by omega)]
      rw [if_pos (by omega), Nat.add_sub_cancel_left]
    split
    · exact wide_append .str (by assumption) rest
    split
    · exact wide_append .str (by assumption) rest
    · exact wide_append .str h rest
  | bin n =>
    simp only [encode]
    split
    · exact wide_append .bin (by assumption) rest
    split
    · exact wide_append .bin (by assumption) rest
    · exact wide_append .bin h rest
  | ext n =>
    simp only [encode]
    split
    · rfl
    · rfl
    · rfl
    · rfl
    · rfl
    split
    · exact wide_append .ext (by assumption) rest
    split
    · exact wide_append .ext (by assumption) rest
    · exact wide_append .ext h rest
  | array n =>
    simp only [encode]
    split
    · rw [List.singleton_append, read_fixed (by omega), if_neg (by omega), if_neg (by omega), if_pos (by omega),
        Nat.add_sub_cancel_left]
    split
    · exact wide_append .array (by assumption) rest
    · exact wide_append .array h rest
  | map n =>
    simp only [encode]
    split
    · rw [List.singleton_append, read_fixed (by omega), if_neg (by omega), if_pos (by omega), Nat.add_sub_cancel_left]
    split
    · exact wide_append .map (by assumption) rest
    · exact wide_append .map h rest

theorem encode_length_pos (head : Head) : 0 < head.encode.length := by
  cases head with
  | int form n => cases form <;> simp [encode]
  | _ => (simp only [encode]; repeat' split) <;> simp

end Head

/-! ## Values -/

inductive Value where
  | nil
  | bool (b : Bool)
  | int (form : IntForm) (n : Int)
  /-- An IEEE number, as its four or eight bytes. -/
  | float (bits : Bytes)
  | str (text : Bytes)
  | bin (bytes : Bytes)
  | ext (type : UInt8) (bytes : Bytes)
  | array (items : List Value)
  | map (entries : List (Value × Value))

def Value.text (s : String) : Value := .str (utf8 s)

/-- A number, in its shortest spelling. -/
def Value.nat (n : Nat) : Value := .int (IntForm.ofNat n) n

/-- What a value's head says. -/
def Value.head : Value → Head
  | .nil => .nil
  | .bool b => .bool b
  | .int form n => .int form n
  | .float bits => .float (bits.length == 8)
  | .str text => .str text.length
  | .bin bytes => .bin bytes.length
  | .ext _ bytes => .ext bytes.length
  | .array items => .array items.length
  | .map entries => .map entries.length

mutual
/-- What comes after the head. -/
def Value.body : Value → Bytes
  | .float bits => bits
  | .str text => text
  | .bin bytes => bytes
  | .ext type bytes => type :: bytes
  | .array items => encodeItems items
  | .map entries => encodeEntries entries
  | _ => []

def encodeItems : List Value → Bytes
  | [] => []
  | v :: rest => v.head.encode ++ v.body ++ encodeItems rest

def encodeEntries : List (Value × Value) → Bytes
  | [] => []
  | (k, v) :: rest => k.head.encode ++ k.body ++ (v.head.encode ++ v.body) ++ encodeEntries rest
end

def Value.encode (v : Value) : Bytes := v.head.encode ++ v.body

mutual
/-- How deep arrays, maps and extensions are nested. -/
def Value.nesting : Value → Nat
  | .ext _ _ => 1
  | .array items => itemsNesting items + 1
  | .map entries => entriesNesting entries + 1
  | _ => 0

def itemsNesting : List Value → Nat
  | [] => 0
  | v :: rest => max v.nesting (itemsNesting rest)

def entriesNesting : List (Value × Value) → Nat
  | [] => 0
  | (k, v) :: rest => max (max k.nesting v.nesting) (entriesNesting rest)
end

/-- Neither a container nor an extension. -/
def Value.isScalar : Value → Bool
  | .ext _ _ => false
  | .array _ => false
  | .map _ => false
  | _ => true

theorem Value.nesting_of_isScalar {v : Value} (h : v.isScalar) : v.nesting = 0 := by
  cases v with
  | ext type bytes => cases h
  | array items => cases h
  | map entries => cases h
  | _ => rfl

/-! ## Lengths -/

theorem Head.length_str_le {n : Nat} (h : n < 256 ^ 1) : (Head.str n).encode.length ≤ 2 := by
  simp only [Head.encode]
  split
  · simp
  · simp

theorem Head.length_long_str_le {n : Nat} (h : n < 256 ^ 2) : (Head.str n).encode.length ≤ 3 := by
  simp only [Head.encode]
  repeat' split
  all_goals simp

theorem Head.length_array_le {n : Nat} (h : n < 256 ^ 2) : (Head.array n).encode.length ≤ 3 := by
  simp only [Head.encode]
  repeat' split
  all_goals simp

theorem Head.length_map {n : Nat} (h : n < 0x10) : (Head.map n).encode.length = 1 := by simp [Head.encode, if_pos h]

theorem Head.length_int_le (form : IntForm) (n : Int) : (Head.int form n).encode.length ≤ 9 := by
  cases form with
  | fixpos => simp [Head.encode]
  | fixneg => simp [Head.encode]
  | unsigned w => cases w <;> simp [Head.encode, Width.bytes]
  | signed w => cases w <;> simp [Head.encode, Width.bytes]

theorem Value.length_encode (v : Value) : v.encode.length = v.head.encode.length + v.body.length := List.length_append

theorem encodeItems_eq (items : List Value) : encodeItems items = items.flatMap Value.encode := by
  induction items with
  | nil => rfl
  | cons v rest ih => simp only [encodeItems, ih, List.flatMap_cons, Value.encode]

theorem encodeEntries_eq (entries : List (Value × Value)) :
    encodeEntries entries = entries.flatMap fun e => e.1.encode ++ e.2.encode := by
  induction entries with
  | nil => rfl
  | cons e rest ih => simp only [encodeEntries, ih, List.flatMap_cons, Value.encode]

/-! ## Reading -/

/-- As many as `n` says, one after the other. -/
def readMany {α : Type} (read : Bytes → Option (α × Bytes)) : Nat → Bytes → Option (List α × Bytes)
  | 0, input => some ([], input)
  | n + 1, input => do
    let (a, rest) ← read input
    let (as, rest) ← readMany read n rest
    some (a :: as, rest)

def readPair {α : Type} (read : Bytes → Option (α × Bytes)) (input : Bytes) : Option ((α × α) × Bytes) := do
  let (k, rest) ← read input
  let (v, rest) ← read rest
  some ((k, v), rest)

/-- The value at the front of the input, nested at most `depth` deep. -/
def Value.read : Nat → Bytes → Option (Value × Bytes)
  | 0, _ => none
  | depth + 1, input => do
    let (head, rest) ← Head.read input
    match head with
    | .nil => some (.nil, rest)
    | .bool b => some (.bool b, rest)
    | .int form n => some (.int form n, rest)
    | .float wide => (readBytes (if wide then 8 else 4) rest).map fun (bits, rest) => (.float bits, rest)
    | .str n => (readBytes n rest).map fun (text, rest) => (.str text, rest)
    | .bin n => (readBytes n rest).map fun (bytes, rest) => (.bin bytes, rest)
    | .ext n =>
      match rest with
      | [] => none
      | type :: rest => (readBytes n rest).map fun (bytes, rest) => (.ext type bytes, rest)
    | .array n => (readMany (Value.read depth) n rest).map fun (items, rest) => (.array items, rest)
    | .map n => (readMany (readPair (Value.read depth)) n rest).map fun (entries, rest) => (.map entries, rest)

/-- A payload that is exactly one value. -/
def decode (payload : Bytes) : Option Value :=
  match Value.read payload.length payload with
  | some (v, []) => some v
  | _ => none

/-! ## What is written is read back -/

mutual
/-- The format can say it, and all it holds. -/
def Value.Fits : Value → Prop
  | .int form n => form.Holds n
  | .float bits => bits.length = 4 ∨ bits.length = 8
  | .str text => text.length < 256 ^ 4
  | .bin bytes => bytes.length < 256 ^ 4
  | .ext _ bytes => bytes.length < 256 ^ 4
  | .array items => items.length < 256 ^ 4 ∧ ItemsFit items
  | .map entries => entries.length < 256 ^ 4 ∧ EntriesFit entries
  | _ => True

def ItemsFit : List Value → Prop
  | [] => True
  | v :: rest => v.Fits ∧ ItemsFit rest

def EntriesFit : List (Value × Value) → Prop
  | [] => True
  | (k, v) :: rest => k.Fits ∧ v.Fits ∧ EntriesFit rest
end

theorem Value.fits_nat {n : Nat} (h : n < 2 ^ 64) : (Value.nat n).Fits := IntForm.holds_ofNat h

theorem Value.Fits.head {v : Value} (h : v.Fits) : v.head.Fits := by
  cases v with
  | int form n => exact h
  | str text => exact h
  | bin bytes => exact h
  | ext type bytes => exact h
  | array items => exact h.1
  | map entries => exact h.1
  | _ => trivial

theorem Value.encode_length_pos (v : Value) : 0 < v.encode.length := by
  have := v.head.encode_length_pos
  simp only [Value.encode, List.length_append]
  omega

mutual
/-- A nesting depth of the encoding's own length is enough. -/
theorem Value.read_encode : (v : Value) → v.Fits → (depth : Nat) → v.encode.length ≤ depth → (rest : Bytes) →
    Value.read depth (v.encode ++ rest) = some (v, rest)
  | v, h, 0, hd, _ => absurd hd (by have := v.encode_length_pos; omega)
  | v, h, depth + 1, hd, rest => by
    have hpos := v.head.encode_length_pos
    simp only [Value.encode, List.length_append] at hd
    simp only [Value.encode, List.append_assoc, Value.read, Head.read_encode v.head h.head, Option.bind_eq_bind,
      Option.bind_some]
    cases v with
    | nil => rfl
    | bool b => rfl
    | int form n => rfl
    | float bits =>
      have hbits : (if (bits.length == 8) = true then 8 else 4) = bits.length := by
        rcases h with h | h <;> simp [h]
      simp only [Value.head, Value.body, hbits, readBytes_append, Option.map_some]
    | str text => simp only [Value.head, Value.body, readBytes_append, Option.map_some]
    | bin bytes => simp only [Value.head, Value.body, readBytes_append, Option.map_some]
    | ext type bytes => simp only [Value.head, Value.body, List.cons_append, readBytes_append, Option.map_some]
    | array items =>
      have hitems := readItems_encode items h.2 depth (by simp only [Value.body] at hd; omega) rest
      simp only [Value.head, Value.body, hitems, Option.map_some]
    | map entries =>
      have hentries := readEntries_encode entries h.2 depth (by simp only [Value.body] at hd; omega) rest
      simp only [Value.head, Value.body, hentries, Option.map_some]

theorem readItems_encode : (items : List Value) → ItemsFit items → (depth : Nat) → (encodeItems items).length ≤ depth →
    (rest : Bytes) → readMany (Value.read depth) items.length (encodeItems items ++ rest) = some (items, rest)
  | [], _, _, _, _ => rfl
  | v :: items, h, depth, hd, rest => by
    simp only [encodeItems, List.length_append] at hd
    have hv := v.read_encode h.1 depth (by simp only [Value.encode, List.length_append]; omega)
      (encodeItems items ++ rest)
    have hitems := readItems_encode items h.2 depth (by omega) rest
    simp only [Value.encode] at hv
    simp only [encodeItems, List.length_cons, readMany, List.append_assoc, Option.bind_eq_bind] at hv ⊢
    simp only [hv, hitems, Option.bind_some]

theorem readEntries_encode : (entries : List (Value × Value)) → EntriesFit entries → (depth : Nat) →
    (encodeEntries entries).length ≤ depth → (rest : Bytes) →
    readMany (readPair (Value.read depth)) entries.length (encodeEntries entries ++ rest) = some (entries, rest)
  | [], _, _, _, _ => rfl
  | (k, v) :: entries, h, depth, hd, rest => by
    simp only [encodeEntries, List.length_append] at hd
    have hk := k.read_encode h.1 depth (by simp only [Value.encode, List.length_append]; omega)
      (v.encode ++ (encodeEntries entries ++ rest))
    have hv := v.read_encode h.2.1 depth (by simp only [Value.encode, List.length_append]; omega)
      (encodeEntries entries ++ rest)
    have hentries := readEntries_encode entries h.2.2 depth (by omega) rest
    simp only [Value.encode, List.append_assoc] at hk hv
    simp only [encodeEntries, List.length_cons, readMany, readPair, List.append_assoc, Option.bind_eq_bind] at hk hv ⊢
    simp only [hk, hv, hentries, Option.bind_some]
end

theorem decode_encode {v : Value} (h : v.Fits) : decode v.encode = some v := by
  have hread := v.read_encode h v.encode.length (Nat.le_refl _) []
  rw [List.append_nil] at hread
  simp only [decode, hread]

end OmpRelayd.MsgPack
