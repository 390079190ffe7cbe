/-
  OmpRelayd.Blob.Encoding — the hand-written base64url (server/src/blob.rs: `BASE64URL`,
  `base64url`, `digest_of`, `digest`).

  The encoder works through its input three bytes at a time. A group is packed into 24 bits, and
  one character is taken for each six of them, less the characters that would stand for bits the
  group does not have. `none` stands for a panic: an index past the group or the table, or a
  shift by less than nothing.

  Proved (`base64url_is_faithful`): at every length the encoder returns, and its characters are
  the bits of its input regrouped by six, so the text is as long as that takes, keeps every bit,
  and is a digest to the wire's rule if 32 bytes went in.
-/

import OmpRelayd.Lib.Bits
import OmpRelayd.Lib.Bytes
import OmpRelayd.Protocol

namespace OmpRelayd.Blob

/-! ## The encoder -/

/-- `BASE64URL` -/
def base64urlTable : List Char := "ABCDEFGHIJKLMNOPQRSTUVWXYZabcdefghijklmnopqrstuvwxyz0123456789-_".toList

/-- `bytes.chunks(3)` -/
def groups : Bytes → List Bytes
  | b0 :: b1 :: b2 :: rest => [b0, b1, b2] :: groups rest
  | [] => []
  | rest => [rest]

/-- In 32 bits, as are the shifts to the left. -/
def packed (b0 b1 b2 : Nat) : Nat := ((b0 <<< 16) % 2 ^ 32 ||| (b1 <<< 8) % 2 ^ 32) ||| b2

def character (packed i : Nat) : Option Char := do
  let shift ← if 6 * i ≤ 18 then some (18 - 6 * i) else none
  base64urlTable[packed >>> shift &&& 0x3f]?

def encodeGroup (group : Bytes) : Option (List Char) := do
  let b0 ← group[0]?
  let b1 := (group[1]?.map (·.toNat)).getD 0
  let b2 := (group[2]?.map (·.toNat)).getD 0
  (List.range (group.length + 1)).mapM (character (packed b0.toNat b1 b2))

def base64url (bytes : Bytes) : Option String := do
  let encoded ← (groups bytes).mapM encodeGroup
  some (String.ofList encoded.flatten)

/-! ## What it stands for -/

def byteBits (bytes : Bytes) : List Bool := bytes.flatMap fun byte => bits 8 byte.toNat

@[simp] theorem length_byteBits (bytes : Bytes) : (byteBits bytes).length = 8 * bytes.length := by
  induction bytes with
  | nil => rfl
  | cons b bytes ih => rw [byteBits, List.flatMap_cons, List.length_append, ← byteBits, ih, length_bits, List.length_cons]; omega

theorem byteBits_append (a b : Bytes) : byteBits (a ++ b) = byteBits a ++ byteBits b := List.flatMap_append

theorem byteBits_injective {a b : Bytes} (h : byteBits a = byteBits b) : a = b := by
  induction a generalizing b with
  | nil =>
    have := congrArg List.length h
    rw [length_byteBits, length_byteBits] at this
    exact (List.eq_nil_of_length_eq_zero (by simpa using this.symm)).symm
  | cons x a ih =>
    cases b with
    | nil =>
      have := congrArg List.length h
      rw [length_byteBits, length_byteBits] at this
      simp at this
    | cons y b =>
      obtain ⟨hx, hrest⟩ := List.append_inj h (by simp)
      have hbyte := congrArg ofBits hx
      rw [ofBits_bits, ofBits_bits, Nat.mod_eq_of_lt x.toNat_lt, Nat.mod_eq_of_lt y.toNat_lt] at hbyte
      rw [UInt8.toNat_inj.1 hbyte, ih hrest]

def letter (n : Nat) : Char := base64urlTable.getD n 'A'

theorem getElem?_base64urlTable {n : Nat} (h : n < 2 ^ 6) : base64urlTable[n]? = some (letter n) := by
  have hn : n < base64urlTable.length := h
  rw [letter, List.getD_eq_getElem _ _ hn, List.getElem?_eq_getElem hn]

theorem mapM_eq_some {α β : Type} {f : α → Option β} {g : α → β} {l : List α} (h : ∀ a ∈ l, f a = some (g a)) :
    l.mapM f = some (l.map g) := by
  induction l with
  | nil => rfl
  | cons a l ih =>
    obtain ⟨ha, hl⟩ := List.forall_mem_cons.1 h
    rw [List.mapM_cons, ha, ih hl]
    rfl

/-! ## Groups -/

theorem packed_eq {b0 b1 b2 : Nat} (h0 : b0 < 2 ^ 8) (h1 : b1 < 2 ^ 8) (h2 : b2 < 2 ^ 8) :
    packed b0 b1 b2 = (b0 * 2 ^ 8 + b1) * 2 ^ 8 + b2 := by
  have hhigh : (b0 <<< 16) % 2 ^ 32 = b0 * 2 ^ 16 := by rw [Nat.shiftLeft_eq]; omega
  have hmiddle : (b1 <<< 8) % 2 ^ 32 = b1 * 2 ^ 8 := by rw [Nat.shiftLeft_eq]; omega
  have hupper : b0 * 2 ^ 16 ||| b1 * 2 ^ 8 = (b0 * 2 ^ 8 + b1) * 2 ^ 8 := by
    rw [← Nat.shiftLeft_eq b0, ← Nat.shiftLeft_add_eq_or_of_lt (by omega), Nat.shiftLeft_eq]
    omega
  rw [packed, hhigh, hmiddle, hupper, ← Nat.shiftLeft_eq _ 8, ← Nat.shiftLeft_add_eq_or_of_lt h2]

theorem bits_packed {b0 b1 b2 : Nat} (h0 : b0 < 2 ^ 8) (h1 : b1 < 2 ^ 8) (h2 : b2 < 2 ^ 8) :
    bits 24 (packed b0 b1 b2) = bits 8 b0 ++ bits 8 b1 ++ bits 8 b2 := by
  rw [packed_eq h0 h1 h2, bits_append (v := 16) (w := 8) (by omega) h2, bits_append (v := 8) (w := 8) h0 h1]

/-- The six bits that are shifted down are a digit. -/
theorem shifted_eq_digit (p : Nat) {i : Nat} (hi : i ≤ 3) : p >>> (18 - 6 * i) &&& 0x3f = digit 6 (bits 24 p) i := by
  have hmask : p >>> (18 - 6 * i) &&& 0x3f = ofBits (bits 6 (p >>> (18 - 6 * i))) := by
    rw [ofBits_bits, show (0x3f : Nat) = 2 ^ 6 - 1 from rfl, Nat.and_two_pow_sub_one_eq_mod]
  rw [hmask, digit, bits_eq_map]
  congr 1
  apply List.map_congr_left
  intro j hj
  have hj := List.mem_range.1 hj
  rw [getD_bits (by omega), Nat.testBit_shiftRight]
  congr 1
  omega

theorem character_eq (p : Nat) {i : Nat} (hi : i ≤ 3) : character p i = some (letter (digit 6 (bits 24 p) i)) := by
  rw [character, if_pos (by omega), ← getElem?_base64urlTable (digit_lt 6 _ i), ← shifted_eq_digit p hi]
  rfl

/-- The bytes that are not there are zeros. -/
theorem encodeGroup_packed {group : Bytes} (hne : group ≠ []) (hlength : group.length ≤ 3) :
    ∃ p, encodeGroup group = (List.range (group.length + 1)).mapM (character p) ∧
      bits 24 p = byteBits group ++ List.replicate (24 - 8 * group.length) false := by
  obtain _ | ⟨x, _ | ⟨y, _ | ⟨z, _ | ⟨w, rest⟩⟩⟩⟩ := group
  · exact absurd rfl hne
  · refine ⟨packed x.toNat 0 0, rfl, ?_⟩
    rw [bits_packed x.toNat_lt (by decide) (by decide)]
    simp [byteBits, bits]
  · refine ⟨packed x.toNat y.toNat 0, rfl, ?_⟩
    rw [bits_packed x.toNat_lt y.toNat_lt (by decide)]
    simp [byteBits, bits]
  · refine ⟨packed x.toNat y.toNat z.toNat, rfl, ?_⟩
    rw [bits_packed x.toNat_lt y.toNat_lt z.toNat_lt]
    simp [byteBits]
  · simp only [List.length_cons] at hlength
    omega

theorem encodeGroup_eq {group : Bytes} (hne : group ≠ []) (hlength : group.length ≤ 3) :
    encodeGroup group = some ((regroup 6 (byteBits group)).map letter) := by
  obtain ⟨p, hencode, hfilled⟩ := encodeGroup_packed hne hlength
  have hcount : ((byteBits group).length + (6 - 1)) / 6 = group.length + 1 := by
    have := List.length_pos_of_ne_nil hne
    rw [length_byteBits]
    omega
  rw [hencode, regroup, hcount, List.map_map]
  apply mapM_eq_some
  intro i hi
  have hi := List.mem_range.1 hi
  rw [character_eq p (by omega), hfilled, digit_fill]
  rfl

/-! ## The whole -/

theorem encode_eq (bytes : Bytes) :
    ∃ parts, (groups bytes).mapM encodeGroup = some parts ∧ parts.flatten = (regroup 6 (byteBits bytes)).map letter := by
  induction bytes using groups.induct with
  | case1 b0 b1 b2 rest ih =>
    obtain ⟨parts, hparts, hflat⟩ := ih
    have hgroup := encodeGroup_eq (List.cons_ne_nil b0 [b1, b2]) (Nat.le_refl 3)
    refine ⟨(regroup 6 (byteBits [b0, b1, b2])).map letter :: parts, ?_, ?_⟩
    · rw [groups, List.mapM_cons, hgroup, hparts]
      rfl
    · -- three bytes are four digits, and the rest begins a digit
      have hsplit : byteBits (b0 :: b1 :: b2 :: rest) = byteBits [b0, b1, b2] ++ byteBits rest :=
        byteBits_append [b0, b1, b2] rest
      rw [List.flatten_cons, hflat, hsplit, regroup_append (k := 4) (by decide) (by simp), List.map_append]
  | case2 => exact ⟨[], rfl, rfl⟩
  | case3 rest hlong hne =>
    have hrest : rest ≠ [] := fun h => hne h
    have hlength : rest.length ≤ 3 := by
      obtain _ | ⟨x, _ | ⟨y, _ | ⟨z, rest⟩⟩⟩ := rest
      · exact absurd rfl hrest
      · exact Nat.le_add_left 1 2
      · exact Nat.le_add_left 2 1
      · exact absurd rfl (hlong x y z rest)
    refine ⟨[(regroup 6 (byteBits rest)).map letter], ?_, List.flatten_singleton⟩
    rw [groups.eq_3 rest hlong hne, List.mapM_cons, encodeGroup_eq hrest hlength]
    rfl

/-- The input's bits, six to a character. -/
def encoded (bytes : Bytes) : String := String.ofList ((regroup 6 (byteBits bytes)).map letter)

theorem base64url_eq (bytes : Bytes) : base64url bytes = some (encoded bytes) := by
  obtain ⟨parts, hparts, hflat⟩ := encode_eq bytes
  rw [base64url, hparts, encoded, ← hflat]
  rfl

theorem letter_mem {n : Nat} (h : n < 2 ^ 6) : letter n ∈ base64urlTable := List.mem_of_getElem? (getElem?_base64urlTable h)

theorem letter_injective {m n : Nat} (hm : m < 2 ^ 6) (hn : n < 2 ^ 6) (h : letter m = letter n) : m = n := by
  have hnodup : base64urlTable.Nodup := by decide
  have hmn : base64urlTable[m]? = base64urlTable[n]? := by
    rw [getElem?_base64urlTable hm, getElem?_base64urlTable hn, h]
  exact (List.getElem?_inj hm hnodup).1 hmn

theorem regroup_lt {w n : Nat} {l : List Bool} (h : n ∈ regroup w l) : n < 2 ^ w := by
  obtain ⟨i, -, rfl⟩ := List.mem_map.1 h
  exact digit_lt w l i

theorem length_encoded (bytes : Bytes) : (encoded bytes).toList.length = (4 * bytes.length + 2) / 3 := by
  rw [encoded, String.toList_ofList, List.length_map, length_regroup, length_byteBits]
  omega

theorem mem_table_of_encoded {bytes : Bytes} {c : Char} (hc : c ∈ (encoded bytes).toList) : c ∈ base64urlTable := by
  rw [encoded, String.toList_ofList] at hc
  obtain ⟨n, hn, rfl⟩ := List.mem_map.1 hc
  exact letter_mem (regroup_lt hn)

/-- The number of characters tells the number of bytes. -/
theorem length_eq_of_encoded {a b : Nat} (h : (8 * a + (6 - 1)) / 6 = (8 * b + (6 - 1)) / 6) : a = b := by omega

theorem base64url_injective {a b : Bytes} (h : base64url a = base64url b) : a = b := by
  rw [base64url_eq, base64url_eq, Option.some.injEq, encoded, encoded, String.ofList_inj] at h
  have hlength : (byteBits a).length = (byteBits b).length := by
    have := congrArg List.length h
    simp only [List.length_map, length_regroup, length_byteBits] at this
    rw [length_byteBits, length_byteBits, length_eq_of_encoded this]
  apply byteBits_injective
  apply regroup_injective (w := 6) (by decide) hlength
  apply List.ext_getElem (by rw [length_regroup, length_regroup, hlength])
  intro i hi hi'
  have hletter : letter (regroup 6 (byteBits a))[i] = letter (regroup 6 (byteBits b))[i] := by
    have hat := congrArg (·[i]?) h
    simp only [List.getElem?_map, List.getElem?_eq_getElem hi, List.getElem?_eq_getElem hi'] at hat
    exact Option.some.inj hat
  exact letter_injective (regroup_lt (List.getElem_mem hi)) (regroup_lt (List.getElem_mem hi')) hletter

/-- A hash of 32 bytes becomes a digest to the wire's rule. -/
theorem validateDigest_encoded {bytes : Bytes} (h : bytes.length = 32) : validateDigest (encoded bytes) = .ok () := by
  have htable : ∀ c ∈ base64urlTable, isBase64Url c = true := List.all_eq_true.1 (by decide +kernel)
  have hfind : (encoded bytes).toList.find? (!isBase64Url ·) = none := by
    rw [List.find?_eq_none]
    intro c hc
    simp [htable c (mem_table_of_encoded hc)]
  have hlength : (encoded bytes).toList.length = digestChars := by
    rw [length_encoded, h]
    rfl
  simp [validateDigest, hlength, hfind]

/-- Every byte string is encoded, in a text of so many characters, each of six of its bits. -/
theorem base64url_is_faithful (bytes : Bytes) :
    ∃ text, base64url bytes = some text ∧ text.toList.length = (4 * bytes.length + 2) / 3 ∧
      (∀ c ∈ text.toList, c ∈ base64urlTable) ∧
      text.toList.map some = (regroup 6 (byteBits bytes)).map (base64urlTable[·]?) ∧
      (∀ other, base64url other = some text → other = bytes) ∧
      (bytes.length = 32 → validateDigest text = .ok ()) := by
  refine ⟨encoded bytes, base64url_eq bytes, length_encoded bytes, fun c hc => mem_table_of_encoded hc, ?_, ?_,
    validateDigest_encoded⟩
  · rw [encoded, String.toList_ofList, List.map_map]
    apply List.map_congr_left
    intro n hn
    exact (getElem?_base64urlTable (regroup_lt hn)).symm
  · intro other hother
    exact base64url_injective (hother.trans (base64url_eq bytes).symm)

example : base64url [0xfb, 0xff] = some "-_8" := by decide +kernel

end OmpRelayd.Blob
