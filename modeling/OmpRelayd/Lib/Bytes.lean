/-
  OmpRelayd.Lib.Bytes — byte strings: UTF-8 text, big-endian numbers, and reading a prefix.

  A reader takes what it reads off the front of its input and leaves the rest, or fails. Each
  writer here has a reader, and each pair its law: what was written is read back, and what
  follows it is left.
-/

import Mathlib

namespace OmpRelayd

abbrev Bytes := List UInt8

/-- What can be checked of every byte is checked 256 times. -/
theorem forall_byte {P : UInt8 → Prop} (h : ∀ n : Fin 256, P (UInt8.ofNat n)) (b : UInt8) : P b := by
  have := h ⟨b.toNat, b.toNat_lt⟩
  rwa [UInt8.ofNat_toNat] at this

/-! ## Text -/

def utf8 (text : String) : Bytes := text.toByteArray.data.toList

def ofUtf8 (bytes : Bytes) : Option String := String.fromUTF8? ⟨bytes.toArray⟩

@[simp] theorem length_utf8 (text : String) : (utf8 text).length = text.utf8ByteSize := Array.length_toList

@[simp] theorem ofUtf8_utf8 (text : String) : ofUtf8 (utf8 text) = some text := by
  have heq : (⟨(utf8 text).toArray⟩ : ByteArray) = text.toByteArray := ByteArray.ext Array.toArray_toList
  simp only [ofUtf8, heq, String.fromUTF8?, dif_pos text.isValidUTF8]
  rfl

theorem utf8_injective {s t : String} (h : utf8 s = utf8 t) : s = t := by
  have hs := ofUtf8_utf8 s
  rw [h, ofUtf8_utf8] at hs
  exact (Option.some.inj hs).symm

theorem utf8_of_ofUtf8 {bytes : Bytes} {text : String} (h : ofUtf8 bytes = some text) : utf8 text = bytes := by
  simp only [ofUtf8, String.fromUTF8?] at h
  split at h
  · cases h; rfl
  · cases h

theorem utf8_eq_flatMap (text : String) : utf8 text = text.toList.flatMap String.utf8EncodeChar := by
  have hbytes : text.toByteArray = text.toList.utf8Encode := by
    rw [← String.toByteArray_ofList, String.ofList_toList]
  simp [utf8, hbytes, List.utf8Encode]

theorem utf8_ofList_cons (c : Char) (rest : List Char) :
    utf8 (String.ofList (c :: rest)) = String.utf8EncodeChar c ++ utf8 (String.ofList rest) := by
  simp [utf8_eq_flatMap]

/-- The first bytes of a text tell its first character. -/
theorem eq_of_begins_alike {c d : Char} {rest : Bytes}
    (h : String.utf8EncodeChar c <+: String.utf8EncodeChar d ++ rest) : c = d := by
  obtain ⟨rest', heq⟩ := h
  have hread : ∀ (c : Char) (rest : Bytes), (String.utf8EncodeChar c ++ rest).toByteArray.utf8DecodeChar? 0 = some c := by
    intro c rest
    rw [List.toByteArray_append, ByteArray.utf8DecodeChar?_utf8EncodeChar_append]
  have hc := hread c rest'
  rw [heq, hread] at hc
  exact (Option.some.inj hc).symm

/-! ## Prefixes -/

/-- The first `n` bytes. -/
def readBytes (n : Nat) (input : Bytes) : Option (Bytes × Bytes) :=
  if input.length < n then none else some (input.take n, input.drop n)

@[simp] theorem readBytes_append (bytes rest : Bytes) : readBytes bytes.length (bytes ++ rest) = some (bytes, rest) := by
  simp [readBytes]

theorem readBytes_of_length {n : Nat} {bytes : Bytes} (h : bytes.length = n) (rest : Bytes) :
    readBytes n (bytes ++ rest) = some (bytes, rest) := by
  rw [← h, readBytes_append]

/-! ## Numbers -/

/-- The low `w` bytes of `n`, most significant first. -/
def bigEndian : Nat → Nat → Bytes
  | 0, _ => []
  | w + 1, n => bigEndian w (n / 256) ++ [UInt8.ofNat n]

def ofBigEndian (bytes : Bytes) : Nat := bytes.foldl (fun n byte => n * 256 + byte.toNat) 0

@[simp] theorem length_bigEndian (w n : Nat) : (bigEndian w n).length = w := by
  induction w generalizing n with
  | zero => rfl
  | succ w ih => simp [bigEndian, ih]

theorem ofBigEndian_bigEndian {w n : Nat} (h : n < 256 ^ w) : ofBigEndian (bigEndian w n) = n := by
  induction w generalizing n with
  | zero => simp at h; simp [bigEndian, ofBigEndian, h]
  | succ w ih =>
    have hdiv : n / 256 < 256 ^ w := Nat.div_lt_of_lt_mul (by rwa [Nat.pow_succ'] at h)
    have := ih hdiv
    simp only [ofBigEndian, bigEndian, List.foldl_append, List.foldl_cons, List.foldl_nil] at this ⊢
    rw [this, UInt8.toNat_ofNat']
    omega

theorem bigEndian_ofBigEndian (bytes : Bytes) : bigEndian bytes.length (ofBigEndian bytes) = bytes := by
  induction bytes using List.reverseRecOn with
  | nil => rfl
  | append_singleton bytes byte ih =>
    have hbyte : byte.toNat < 256 := byte.toNat_lt
    have hvalue : ofBigEndian (bytes ++ [byte]) = ofBigEndian bytes * 256 + byte.toNat := by
      simp only [ofBigEndian, List.foldl_append, List.foldl_cons, List.foldl_nil]
    have hdiv : (ofBigEndian bytes * 256 + byte.toNat) / 256 = ofBigEndian bytes := by omega
    have hlow : UInt8.ofNat (ofBigEndian bytes * 256 + byte.toNat) = byte := by
      rw [← UInt8.toNat_inj, UInt8.toNat_ofNat']
      omega
    rw [List.length_append, List.length_singleton, hvalue, bigEndian, hdiv, hlow, ih]

def readBigEndian (w : Nat) (input : Bytes) : Option (Nat × Bytes) :=
  (readBytes w input).map fun (bytes, rest) => (ofBigEndian bytes, rest)

theorem readBigEndian_append {w n : Nat} (h : n < 256 ^ w) (rest : Bytes) :
    readBigEndian w (bigEndian w n ++ rest) = some (n, rest) := by
  simp [readBigEndian, readBytes_of_length (length_bigEndian w n), ofBigEndian_bigEndian h]

end OmpRelayd
