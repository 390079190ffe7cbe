/-
  OmpRelayd.Limits — how long the texts of a frame can be.

  Every bound the relay puts on a frame it builds comes from here: what a value that passed
  its check measures, what a clamped one does, and how long a rejection's own text is. A
  rejection quotes at most one character and two numbers, so it is short whatever was
  rejected, as long as the rejected value came in a frame.
-/

import Mathlib
import OmpRelayd.Protocol

namespace OmpRelayd

/-! ## Values that passed -/

theorem validateIdentifier_ok {value : String} (h : validateIdentifier value = .ok ()) :
    value ≠ "" ∧ value.utf8ByteSize ≤ maxIdentifierBytes := by
  unfold validateIdentifier at h
  split at h
  · cases h
  · rename_i hne
    split at h
    · cases h
    · rename_i hle
      exact ⟨fun he => hne (he ▸ rfl), Nat.le_of_not_lt hle⟩

theorem validateCorrelationId_ok {value : String} (h : validateCorrelationId value = .ok ()) :
    value ≠ "" ∧ value.utf8ByteSize ≤ maxCorrelationBytes := by
  unfold validateCorrelationId at h
  split at h
  · cases h
  · rename_i hne
    split at h
    · cases h
    · rename_i hle
      exact ⟨fun he => hne (he ▸ rfl), Nat.le_of_not_lt hle⟩

theorem bodyOverBudget_none {body : String} (h : bodyOverBudget body = none) : body.utf8ByteSize ≤ maxBodyBytes := by
  unfold bodyOverBudget at h
  split at h
  · cases h
  · rename_i hle; exact Nat.le_of_not_lt hle

theorem validateDigest_ok {value : String} (h : validateDigest value = .ok ()) :
    value.toList.length = digestChars ∧ ∀ c ∈ value.toList, isBase64Url c = true := by
  unfold validateDigest at h
  simp only at h
  split at h
  · cases h
  · rename_i hlength
    split at h
    · cases h
    · rename_i hnone
      refine ⟨not_not.mp hlength, fun c hc => ?_⟩
      simpa using List.find?_eq_none.mp hnone c hc

theorem isBase64Url_utf8Size {c : Char} (h : isBase64Url c = true) : c.utf8Size = 1 := by
  rw [Char.utf8Size_eq_one_iff]
  simp only [isBase64Url, Char.isAlphanum, Char.isAlpha, Char.isUpper, Char.isLower, Char.isDigit, Bool.or_eq_true,
    Bool.and_eq_true, decide_eq_true_eq, beq_iff_eq] at h
  rcases h with ((((⟨-, h⟩ | ⟨-, h⟩) | ⟨-, h⟩) | rfl) | rfl)
  · exact UInt32.le_trans h (by decide)
  · exact UInt32.le_trans h (by decide)
  · exact UInt32.le_trans h (by decide)
  · decide
  · decide

theorem utf8Len_eq_length {cs : List Char} (h : ∀ c ∈ cs, c.utf8Size = 1) : String.utf8Len cs = cs.length := by
  induction cs with
  | nil => rfl
  | cons c cs ih =>
    rw [String.utf8Len_cons, ih fun d hd => h d (List.mem_cons_of_mem c hd), h c List.mem_cons_self, List.length_cons]

theorem utf8ByteSize_eq_utf8Len (s : String) : s.utf8ByteSize = String.utf8Len s.toList := by
  rw [← String.utf8ByteSize_ofList, String.ofList_toList]

/-- A digest is as many bytes as it is characters. -/
theorem validateDigest_size {value : String} (h : validateDigest value = .ok ()) : value.utf8ByteSize = digestChars := by
  obtain ⟨hlength, hchars⟩ := validateDigest_ok h
  rw [utf8ByteSize_eq_utf8Len, utf8Len_eq_length fun c hc => isBase64Url_utf8Size (hchars c hc), hlength]

/-! ## Clamped values -/

theorem utf8Len_takeBytes (limit : Nat) (cs : List Char) : String.utf8Len (takeBytes limit cs) ≤ limit := by
  induction cs generalizing limit with
  | nil => exact Nat.zero_le _
  | cons c cs ih =>
    simp only [takeBytes]
    split
    · have := ih (limit - c.utf8Size)
      rw [String.utf8Len_cons]
      omega
    · exact Nat.zero_le _

theorem truncateBytes_le (limit : Nat) (value : String) : (truncateBytes limit value).utf8ByteSize ≤ limit := by
  unfold truncateBytes
  split
  · rw [String.utf8ByteSize_ofList]; exact utf8Len_takeBytes limit _
  · rename_i h; exact Nat.le_of_not_lt h

/-! ## Rejections -/

/-- `Debug` of a character, by which characters are printable. -/
def debugChar (printable : Char → Bool) (c : Char) : String :=
  let escaped :=
    if c = '\x00' then "\\0"
    else if c = '\t' then "\\t"
    else if c = '\r' then "\\r"
    else if c = '\n' then "\\n"
    else if c = '\\' then "\\\\"
    else if c = '\'' then "\\'"
    else if printable c then String.singleton c
    else "\\u\x7b" ++ String.ofList (Nat.toDigits 16 c.toNat) ++ "\x7d"
  "'" ++ escaped ++ "'"

theorem utf8Len_le (cs : List Char) : String.utf8Len cs ≤ 4 * cs.length := by
  induction cs with
  | nil => exact Nat.zero_le _
  | cons c cs ih =>
    have := c.utf8Size_le_four
    rw [String.utf8Len_cons, List.length_cons]
    omega

theorem debugChar_size (printable : Char → Bool) (c : Char) : (debugChar printable c).utf8ByteSize ≤ 32 := by
  have hdigits : (String.ofList (Nat.toDigits 16 c.toNat)).utf8ByteSize ≤ 24 := by
    have hchar : c.toNat < 16 ^ 6 := by
      have hvalid : c.toNat < 0xd800 ∨ 0xdfff < c.toNat ∧ c.toNat < 0x110000 := c.valid
      omega
    have hlength := Nat.toDigits_length 16 c.toNat 6 (by decide) hchar
    rw [String.utf8ByteSize_ofList]
    have := utf8Len_le (Nat.toDigits 16 c.toNat)
    omega
  have hsingle : (String.singleton c).utf8ByteSize ≤ 4 := by
    rw [String.utf8ByteSize_singleton]; exact c.utf8Size_le_four
  simp only [debugChar, String.utf8ByteSize_append]
  have hquote : "'".utf8ByteSize = 1 := rfl
  repeat' split
  all_goals first
    | omega
    | (simp only [String.utf8ByteSize_append]
       have hopen : "\\u\x7b".utf8ByteSize = 3 := rfl
       have hclose : "\x7d".utf8ByteSize = 1 := rfl
       omega)
    | decide

theorem toString_size {n k : Nat} (hk : 0 < k) (h : n < 10 ^ k) : (toString n).utf8ByteSize ≤ 4 * k := by
  have hlength : (toString n).toList.length ≤ k := Nat.repr_length n k hk h
  have := utf8Len_le (toString n).toList
  rw [utf8ByteSize_eq_utf8Len]
  omega

theorem length_le_utf8Len (cs : List Char) : cs.length ≤ String.utf8Len cs := by
  induction cs with
  | nil => exact Nat.zero_le _
  | cons c cs ih =>
    have := c.utf8Size_pos
    rw [String.utf8Len_cons, List.length_cons]
    omega

/-- The most bytes a rejection's reason takes. -/
def maxReasonBytes : Nat := 128

section
variable {printable : Char → Bool} {value : String}

theorem tooLong_size {limit found : Nat} (hlimit : limit < 10 ^ 5) (hfound : found < 10 ^ 5) :
    ((IdentifierError.tooLong limit found).text (debugChar printable)).utf8ByteSize ≤ maxReasonBytes := by
  have hl := toString_size (by decide) hlimit
  have hf := toString_size (by decide) hfound
  have h1 : (toString "must be at most ").utf8ByteSize = 16 := rfl
  have h2 : (toString " UTF-8 bytes, found ").utf8ByteSize = 20 := rfl
  unfold IdentifierError.text maxReasonBytes
  dsimp only
  rw [String.utf8ByteSize_append, String.utf8ByteSize_append, String.utf8ByteSize_append]
  omega

theorem wrongLength_size {found : Nat} (hfound : found < 10 ^ 5) :
    ((DigestError.wrongLength found).text (debugChar printable)).utf8ByteSize ≤ maxReasonBytes := by
  have hd : (toString digestChars).utf8ByteSize ≤ 4 * 5 := toString_size (by decide) (by decide)
  have hf := toString_size (by decide) hfound
  have h1 : (toString "must be exactly ").utf8ByteSize = 16 := rfl
  have h2 : (toString " characters, found ").utf8ByteSize = 19 := rfl
  unfold DigestError.text maxReasonBytes
  dsimp only
  rw [String.utf8ByteSize_append, String.utf8ByteSize_append, String.utf8ByteSize_append]
  omega

theorem notBase64Url_size (character : Char) :
    ((DigestError.notBase64Url character).text (debugChar printable)).utf8ByteSize ≤ maxReasonBytes := by
  have hquoted := debugChar_size printable character
  have h1 : "contains ".utf8ByteSize = 9 := rfl
  have h2 : ", which is not unpadded base64url".utf8ByteSize = 33 := rfl
  unfold DigestError.text maxReasonBytes
  dsimp only
  rw [String.utf8ByteSize_append, String.utf8ByteSize_append]
  omega

theorem correlationId_reason_size {error : IdentifierError} (h : validateCorrelationId value = .error error)
    (hv : value.utf8ByteSize ≤ maxFrameBytes) : (error.text (debugChar printable)).utf8ByteSize ≤ maxReasonBytes := by
  unfold validateCorrelationId at h
  split at h
  · obtain rfl := Except.error.inj h
    exact Nat.le_of_ble_eq_true rfl
  · split at h
    · obtain rfl := Except.error.inj h
      exact tooLong_size (by decide) (Nat.lt_of_le_of_lt hv (by decide))
    · cases h

theorem digest_reason_size {error : DigestError} (h : validateDigest value = .error error)
    (hv : value.utf8ByteSize ≤ maxFrameBytes) : (error.text (debugChar printable)).utf8ByteSize ≤ maxReasonBytes := by
  have hlength : value.toList.length ≤ maxFrameBytes :=
    Nat.le_trans (length_le_utf8Len _) (utf8ByteSize_eq_utf8Len value ▸ hv)
  unfold validateDigest at h
  simp only at h
  split at h
  · obtain rfl := Except.error.inj h
    exact wrongLength_size (Nat.lt_of_le_of_lt hlength (by decide))
  · split at h
    · obtain rfl := Except.error.inj h
      exact notBase64Url_size _
    · cases h

end

end OmpRelayd
