/-
  OmpRelayd.Lib.Bits — numbers as lists of bits, and a list of bits cut into digits.

  Bits are written most significant first. `regroup w` reads a list of bits as digits of `w`
  bits each, and fills the last digit up with zeros: digit `i` is made of the bits from `w * i`
  on. A list whose length is a multiple of `w` is regrouped by itself (`regroup_append`), so a
  program that works through its input in such pieces regroups all of it; and the digits keep
  every bit (`regroup_injective`).
-/

import Mathlib

namespace OmpRelayd

/-! ## Bits of a number -/

/-- The low `w` bits. -/
def bits : Nat → Nat → List Bool
  | 0, _ => []
  | w + 1, n => n.testBit w :: bits w n

def ofBits : List Bool → Nat
  | [] => 0
  | b :: l => b.toNat * 2 ^ l.length + ofBits l

@[simp] theorem length_bits (w n : Nat) : (bits w n).length = w := by
  induction w with
  | zero => rfl
  | succ w ih => rw [bits, List.length_cons, ih]

theorem ofBits_lt (l : List Bool) : ofBits l < 2 ^ l.length := by
  induction l with
  | nil => exact Nat.one_pos
  | cons b l ih =>
    have hb := b.toNat_le
    have : b.toNat * 2 ^ l.length ≤ 1 * 2 ^ l.length := Nat.mul_le_mul_right _ hb
    rw [ofBits, List.length_cons, Nat.pow_succ]
    omega

theorem ofBits_bits (w n : Nat) : ofBits (bits w n) = n % 2 ^ w := by
  induction w with
  | zero => rw [Nat.pow_zero, Nat.mod_one]; rfl
  | succ w ih =>
    have htop : (n.testBit w).toNat = n / 2 ^ w % 2 := Nat.toNat_testBit n w
    rw [bits, ofBits, length_bits, ih, htop, Nat.pow_succ, Nat.mod_mul, Nat.mul_comm, Nat.add_comm]

theorem ofBits_injective {l l' : List Bool} (hlength : l.length = l'.length) (h : ofBits l = ofBits l') : l = l' := by
  induction l generalizing l' with
  | nil => exact (List.eq_nil_of_length_eq_zero hlength.symm).symm
  | cons b l ih =>
    cases l' with
    | nil => cases hlength
    | cons b' l' =>
      have hlength : l.length = l'.length := Nat.succ.inj hlength
      have hl := ofBits_lt l
      have hl' := ofBits_lt l'
      rw [ofBits, ofBits, hlength] at h
      rw [hlength] at hl
      have hb : b = b' ∧ ofBits l = ofBits l' := by
        cases b <;> cases b' <;> simp only [Bool.toNat_true, Bool.toNat_false] at h <;> simp <;> omega
      rw [hb.1, ih hlength hb.2]

theorem ofBits_append (l l' : List Bool) : ofBits (l ++ l') = ofBits l * 2 ^ l'.length + ofBits l' := by
  induction l with
  | nil => simp [ofBits]
  | cons b l ih =>
    rw [List.cons_append, ofBits, ih, ofBits, List.length_append, Nat.pow_add]
    ring

/-- The bits of a number put together from two. -/
theorem bits_append {v w m n : Nat} (hm : m < 2 ^ v) (hn : n < 2 ^ w) : bits (v + w) (m * 2 ^ w + n) = bits v m ++ bits w n := by
  apply ofBits_injective
  · simp
  · have hlt : m * 2 ^ w + n < 2 ^ (v + w) := by
      have : (m + 1) * 2 ^ w ≤ 2 ^ v * 2 ^ w := Nat.mul_le_mul_right _ hm
      rw [Nat.pow_add]
      rw [Nat.add_mul, Nat.one_mul] at this
      omega
    rw [ofBits_append, length_bits, ofBits_bits, ofBits_bits, ofBits_bits, Nat.mod_eq_of_lt hm, Nat.mod_eq_of_lt hn,
      Nat.mod_eq_of_lt hlt]

theorem getD_bits {w n i : Nat} (hi : i < w) : (bits w n).getD i false = n.testBit (w - 1 - i) := by
  induction w generalizing i with
  | zero => omega
  | succ w ih =>
    cases i with
    | zero => rfl
    | succ i =>
      rw [bits, List.getD_cons_succ, ih (by omega)]
      congr 1
      omega

theorem bits_eq_map (w n : Nat) : bits w n = (List.range w).map fun j => n.testBit (w - 1 - j) := by
  apply List.ext_getElem
  · simp
  · intro i hi _
    rw [length_bits] at hi
    rw [List.getElem_map, List.getElem_range, ← getD_bits hi, List.getD_eq_getElem _ _ (by simpa using hi)]

/-! ## Digits -/

/-- Digit `i`, of bits that may have ended. -/
def digit (w : Nat) (l : List Bool) (i : Nat) : Nat := ofBits ((List.range w).map fun j => l.getD (w * i + j) false)

def regroup (w : Nat) (l : List Bool) : List Nat := (List.range ((l.length + (w - 1)) / w)).map (digit w l)

@[simp] theorem length_regroup (w : Nat) (l : List Bool) : (regroup w l).length = (l.length + (w - 1)) / w := by
  simp [regroup]

theorem digit_lt (w : Nat) (l : List Bool) (i : Nat) : digit w l i < 2 ^ w := by
  have := ofBits_lt ((List.range w).map fun j => l.getD (w * i + j) false)
  rwa [List.length_map, List.length_range] at this

/-- Bits that are zero where others have ended make no difference. -/
theorem digit_fill (w : Nat) (l : List Bool) (m i : Nat) : digit w (l ++ List.replicate m false) i = digit w l i := by
  unfold digit
  congr 1
  apply List.map_congr_left
  intro j _
  by_cases h : w * i + j < l.length
  · rw [List.getD_append _ _ _ _ h]
  · have hended : l.getD (w * i + j) false = false := List.getD_eq_default _ _ (by omega)
    rw [List.getD_append_right _ _ _ _ (by omega), hended, List.getD_eq_getElem?_getD, List.getElem?_replicate]
    split <;> rfl

theorem digit_append_left {w k i : Nat} {a : List Bool} (ha : a.length = w * k) (hi : i < k) (l : List Bool) :
    digit w (a ++ l) i = digit w a i := by
  unfold digit
  congr 1
  apply List.map_congr_left
  intro j hj
  have hj := List.mem_range.1 hj
  have hlt : w * i + j < a.length := by
    have : w * (i + 1) ≤ w * k := Nat.mul_le_mul_left w hi
    rw [Nat.mul_add, Nat.mul_one] at this
    omega
  rw [List.getD_append _ _ _ _ hlt]

theorem digit_append_right {w k : Nat} {a : List Bool} (ha : a.length = w * k) (l : List Bool) (i : Nat) :
    digit w (a ++ l) (k + i) = digit w l i := by
  unfold digit
  congr 1
  apply List.map_congr_left
  intro j _
  rw [Nat.mul_add, List.getD_append_right _ _ _ _ (by omega)]
  congr 1
  omega

theorem regroup_append {w k : Nat} (hw : 0 < w) {a : List Bool} (ha : a.length = w * k) (l : List Bool) :
    regroup w (a ++ l) = regroup w a ++ regroup w l := by
  have hcount : (a.length + (w - 1)) / w = k := by
    rw [ha, Nat.mul_add_div hw, Nat.div_eq_of_lt (by omega), Nat.add_zero]
  have hall : ((a ++ l).length + (w - 1)) / w = k + (l.length + (w - 1)) / w := by
    rw [List.length_append, ha, Nat.add_assoc, Nat.mul_add_div hw]
  rw [regroup, regroup, regroup, hall, hcount, List.range_add, List.map_append, List.map_map]
  congr 1
  · apply List.map_congr_left
    intro i hi
    exact digit_append_left ha (List.mem_range.1 hi) l
  · apply List.map_congr_left
    intro i _
    exact digit_append_right ha l i

/-- No bit is lost. -/
theorem regroup_injective {w : Nat} (hw : 0 < w) {l l' : List Bool} (hlength : l.length = l'.length)
    (h : regroup w l = regroup w l') : l = l' := by
  have hdigit : ∀ i < (l.length + (w - 1)) / w, digit w l i = digit w l' i := by
    intro i hi
    rw [regroup, regroup, ← hlength] at h
    exact List.map_inj_left.1 h i (List.mem_range.2 hi)
  apply List.ext_getElem hlength
  intro p hp hp'
  -- the bit is in digit `p / w`, which is one of them
  have hmod := Nat.mod_lt p hw
  have hsplit := Nat.div_add_mod p w
  have hlast : p / w < (l.length + (w - 1)) / w := by
    have : p / w + 1 = (p + w) / w := (Nat.add_div_right p hw).symm
    have : (p + w) / w ≤ (l.length + (w - 1)) / w := Nat.div_le_div_right (by omega)
    omega
  have hbits := ofBits_injective (by simp) (hdigit (p / w) hlast)
  have hbit := List.map_inj_left.1 hbits (p % w) (List.mem_range.2 hmod)
  rwa [hsplit, List.getD_eq_getElem _ _ hp, List.getD_eq_getElem _ _ hp'] at hbit

end OmpRelayd
