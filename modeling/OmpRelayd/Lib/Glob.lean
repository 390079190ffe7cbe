/-
  OmpRelayd.Lib.Glob — shell patterns, and what the expansions of a parameter remove by them.

  A pattern is a list of items: one character of some kind, or any number of any. A `case` asks
  whether a text fits a pattern; `${s#p}` and `${s##p}` remove the shortest and the longest prefix
  that fits, `${s%p}` and `${s%%p}` the suffix. All four leave the text as it is if nothing fits.

  The patterns a script uses come in few shapes, and each has its law: what begins or ends with
  some character is removed up to its first or last.
-/

import Mathlib

namespace OmpRelayd.Glob

variable {α : Type}

inductive Item (α : Type) where
  | one (p : α → Bool)
  /-- `*` -/
  | many

abbrev Pattern (α : Type) := List (Item α)

/-- The text itself. -/
def exactly [BEq α] (text : List α) : Pattern α := text.map fun a => .one (· == a)

def fits : Pattern α → List α → Bool
  | [], s => s.isEmpty
  | .one _ :: _, [] => false
  | .one p :: rest, a :: s => p a && fits rest s
  | .many :: rest, s => s.tails.any (fits rest)

/-! ## Removals -/

/-- `${s#p}` -/
def cutShortestPrefix (p : Pattern α) (s : List α) : List α :=
  match (List.range (s.length + 1)).find? fun i => fits p (s.take i) with
  | some i => s.drop i
  | none => s

/-- `${s##p}` -/
def cutLongestPrefix (p : Pattern α) (s : List α) : List α :=
  match (List.range (s.length + 1)).find? fun i => fits p (s.take (s.length - i)) with
  | some i => s.drop (s.length - i)
  | none => s

/-- `${s%p}` -/
def cutShortestSuffix (p : Pattern α) (s : List α) : List α :=
  match (List.range (s.length + 1)).find? fun i => fits p (s.drop (s.length - i)) with
  | some i => s.take (s.length - i)
  | none => s

/-- `${s%%p}` -/
def cutLongestSuffix (p : Pattern α) (s : List α) : List α :=
  match (List.range (s.length + 1)).find? fun i => fits p (s.drop i) with
  | some i => s.take i
  | none => s

/-! ## What fits -/

theorem fits_many_cons {rest : Pattern α} {s : List α} :
    fits (.many :: rest) s = true ↔ ∃ front back, s = front ++ back ∧ fits rest back = true := by
  rw [fits, List.any_eq_true]
  constructor
  · intro h
    obtain ⟨back, hback, hfits⟩ := h
    obtain ⟨front, rfl⟩ := (List.mem_tails _ _).1 hback
    exact ⟨front, back, rfl, hfits⟩
  · intro h
    obtain ⟨front, back, rfl, hfits⟩ := h
    exact ⟨back, (List.mem_tails _ _).2 (List.suffix_append front back), hfits⟩

@[simp] theorem fits_many (s : List α) : fits [.many] s = true := fits_many_cons.2 ⟨s, [], (List.append_nil s).symm, rfl⟩

theorem fits_one_cons {p : α → Bool} {rest : Pattern α} {s : List α} :
    fits (.one p :: rest) s = true ↔ ∃ a back, s = a :: back ∧ p a = true ∧ fits rest back = true := by
  cases s with
  | nil => simp [fits]
  | cons a s => simp [fits]

/-- `text` and then the rest -/
theorem fits_exactly_append [BEq α] [LawfulBEq α] {text : List α} {rest : Pattern α} {s : List α} :
    fits (exactly text ++ rest) s = true ↔ ∃ back, s = text ++ back ∧ fits rest back = true := by
  induction text generalizing s with
  | nil => simp [exactly]
  | cons a text ih =>
    have hcons : exactly (a :: text) ++ rest = .one (· == a) :: (exactly text ++ rest) := rfl
    rw [hcons, fits_one_cons]
    constructor
    · intro h
      obtain ⟨b, tail, rfl, hb, htail⟩ := h
      obtain ⟨back, rfl, hback⟩ := ih.1 htail
      exact ⟨back, by rw [beq_iff_eq.1 hb, List.cons_append], hback⟩
    · intro h
      obtain ⟨back, rfl, hback⟩ := h
      exact ⟨a, text ++ back, rfl, beq_self_eq_true a, ih.2 ⟨back, rfl, hback⟩⟩

theorem fits_exactly [BEq α] [LawfulBEq α] {text s : List α} : fits (exactly text) s = true ↔ s = text := by
  rw [← List.append_nil (exactly text), fits_exactly_append]
  constructor
  · intro h
    obtain ⟨back, rfl, hnil⟩ := h
    rw [List.isEmpty_iff.1 hnil, List.append_nil]
  · intro h
    exact ⟨[], by rw [h, List.append_nil], rfl⟩

/-- `p*` -/
theorem fits_begins {p : α → Bool} {s : List α} : fits [.one p, .many] s = true ↔ ∃ a back, s = a :: back ∧ p a = true := by
  rw [fits_one_cons]
  simp

/-- `*p` -/
theorem fits_ends {p : α → Bool} {s : List α} : fits [.many, .one p] s = true ↔ ∃ front a, s = front ++ [a] ∧ p a = true := by
  rw [fits_many_cons]
  constructor
  · intro h
    obtain ⟨front, tail, rfl, htail⟩ := h
    obtain ⟨a, back, rfl, ha, hnil⟩ := fits_one_cons.1 htail
    cases List.isEmpty_iff.1 hnil
    exact ⟨front, a, rfl, ha⟩
  · intro h
    obtain ⟨front, a, rfl, ha⟩ := h
    exact ⟨front, [a], rfl, fits_one_cons.2 ⟨a, [], rfl, ha, rfl⟩⟩

/-- `*p*` -/
theorem fits_has {p : α → Bool} {s : List α} : fits [.many, .one p, .many] s = true ↔ ∃ a ∈ s, p a = true := by
  rw [fits_many_cons]
  constructor
  · intro h
    obtain ⟨front, tail, rfl, htail⟩ := h
    obtain ⟨a, back, rfl, ha⟩ := fits_begins.1 htail
    exact ⟨a, List.mem_append_right front List.mem_cons_self, ha⟩
  · intro h
    obtain ⟨a, hmem, ha⟩ := h
    obtain ⟨front, back, rfl⟩ := List.append_of_mem hmem
    exact ⟨front, a :: back, rfl, fits_begins.2 ⟨a, back, rfl, ha⟩⟩

/-! ## What is removed -/

theorem cutShortestPrefix_eq {p : Pattern α} {front : List α} (back : List α) (hfits : fits p front = true)
    (hleast : ∀ i < front.length, fits p (front.take i) = false) : cutShortestPrefix p (front ++ back) = back := by
  have hfind : (List.range ((front ++ back).length + 1)).find? (fun i => fits p ((front ++ back).take i)) = some front.length := by
    rw [List.find?_range_eq_some, List.take_left]
    refine ⟨hfits, List.mem_range.2 (by rw [List.length_append]; omega), ?_⟩
    intro i hi
    rw [List.take_append_of_le_length (by omega), hleast i hi]
    rfl
  rw [cutShortestPrefix, hfind]
  exact List.drop_left

theorem cutLongestPrefix_eq {p : Pattern α} {front back : List α} (hfits : fits p front = true)
    (hmost : ∀ i, 0 < i → i ≤ back.length → fits p (front ++ back.take i) = false) :
    cutLongestPrefix p (front ++ back) = back := by
  have hlength : (front ++ back).length - back.length = front.length := by rw [List.length_append]; omega
  have hfind : (List.range ((front ++ back).length + 1)).find?
      (fun i => fits p ((front ++ back).take ((front ++ back).length - i))) = some back.length := by
    rw [List.find?_range_eq_some, hlength, List.take_left]
    refine ⟨hfits, List.mem_range.2 (by rw [List.length_append]; omega), ?_⟩
    intro i hi
    have htake : (front ++ back).length - i = front.length + (back.length - i) := by rw [List.length_append]; omega
    rw [htake, List.take_length_add_append, hmost _ (by omega) (by omega)]
    rfl
  rw [cutLongestPrefix, hfind]
  simp only [hlength]
  exact List.drop_left

theorem cutShortestSuffix_eq {p : Pattern α} (front : List α) {back : List α} (hfits : fits p back = true)
    (hleast : ∀ i, 0 < i → i ≤ back.length → fits p (back.drop i) = false) : cutShortestSuffix p (front ++ back) = front := by
  have hlength : (front ++ back).length - back.length = front.length := by rw [List.length_append]; omega
  have hfind : (List.range ((front ++ back).length + 1)).find?
      (fun i => fits p ((front ++ back).drop ((front ++ back).length - i))) = some back.length := by
    rw [List.find?_range_eq_some, hlength, List.drop_left]
    refine ⟨hfits, List.mem_range.2 (by rw [List.length_append]; omega), ?_⟩
    intro i hi
    have hdrop : (front ++ back).length - i = front.length + (back.length - i) := by rw [List.length_append]; omega
    rw [hdrop, List.drop_length_add_append, hleast _ (by omega) (by omega)]
    rfl
  rw [cutShortestSuffix, hfind]
  simp only [hlength]
  exact List.take_left

theorem cutLongestSuffix_eq {p : Pattern α} {front back : List α} (hfits : fits p back = true)
    (hmost : ∀ i < front.length, fits p (front.drop i ++ back) = false) : cutLongestSuffix p (front ++ back) = front := by
  have hfind : (List.range ((front ++ back).length + 1)).find? (fun i => fits p ((front ++ back).drop i)) = some front.length := by
    rw [List.find?_range_eq_some, List.drop_left]
    refine ⟨hfits, List.mem_range.2 (by rw [List.length_append]; omega), ?_⟩
    intro i hi
    rw [List.drop_append_of_le_length (by omega), hmost i hi]
    rfl
  rw [cutLongestSuffix, hfind]
  exact List.take_left

/-- `${s#p}` of one character -/
theorem cutShortestPrefix_one {p : α → Bool} {a : α} (h : p a = true) (s : List α) :
    cutShortestPrefix [.one p] (a :: s) = s := by
  show cutShortestPrefix [.one p] ([a] ++ s) = s
  refine cutShortestPrefix_eq s (by simp [fits, h]) ?_
  intro i hi
  rw [Nat.lt_one_iff.1 hi]
  rfl

theorem cutShortestPrefix_one_of_not {p : α → Bool} {s : List α} (h : ∀ a back, s = a :: back → p a = false) :
    cutShortestPrefix [.one p] s = s := by
  have hfind : (List.range (s.length + 1)).find? (fun i => fits [.one p] (s.take i)) = none := by
    rw [List.find?_range_eq_none]
    intro i _
    cases s with
    | nil => simp [fits]
    | cons a s => cases i <;> simp [fits, h a s rfl]
  rw [cutShortestPrefix, hfind]

/-- `${s#text}` -/
theorem cutShortestPrefix_exactly [BEq α] [LawfulBEq α] (text s : List α) : cutShortestPrefix (exactly text) (text ++ s) = s := by
  refine cutShortestPrefix_eq s (fits_exactly.2 rfl) ?_
  intro i hi
  rw [Bool.eq_false_iff]
  intro hfits
  have hlength := congrArg List.length (fits_exactly.1 hfits)
  rw [List.length_take] at hlength
  omega

/-- `${s#*p}`: through the first. -/
theorem cutShortestPrefix_through {p : α → Bool} {front : List α} {a : α} (hfront : ∀ x ∈ front, p x = false)
    (ha : p a = true) (back : List α) : cutShortestPrefix [.many, .one p] (front ++ a :: back) = back := by
  have hsplit : front ++ a :: back = (front ++ [a]) ++ back := by rw [List.append_assoc]; rfl
  rw [hsplit]
  refine cutShortestPrefix_eq back (fits_ends.2 ⟨front, a, rfl, ha⟩) ?_
  intro i hi
  rw [Bool.eq_false_iff]
  intro hfits
  obtain ⟨less, b, heq, hb⟩ := fits_ends.1 hfits
  rw [List.length_append, List.length_singleton] at hi
  rw [List.take_append_of_le_length (by omega)] at heq
  have hmem : b ∈ front := List.mem_of_mem_take (heq ▸ List.mem_append_right less List.mem_cons_self)
  rw [hfront b hmem] at hb
  cases hb

/-- `${s##*p}`: through the last. -/
theorem cutLongestPrefix_through {p : α → Bool} (front : List α) {a : α} {back : List α} (ha : p a = true)
    (hback : ∀ x ∈ back, p x = false) : cutLongestPrefix [.many, .one p] (front ++ a :: back) = back := by
  have hsplit : front ++ a :: back = (front ++ [a]) ++ back := by rw [List.append_assoc]; rfl
  rw [hsplit]
  refine cutLongestPrefix_eq (fits_ends.2 ⟨front, a, rfl, ha⟩) ?_
  intro i hpos hi
  rw [Bool.eq_false_iff]
  intro hfits
  obtain ⟨less, b, heq, hb⟩ := fits_ends.1 hfits
  have hne : back.take i ≠ [] := by
    intro hnil
    have := congrArg List.length hnil
    rw [List.length_take, List.length_nil] at this
    omega
  have hlast := congrArg List.getLast? heq
  rw [List.getLast?_append_of_ne_nil _ hne, List.getLast?_append_of_ne_nil _ (List.cons_ne_nil b []), List.getLast?_singleton] at hlast
  have hmem : b ∈ back := List.mem_of_mem_take (List.mem_of_getLast? hlast)
  rw [hback b hmem] at hb
  cases hb

/-- `${s%p*}`: from the last. -/
theorem cutShortestSuffix_from {p : α → Bool} (front : List α) {a : α} {back : List α} (ha : p a = true)
    (hback : ∀ x ∈ back, p x = false) : cutShortestSuffix [.one p, .many] (front ++ a :: back) = front := by
  refine cutShortestSuffix_eq front (fits_begins.2 ⟨a, back, rfl, ha⟩) ?_
  intro i hpos _
  rw [Bool.eq_false_iff]
  intro hfits
  obtain ⟨b, rest, heq, hb⟩ := fits_begins.1 hfits
  obtain ⟨j, rfl⟩ := Nat.exists_eq_add_one_of_ne_zero (Nat.ne_of_gt hpos)
  rw [List.drop_succ_cons] at heq
  have hmem : b ∈ back := List.mem_of_mem_drop (heq ▸ List.mem_cons_self)
  rw [hback b hmem] at hb
  cases hb

/-- `${s%%p*}`: from the first. -/
theorem cutLongestSuffix_from {p : α → Bool} (s : List α) : cutLongestSuffix [.one p, .many] s = s.takeWhile (!p ·) := by
  have hkept : ∀ i x back, (s.takeWhile (!p ·)).drop i = x :: back → p x = false := by
    intro i x back heq
    have hmem : x ∈ s.takeWhile (!p ·) := List.mem_of_mem_drop (heq ▸ List.mem_cons_self)
    simpa using List.mem_takeWhile_imp hmem
  cases hrest : s.dropWhile (!p ·) with
  | nil =>
    -- nothing to remove
    have hall : s.takeWhile (!p ·) = s := by
      have := List.takeWhile_append_dropWhile (p := (!p ·)) (l := s)
      rwa [hrest, List.append_nil] at this
    have hfind : (List.range (s.length + 1)).find? (fun i => fits [.one p, .many] (s.drop i)) = none := by
      rw [List.find?_range_eq_none]
      intro i _
      rw [Bool.not_eq_true', Bool.eq_false_iff]
      intro hfits
      obtain ⟨b, back, heq, hb⟩ := fits_begins.1 hfits
      rw [hkept i b back (by rw [hall, heq])] at hb
      cases hb
    rw [cutLongestSuffix, hfind, hall]
  | cons a rest =>
    have ha : p a = true := by
      have hhead := List.head?_dropWhile_not (!p ·) s
      rw [hrest] at hhead
      simpa using hhead
    have hsplit : s = s.takeWhile (!p ·) ++ a :: rest := by rw [← hrest, List.takeWhile_append_dropWhile]
    have hcut : cutLongestSuffix [.one p, .many] (s.takeWhile (!p ·) ++ a :: rest) = s.takeWhile (!p ·) := by
      refine cutLongestSuffix_eq (fits_begins.2 ⟨a, rest, rfl, ha⟩) ?_
      intro i hi
      rw [Bool.eq_false_iff]
      intro hfits
      obtain ⟨b, back, heq, hb⟩ := fits_begins.1 hfits
      cases hdrop : (s.takeWhile (!p ·)).drop i with
      | nil =>
        rw [List.drop_eq_nil_iff] at hdrop
        omega
      | cons x kept =>
        rw [hdrop] at heq
        cases heq
        rw [hkept i b kept hdrop] at hb
        cases hb
    rwa [← hsplit] at hcut

end OmpRelayd.Glob
