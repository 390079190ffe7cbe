/-
  OmpRelayd.Lib.Url — percent-encoding, and what parsing a URL makes of its path.

  The path of an `http` URL is cut at its slashes. A segment that is a dot or two, plain or
  percent-encoded in either case, is not part of the path: the first is left out and the second
  takes the segment before it away. Any other is kept as it is written, but for the bytes that
  no path may have.

  Proved: a path of clean segments is what walking them leaves (`pathname_clean`), which for plain
  ones is all of them (`pathname_joined`); and an encoder that keeps neither dots nor percent signs
  writes a dot segment only for one dot or two (`percentEncode_plain`).
-/

import OmpRelayd.Lib.Bytes

namespace OmpRelayd.Url

/-! ## Percent-encoding -/

def hexDigit (n : Nat) : UInt8 := UInt8.ofNat (if n < 10 then 0x30 + n else 0x37 + n)

def percent (b : UInt8) : Bytes := [0x25, hexDigit (b.toNat / 16), hexDigit (b.toNat % 16)]

def percentEncode (keep : UInt8 → Bool) (bytes : Bytes) : Bytes :=
  bytes.flatMap fun b => if keep b then [b] else percent b

/-- The bytes an encoder may write: those it keeps, the percent sign and the hexadecimal digits. -/
theorem mem_percentEncode {keep : UInt8 → Bool} {bytes : Bytes} {b : UInt8} (h : b ∈ percentEncode keep bytes) :
    keep b = true ∨ b = 0x25 ∨ ∃ n < 16, b = hexDigit n := by
  obtain ⟨a, -, hb⟩ := List.mem_flatMap.mp h
  have ha := a.toNat_lt
  split at hb
  · rename_i hkeep
    rw [List.mem_singleton.mp hb]
    exact .inl hkeep
  · simp only [percent, List.mem_cons, List.not_mem_nil, or_false] at hb
    rcases hb with rfl | rfl | rfl
    · exact .inr (.inl rfl)
    · exact .inr (.inr ⟨_, by omega, rfl⟩)
    · exact .inr (.inr ⟨_, by omega, rfl⟩)

theorem forall_hexDigit {P : UInt8 → Prop} (h : ∀ n : Fin 16, P (hexDigit n)) {n : Nat} (hn : n < 16) :
    P (hexDigit n) := h ⟨n, hn⟩

/-! ## Paths -/

def lower (b : UInt8) : UInt8 := if 0x41 ≤ b ∧ b ≤ 0x5a then b + 0x20 else b

/-- `.` or `%2e` -/
def singleDot (segment : Bytes) : Bool :=
  segment.map lower == [0x2e] || segment.map lower == [0x25, 0x32, 0x65]

/-- Two of them, each in either spelling. -/
def doubleDot (segment : Bytes) : Bool :=
  segment.map lower == [0x2e, 0x2e] || segment.map lower == [0x2e, 0x25, 0x32, 0x65] ||
    segment.map lower == [0x25, 0x32, 0x65, 0x2e] || segment.map lower == [0x25, 0x32, 0x65, 0x25, 0x32, 0x65]

/-- A slash; a backslash is one too. -/
def separator (b : UInt8) : Bool := b == 0x2f || b == 0x5c

/-- Where a path ends: a question mark or a hash. -/
def ends (b : UInt8) : Bool := b == 0x3f || b == 0x23

/-- The path percent-encode set: controls, space, quote, hash, angle brackets, question mark, caret,
    backtick, braces, and everything from DEL on. -/
def pathSet (b : UInt8) : Bool :=
  b ≤ 0x20 || b == 0x22 || b == 0x23 || b == 0x3c || b == 0x3e || b == 0x3f || b == 0x5e || b == 0x60 || b == 0x7b ||
    b == 0x7d || 0x7f ≤ b

/-- The path after its segments; a dot segment at the end leaves an empty one. -/
def walk : List Bytes → List Bytes → List Bytes
  | path, [] => path
  | path, [segment] =>
    if doubleDot segment then path.dropLast ++ [[]] else if singleDot segment then path ++ [[]] else path ++ [segment]
  | path, segment :: rest =>
    if doubleDot segment then walk path.dropLast rest
    else if singleDot segment then walk path rest
    else walk (path ++ [segment]) rest

def joined (segments : List Bytes) : Bytes := segments.flatMap fun segment => 0x2f :: segment

/-- The path of a URL whose text from its first slash on is `text`. -/
def pathname (text : Bytes) : Bytes :=
  let written := (text.takeWhile fun b => !ends b).drop 1
  joined ((walk [] (written.splitOnP separator)).map (percentEncode fun b => !pathSet b))

/-- A segment of bytes that a path may have. -/
def Clean (segment : Bytes) : Prop := ∀ b ∈ segment, pathSet b = false ∧ separator b = false

/-- A segment that is kept as it is. -/
structure Plain (segment : Bytes) : Prop where
  bytes : Clean segment
  single : singleDot segment = false
  double : doubleDot segment = false

theorem walk_plain {segments : List Bytes} (h : ∀ segment ∈ segments, Plain segment) (path : List Bytes) :
    walk path segments = path ++ segments := by
  induction segments generalizing path with
  | nil => simp only [walk, List.append_nil]
  | cons segment rest ih =>
    have hsegment := h segment List.mem_cons_self
    have hrest := ih fun s hs => h s (List.mem_cons_of_mem segment hs)
    cases rest with
    | nil => simp only [walk, hsegment.single, hsegment.double, Bool.false_eq_true, if_false]
    | cons next rest =>
      simp only [walk, hsegment.single, hsegment.double, Bool.false_eq_true, if_false, hrest, List.append_assoc,
        List.singleton_append]

theorem mem_walk {segments path : List Bytes} {segment : Bytes} (h : segment ∈ walk path segments) :
    segment ∈ path ∨ segment ∈ segments ∨ segment = [] := by
  fun_induction walk path segments <;> grind [List.mem_of_mem_dropLast]

theorem split_joined {segments : List Bytes} (hne : segments ≠ []) (h : ∀ segment ∈ segments, Clean segment) :
    ((joined segments).drop 1).splitOnP separator = segments := by
  induction segments with
  | nil => exact absurd rfl hne
  | cons segment rest ih =>
    have hbytes : ∀ b ∈ segment, separator b = false := fun b hb => (h segment List.mem_cons_self b hb).2
    cases rest with
    | nil => simpa [joined] using List.splitOnP_eq_singleton hbytes
    | cons next rest =>
      have hrest := ih (List.cons_ne_nil next rest) fun s hs => h s (List.mem_cons_of_mem segment hs)
      have hjoined : (joined (segment :: next :: rest)).drop 1 = segment ++ 0x2f :: (joined (next :: rest)).drop 1 := by
        simp [joined]
      rw [hjoined, List.splitOnP_append_cons_of_forall_mem hbytes _ rfl, hrest]

theorem not_ends_of_mem_joined {segments : List Bytes} (h : ∀ segment ∈ segments, Clean segment) :
    ∀ b ∈ joined segments, (!ends b) = true := by
  intro b hb
  obtain ⟨segment, hs, hb⟩ := List.mem_flatMap.mp hb
  rcases List.mem_cons.mp hb with rfl | hb
  · decide
  · have hset := (h segment hs b hb).1
    simp only [pathSet, Bool.or_eq_false_iff, beq_eq_false_iff_ne] at hset
    simp only [ends, Bool.not_eq_true', Bool.or_eq_false_iff, beq_eq_false_iff_ne]
    tauto

theorem percentEncode_of_keep {keep : UInt8 → Bool} {bytes : Bytes} (h : ∀ b ∈ bytes, keep b = true) :
    percentEncode keep bytes = bytes := by
  induction bytes with
  | nil => rfl
  | cons b rest ih =>
    have hrest := ih fun a ha => h a (List.mem_cons_of_mem b ha)
    simp only [percentEncode, List.flatMap_cons, h b List.mem_cons_self, if_true] at hrest ⊢
    rw [hrest, List.singleton_append]

/-- Of clean segments a path has those that a walk leaves. -/
theorem pathname_clean {segments : List Bytes} (hne : segments ≠ []) (h : ∀ segment ∈ segments, Clean segment) :
    pathname (joined segments) = joined (walk [] segments) ∧ ∀ segment ∈ walk [] segments, Clean segment := by
  have hclean : ∀ segment ∈ walk [] segments, Clean segment := by
    intro segment hs
    rcases mem_walk hs with hs | hs | rfl
    · cases hs
    · exact h segment hs
    · exact List.forall_mem_nil _
  have hkept : (walk [] segments).map (percentEncode fun b => !pathSet b) = walk [] segments := by
    refine (List.map_congr_left fun segment hs => ?_).trans (List.map_id _)
    exact percentEncode_of_keep fun b hb => by rw [(hclean segment hs b hb).1]; rfl
  refine ⟨?_, hclean⟩
  rw [pathname, List.takeWhile_eq_self_iff.mpr (not_ends_of_mem_joined h)]
  simp only [split_joined hne h, hkept]

/-- Plain segments are left as they are. -/
theorem pathname_joined {segments : List Bytes} (hne : segments ≠ []) (h : ∀ segment ∈ segments, Plain segment) :
    pathname (joined segments) = joined segments := by
  rw [(pathname_clean hne fun segment hs => (h segment hs).bytes).1, walk_plain h, List.nil_append]

/-! ## Slashes -/

def slashes (path : Bytes) : Nat := path.countP (· == 0x2f)

theorem slashes_joined {segments : List Bytes} (h : ∀ segment ∈ segments, Clean segment) :
    slashes (joined segments) = segments.length := by
  induction segments with
  | nil => rfl
  | cons segment rest ih =>
    have hnone : segment.countP (· == 0x2f) = 0 := by
      refine List.countP_eq_zero.mpr fun b hb hslash => ?_
      rw [eq_of_beq hslash] at hb
      cases (h segment List.mem_cons_self 0x2f hb).2
    have hrest := ih fun s hs => h s (List.mem_cons_of_mem segment hs)
    simp only [slashes, joined, List.flatMap_cons, List.countP_append, List.countP_cons] at hrest ⊢
    rw [hrest, hnone]
    simp [Nat.add_comm]

theorem length_split_slashes (path : Bytes) : (path.splitOnP (· == 0x2f)).length = slashes path + 1 := by
  induction path with
  | nil => rfl
  | cons b rest ih =>
    rw [List.splitOnP_cons_eq_if_modifyHead]
    split <;> simp_all [slashes]

/-! ## What an encoder that keeps no dots writes -/

section
variable {keep : UInt8 → Bool}

/-- What reads as dots in percent-encoding was dots. -/
theorem eq_dots_of_lower (hkeep : keep 0x25 = false) (k : Nat) : ∀ bytes : Bytes,
    (percentEncode keep bytes).map lower = (List.replicate k [0x25, 0x32, 0x65]).flatten → bytes = List.replicate k 0x2e := by
  have hpercent : ∀ b, lower b = 0x25 → b = 0x25 := forall_byte (by decide +kernel)
  have hdot : ∀ b, (percent b).map lower = [0x25, 0x32, 0x65] → b = 0x2e := forall_byte (by decide +kernel)
  have hcons : ∀ b rest, percentEncode keep (b :: rest) = (if keep b then [b] else percent b) ++ percentEncode keep rest :=
    fun b rest => List.flatMap_cons
  induction k with
  | zero =>
    intro bytes h
    cases bytes with
    | nil => rfl
    | cons b rest =>
      rw [hcons] at h
      split at h <;> cases h
  | succ k ih =>
    intro bytes h
    rw [List.replicate_succ, List.flatten_cons] at h
    cases bytes with
    | nil => cases h
    | cons b rest =>
      rw [hcons, List.map_append] at h
      by_cases hb : keep b = true
      · rw [if_pos hb] at h
        have hlower : lower b = 0x25 := (List.cons.inj h).1
        rw [hpercent b hlower, hkeep] at hb
        cases hb
      · rw [if_neg hb] at h
        obtain ⟨hhead, htail⟩ := List.append_inj h rfl
        rw [hdot b hhead, ih rest htail, List.replicate_succ]

theorem percentEncode_clean (hkeep : ∀ b, keep b = true → pathSet b = false ∧ separator b = false) (bytes : Bytes) :
    Clean (percentEncode keep bytes) := by
  intro b hb
  rcases mem_percentEncode hb with hb | rfl | ⟨n, hn, rfl⟩
  · exact hkeep b hb
  · decide
  · exact forall_hexDigit (P := fun b => pathSet b = false ∧ separator b = false) (by decide) hn

/-- A segment that is kept, if only bytes are kept that a path may have, and it is of no dots or of
    more than two. -/
theorem percentEncode_plain (hkeep : ∀ b, keep b = true → pathSet b = false ∧ separator b = false ∧ b ≠ 0x2e ∧ b ≠ 0x25)
    {bytes : Bytes} (hone : bytes ≠ [0x2e]) (htwo : bytes ≠ [0x2e, 0x2e]) : Plain (percentEncode keep bytes) := by
  have hpercent : keep 0x25 = false := by
    by_contra h
    exact (hkeep 0x25 (by simpa using h)).2.2.2 rfl
  have hlower : ∀ b ∈ percentEncode keep bytes, lower b ≠ 0x2e := by
    have hother : ∀ b, b ≠ 0x2e → lower b ≠ 0x2e := forall_byte (by decide +kernel)
    intro b hb
    rcases mem_percentEncode hb with hb | rfl | ⟨n, hn, rfl⟩
    · exact hother b (hkeep b hb).2.2.1
    · decide
    · exact forall_hexDigit (P := fun b => lower b ≠ 0x2e) (by decide) hn
  -- a dot that is written plainly is none of the encoder's
  have hplain : ∀ segment : Bytes, 0x2e ∈ segment → ((percentEncode keep bytes).map lower == segment) = false := by
    intro segment hmem
    rw [beq_eq_false_iff_ne]
    rintro rfl
    obtain ⟨b, hb, hdot⟩ := List.mem_map.mp hmem
    exact hlower b hb hdot
  have hencoded : ∀ k, bytes ≠ List.replicate k 0x2e →
      ((percentEncode keep bytes).map lower == (List.replicate k [0x25, 0x32, 0x65]).flatten) = false := by
    intro k hne
    rw [beq_eq_false_iff_ne]
    exact fun h => hne (eq_dots_of_lower hpercent k bytes h)
  refine ⟨percentEncode_clean (fun b hb => ⟨(hkeep b hb).1, (hkeep b hb).2.1⟩) bytes, ?_, ?_⟩
  · simp only [singleDot, Bool.or_eq_false_iff]
    exact ⟨hplain _ (by decide), hencoded 1 hone⟩
  · simp only [doubleDot, Bool.or_eq_false_iff]
    exact ⟨⟨⟨hplain _ (by decide), hplain _ (by decide)⟩, hplain _ (by decide)⟩, hencoded 2 htwo⟩

end

end OmpRelayd.Url
