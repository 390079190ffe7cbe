/-
  OmpRelayd.Extension.Address — two parsers of one grammar (extension/src/config.ts:
  `parseAddress`; scripts/setup-client.sh: `validate_address`).

  An address is a host and a port behind a colon. A host with colons of its own is written in
  brackets, so that the two can be told apart; without brackets it has none. The port's digits may
  be any number of them, as long as they say one from 1 to 65535.

  The extension looks for the first closing bracket, or the last colon. The script that writes the
  file the extension reads removes prefixes and suffixes by patterns, and compares the port without
  its leading zeros, as long numbers are beyond the shell's. Its ranges of characters are ASCII's.
  An argument of a script has no NUL in it; nothing here depends on that.

  Proved (`both_parsers_accept_one_grammar`): the extension accepts what the grammar derives, with
  the parts it derives it from, and the script accepts the same texts.
-/

import OmpRelayd.Extension.Config
import OmpRelayd.Lib.Glob

namespace OmpRelayd.Extension

open Glob (Pattern Item exactly fits cutShortestPrefix cutLongestPrefix cutShortestSuffix cutLongestSuffix)

/-! ## The grammar -/

def isDigit (c : Char) : Bool := '0' ≤ c && c ≤ '9'

/-- What digits denote. -/
def decimal (digits : List Char) : Nat := digits.foldl (fun n c => 10 * n + (c.toNat - '0'.toNat)) 0

/-- A host and the text behind the colon. -/
inductive Form : List Char → List Char → List Char → Prop
  | plain (host port : List Char) : host ≠ [] → ':' ∉ host → host.head? ≠ some '[' → Form (host ++ ':' :: port) host port
  | bracketed (host port : List Char) : host ≠ [] → ']' ∉ host → Form ('[' :: (host ++ ']' :: ':' :: port)) host port

structure IsPort (digits : List Char) (port : Nat) : Prop where
  ascii : ∀ c ∈ digits, isDigit c = true
  denotes : decimal digits = port
  positive : 1 ≤ port
  bounded : port ≤ 65535

/-! ## The script -/

def is (c : Char) : Item Char := .one (· == c)

/-- `value` in `validate_address` is a host and a port's text, of which only the second is used again. -/
def addressPortText (value : List Char) : Except String (List Char) :=
  let shown := String.ofList value
  if fits [is '[', .many] value then
    if !fits [.many, is ']', is ':', .many] value then
      .error s!"--address \"{shown}\" opens a bracketed host but is not [host]:port"
    else
      let host := cutLongestSuffix [is ']', .many] (cutShortestPrefix [is '['] value)
      let after := cutShortestPrefix [.many, is ']'] value
      let portText := cutShortestPrefix [is ':'] after
      if host = [] then .error s!"--address \"{shown}\" has an empty bracketed host" else .ok portText
  else
    if !fits [.many, is ':', .many] value then .error s!"--address \"{shown}\" is not a host:port pair"
    else
      let host := cutShortestSuffix [is ':', .many] value
      let portText := cutLongestPrefix [.many, is ':'] value
      if host = [] then .error s!"--address \"{shown}\" has an empty host"
      else if fits [.many, is ':', .many] host then
        .error s!"--address \"{shown}\" has an unbracketed colon in the host; an IPv6 literal is written as [::1]:7788"
      else .ok portText

/-- `${digits:-0}`, as `[` reads it. -/
def shellNumber (digits : List Char) : Nat := decimal (if digits = [] then ['0'] else digits)

def validateAddress (value : List Char) : Except String Unit := do
  let shown := String.ofList value
  let portText ← addressPortText value
  if portText = [] ∨ fits [.many, .one (!isDigit ·), .many] portText then
    .error s!"--address \"{shown}\" has no numeric port"
  else
    let digits := cutShortestPrefix (exactly (cutLongestSuffix [.one (· != '0'), .many] portText)) portText
    if 5 < digits.length ∨ shellNumber digits < 1 ∨ 65535 < shellNumber digits then
      let port := String.ofList portText
      .error s!"--address \"{shown}\" has port {port}, outside 1-65535"
    else .ok ()

/-! ## Texts -/

theorem span_append {p : Char → Bool} {front back : List Char} {a : Char} (hfront : ∀ c ∈ front, p c = true)
    (ha : p a = false) : (front ++ a :: back).span p = (front, a :: back) := by
  have htake : (front ++ a :: back).takeWhile p = front := by
    rw [List.takeWhile_append_of_pos hfront, List.takeWhile_cons_of_neg (by simp [ha]), List.append_nil]
  have hdrop : (front ++ a :: back).dropWhile p = a :: back := by
    rw [List.dropWhile_append_of_pos hfront, List.dropWhile_cons_of_neg (by simp [ha])]
  rw [List.span_eq_takeWhile_dropWhile, htake, hdrop]

theorem of_span {p : Char → Bool} {text front back : List Char} {a : Char} (h : text.span p = (front, a :: back)) :
    text = front ++ a :: back ∧ (∀ c ∈ front, p c = true) ∧ p a = false := by
  rw [List.span_eq_takeWhile_dropWhile, Prod.mk.injEq] at h
  obtain ⟨htake, hdrop⟩ := h
  refine ⟨by rw [← htake, ← hdrop, List.takeWhile_append_dropWhile], ?_, ?_⟩
  · intro c hc
    exact List.mem_takeWhile_imp (htake ▸ hc)
  · have hhead := List.head?_dropWhile_not p text
    rw [hdrop] at hhead
    exact hhead

theorem exists_last {a : Char} {l : List Char} (h : a ∈ l) : ∃ front back, l = front ++ a :: back ∧ a ∉ back := by
  obtain ⟨back, front, heq, hback⟩ := List.eq_append_cons_of_mem (List.mem_reverse.2 h)
  refine ⟨front.reverse, back.reverse, ?_, fun hmem => hback (List.mem_reverse.1 hmem)⟩
  rw [← List.reverse_reverse l, heq, List.reverse_append, List.reverse_cons, List.append_assoc]
  rfl

/-! ## The extension's parser -/

theorem form_of_splitAddress {value host port : List Char} (h : splitAddress value = some (host, port)) : Form value host port := by
  unfold splitAddress at h
  split at h
  · rename_i rest
    split at h
    · rename_i front bracket back hspan
      obtain ⟨rfl, hfront, hbracket⟩ := of_span hspan
      split at h
      · cases h
      · rename_i hne
        cases h
        have hbracket : bracket = ']' := by simpa using hbracket
        subst hbracket
        exact .bracketed host port hne fun hmem => by simpa using hfront _ hmem
    · cases h
  · rename_i hopen
    split at h
    · rename_i back colon front hspan
      obtain ⟨heq, hback, hcolon⟩ := of_span hspan
      split at h
      · cases h
      · rename_i hne
        cases h
        have hcolon : colon = ':' := by simpa using hcolon
        subst hcolon
        have hvalue : value = front.reverse ++ ':' :: back.reverse := by
          rw [← List.reverse_reverse value, heq, List.reverse_append, List.reverse_cons, List.append_assoc]
          rfl
        rw [hvalue]
        rw [not_or] at hne
        refine .plain _ _ (by simpa using hne.1) (by simpa using hne.2) ?_
        intro hhead
        cases hfront : front.reverse with
        | nil => exact hne.1 (List.reverse_eq_nil_iff.1 hfront)
        | cons c rest =>
          rw [hfront] at hhead
          cases hhead
          exact hopen (rest ++ ':' :: back.reverse) (by rw [hvalue, hfront]; rfl)
    · cases h

theorem splitAddress_of_form {value host port : List Char} (h : Form value host port) (hport : ':' ∉ port) :
    splitAddress value = some (host, port) := by
  cases h with
  | bracketed _ _ hne hhost =>
    have hspan : (host ++ ']' :: ':' :: port).span (· ≠ ']') = (host, ']' :: ':' :: port) :=
      span_append (fun c hc => by simpa using ne_of_mem_of_not_mem hc hhost) (by simp)
    simp only [splitAddress, hspan, if_neg hne]
  | plain _ _ hne hhost hopen =>
    have hspan : (host ++ ':' :: port).reverse.span (· ≠ ':') = (port.reverse, ':' :: host.reverse) := by
      rw [List.reverse_append, List.reverse_cons, List.append_assoc]
      refine span_append (fun c hc => ?_) (by simp)
      simpa using ne_of_mem_of_not_mem (List.mem_reverse.1 hc) hport
    have hclosed : ∀ rest, host ++ ':' :: port ≠ '[' :: rest := by
      intro rest heq
      cases host with
      | nil => exact hne rfl
      | cons c host =>
        cases heq
        exact hopen rfl
    unfold splitAddress
    split
    · rename_i rest heq
      exact absurd heq (hclosed rest)
    · rw [hspan]
      simp [hne, hhost]

theorem portNumber_eq_some {text : List Char} {n : Nat} :
    portNumber text = some n ↔ text ≠ [] ∧ (∀ c ∈ text, isDigit c = true) ∧ decimal text = n := by
  have hall : (text.all fun c => '0' ≤ c && c ≤ '9') = true ↔ ∀ c ∈ text, isDigit c = true := List.all_eq_true
  unfold portNumber
  split
  · rename_i h
    simp only [Option.some.injEq]
    exact ⟨fun heq => ⟨h.1, hall.1 h.2, heq⟩, fun heq => heq.2.2⟩
  · rename_i h
    constructor
    · intro heq
      cases heq
    · intro heq
      exact absurd ⟨heq.1, hall.2 heq.2.1⟩ h

theorem not_mem_of_digits {text : List Char} {c : Char} (h : ∀ d ∈ text, isDigit d = true) (hc : isDigit c = false) : c ∉ text := by
  intro hmem
  rw [h c hmem] at hc
  cases hc

theorem IsPort.ne_nil {digits : List Char} {port : Nat} (h : IsPort digits port) : digits ≠ [] := by
  intro heq
  have hdenotes := h.denotes
  have hpositive := h.positive
  rw [heq] at hdenotes
  rw [← hdenotes] at hpositive
  cases hpositive

theorem parseAddress_iff {value host : String} {port : Nat} :
    parseAddress value = some ⟨host, port⟩ ↔ ∃ digits, Form value.toList host.toList digits ∧ IsPort digits port := by
  constructor
  · intro h
    obtain ⟨⟨front, digits⟩, hsplit, h⟩ := Option.bind_eq_some_iff.1 h
    obtain ⟨n, hn, h⟩ := Option.bind_eq_some_iff.1 h
    obtain ⟨-, hdigits, hdenotes⟩ := portNumber_eq_some.1 hn
    split at h
    · cases h
    · rename_i hrange
      cases h
      refine ⟨digits, ?_, hdigits, hdenotes, by omega, by omega⟩
      rw [String.toList_ofList]
      exact form_of_splitAddress hsplit
  · intro h
    obtain ⟨digits, hform, hport⟩ := h
    have hsplit := splitAddress_of_form hform (not_mem_of_digits hport.ascii (by decide))
    have hnumber := portNumber_eq_some.2 ⟨hport.ne_nil, hport.ascii, hport.denotes⟩
    have hrange : ¬ (port < 1 ∨ 65535 < port) := by
      have := hport.positive
      have := hport.bounded
      omega
    simp only [parseAddress, hsplit, hnumber, Option.bind_eq_bind, Option.bind_some, if_neg hrange, String.ofList_toList]

/-! ## The script's -/

theorem not_is_of_not_mem {c : Char} {text : List Char} (h : c ∉ text) : ∀ a ∈ text, (a == c) = false := by
  intro a ha
  simpa using ne_of_mem_of_not_mem ha h

theorem fits_has_char {c : Char} {text : List Char} : fits [.many, is c, .many] text = true ↔ c ∈ text := by
  rw [is, Glob.fits_has]
  constructor
  · intro h
    obtain ⟨a, ha, heq⟩ := h
    exact beq_iff_eq.1 heq ▸ ha
  · intro h
    exact ⟨c, h, beq_self_eq_true c⟩

theorem fits_opens {text : List Char} : fits [is '[', .many] text = true ↔ ∃ rest, text = '[' :: rest := by
  rw [is, Glob.fits_begins]
  constructor
  · intro h
    obtain ⟨a, rest, rfl, ha⟩ := h
    exact ⟨rest, by rw [beq_iff_eq.1 ha]⟩
  · intro h
    obtain ⟨rest, rfl⟩ := h
    exact ⟨'[', rest, rfl, rfl⟩

theorem fits_closes {text : List Char} :
    fits [.many, is ']', is ':', .many] text = true ↔ ∃ front back, text = front ++ ']' :: ':' :: back := by
  rw [Glob.fits_many_cons]
  constructor
  · intro h
    obtain ⟨front, tail, rfl, htail⟩ := h
    have htail : fits (exactly [']', ':'] ++ [.many]) tail = true := htail
    obtain ⟨back, rfl, -⟩ := Glob.fits_exactly_append.1 htail
    exact ⟨front, back, rfl⟩
  · intro h
    obtain ⟨front, back, rfl⟩ := h
    exact ⟨front, ']' :: ':' :: back, rfl, by simp [fits, is]⟩

/-- The bracketed host ends at the first closing bracket. -/
theorem bracketed_parts {host : List Char} (back : List Char) (hhost : ']' ∉ host) :
    cutLongestSuffix [is ']', .many] (cutShortestPrefix [is '['] ('[' :: (host ++ ']' :: back))) = host ∧
      cutShortestPrefix [.many, is ']'] ('[' :: (host ++ ']' :: back)) = back := by
  constructor
  · rw [is, is, Glob.cutShortestPrefix_one rfl, Glob.cutLongestSuffix_from]
    rw [List.takeWhile_append_of_pos, List.takeWhile_cons_of_neg (by simp), List.append_nil]
    intro c hc
    simp [not_is_of_not_mem hhost c hc]
  · have hopen : ']' ∉ '[' :: host := by simp [hhost]
    exact Glob.cutShortestPrefix_through (not_is_of_not_mem hopen) rfl back

/-- The host without brackets ends at the last colon. -/
theorem plain_parts (host : List Char) {port : List Char} (hport : ':' ∉ port) :
    cutShortestSuffix [is ':', .many] (host ++ ':' :: port) = host ∧
      cutLongestPrefix [.many, is ':'] (host ++ ':' :: port) = port :=
  ⟨Glob.cutShortestSuffix_from host rfl (not_is_of_not_mem hport), Glob.cutLongestPrefix_through host rfl (not_is_of_not_mem hport)⟩

theorem addressPortText_of_form {value host port : List Char} (h : Form value host port) (hport : ':' ∉ port) :
    addressPortText value = .ok port := by
  cases h with
  | bracketed _ _ hne hhost =>
    obtain ⟨hcut, hafter⟩ := bracketed_parts (':' :: port) hhost
    have hopens : fits [is '[', .many] ('[' :: (host ++ ']' :: ':' :: port)) = true := fits_opens.2 ⟨_, rfl⟩
    have hcloses : fits [.many, is ']', is ':', .many] ('[' :: (host ++ ']' :: ':' :: port)) = true :=
      fits_closes.2 ⟨'[' :: host, port, rfl⟩
    have hcolon : cutShortestPrefix [is ':'] (':' :: port) = port := Glob.cutShortestPrefix_one rfl port
    simp only [addressPortText, hopens, hcloses, hcut, hafter, hcolon, if_true, Bool.not_true, Bool.false_eq_true, if_false, if_neg hne]
  | plain _ _ hne hhost hopen =>
    obtain ⟨hcut, hafter⟩ := plain_parts host hport
    have hopens : fits [is '[', .many] (host ++ ':' :: port) = false := by
      rw [Bool.eq_false_iff]
      intro hfits
      obtain ⟨rest, heq⟩ := fits_opens.1 hfits
      cases host with
      | nil => exact hne rfl
      | cons c host =>
        cases heq
        exact hopen rfl
    have hcolon : fits [.many, is ':', .many] (host ++ ':' :: port) = true :=
      fits_has_char.2 (List.mem_append_right host List.mem_cons_self)
    have hnone : fits [.many, is ':', .many] host = false := Bool.eq_false_iff.2 fun hfits => hhost (fits_has_char.1 hfits)
    simp only [addressPortText, hopens, hcolon, hcut, hafter, hnone, Bool.not_true, Bool.false_eq_true, if_false, if_neg hne]

/-- What the script takes for the port's text, if it is digits, stands behind a host. -/
theorem form_of_addressPortText {value port : List Char} (h : addressPortText value = .ok port)
    (hport : ∀ c ∈ port, isDigit c = true) : ∃ host, Form value host port := by
  simp only [addressPortText] at h
  split at h
  · rename_i hopens
    obtain ⟨rest, rfl⟩ := fits_opens.1 hopens
    split at h
    · cases h
    rename_i hcloses
    obtain ⟨front, back, hsplit⟩ := fits_closes.1 (by simpa using hcloses)
    have hmem : ']' ∈ rest := by
      have : ']' ∈ '[' :: rest := hsplit ▸ List.mem_append_right front List.mem_cons_self
      simpa using this
    obtain ⟨host, after, rfl, hhost⟩ := List.eq_append_cons_of_mem hmem
    obtain ⟨hcut, hafter⟩ := bracketed_parts after hhost
    rw [hcut, hafter] at h
    split at h
    · cases h
    rename_i hne
    refine ⟨host, ?_⟩
    by_cases hcolon : ∃ text, after = ':' :: text
    · obtain ⟨text, rfl⟩ := hcolon
      rw [is, Glob.cutShortestPrefix_one rfl] at h
      cases h
      exact .bracketed host port hne hhost
    · -- then all behind the bracket are digits, and the colon has no bracket to stand behind
      have hkept : cutShortestPrefix [is ':'] after = after := by
        apply Glob.cutShortestPrefix_one_of_not
        intro a text heq
        rw [beq_eq_false_iff_ne]
        intro ha
        exact hcolon ⟨text, by rw [heq, ha]⟩
      rw [hkept] at h
      cases h
      have hopen : ']' ∉ '[' :: host := by simp [hhost]
      have hsame := (List.append_cons_inj_of_notMem hopen (not_mem_of_digits hport (by decide))).1 hsplit
      exact absurd ⟨back, hsame.2.2⟩ hcolon
  · rename_i hopens
    split at h
    · cases h
    rename_i hcolon
    obtain ⟨host, text, rfl, htext⟩ := exists_last (fits_has_char.1 (by simpa using hcolon))
    obtain ⟨hcut, hafter⟩ := plain_parts host htext
    rw [hcut, hafter] at h
    split at h
    · cases h
    rename_i hne
    split at h
    · cases h
    rename_i hnone
    cases h
    refine ⟨host, .plain host port hne (fun hmem => hnone (fits_has_char.2 hmem)) ?_⟩
    intro hhead
    obtain ⟨rest, rfl⟩ := List.head?_eq_some_iff.1 hhead
    exact hopens (fits_opens.2 ⟨_, rfl⟩)

/-! ## Ports -/

theorem decimal_zeros {zeros : List Char} (h : ∀ c ∈ zeros, c = '0') (digits : List Char) :
    decimal (zeros ++ digits) = decimal digits := by
  induction zeros with
  | nil => rfl
  | cons c zeros ih =>
    obtain ⟨rfl, hzeros⟩ := List.forall_mem_cons.1 h
    exact ih hzeros

theorem foldl_decimal (n : Nat) (digits : List Char) :
    digits.foldl (fun n c => 10 * n + (c.toNat - '0'.toNat)) n = n * 10 ^ digits.length + decimal digits := by
  induction digits generalizing n with
  | nil => simp [decimal]
  | cons c digits ih =>
    have hcons : decimal (c :: digits) = (10 * 0 + (c.toNat - '0'.toNat)) * 10 ^ digits.length + decimal digits := ih _
    rw [List.foldl_cons, ih, hcons, List.length_cons, Nat.pow_succ]
    ring

/-- A number is at least what its first digit says. -/
theorem decimal_ge {c : Char} (hc : isDigit c = true) (hne : c ≠ '0') (digits : List Char) :
    10 ^ digits.length ≤ decimal (c :: digits) := by
  have hvalue : 1 ≤ c.toNat - '0'.toNat := by
    simp only [isDigit, Bool.and_eq_true, decide_eq_true_eq] at hc
    have hle : '0'.toNat ≤ c.toNat := UInt32.le_iff_toNat_le.1 hc.1
    have hzero : c.toNat ≠ '0'.toNat := fun heq => hne (Char.toNat_inj.1 heq)
    omega
  rw [decimal, List.foldl_cons, foldl_decimal, Nat.mul_zero, Nat.zero_add]
  have := Nat.mul_le_mul_right (10 ^ digits.length) hvalue
  omega

/-- The digits without the zeros in front. -/
theorem stripped_eq (text : List Char) :
    cutShortestPrefix (exactly (cutLongestSuffix [.one (· != '0'), .many] text)) text = text.dropWhile (· == '0') := by
  have hzeros : cutLongestSuffix [.one (· != '0'), .many] text = text.takeWhile (· == '0') := by
    rw [Glob.cutLongestSuffix_from]
    congr 1
    funext c
    exact Bool.not_not _
  have hcut := Glob.cutShortestPrefix_exactly (text.takeWhile (· == '0')) (text.dropWhile (· == '0'))
  rwa [List.takeWhile_append_dropWhile, ← hzeros] at hcut

theorem decimal_stripped (text : List Char) : decimal (text.dropWhile (· == '0')) = decimal text := by
  have hzeros : ∀ c ∈ text.takeWhile (· == '0'), c = '0' := by
    intro c hc
    simpa using List.mem_takeWhile_imp hc
  rw [← decimal_zeros hzeros, List.takeWhile_append_dropWhile]

/-- More than five digits, the first of them not zero, are too much; fewer are compared as they are. -/
theorem port_in_range {text : List Char} (h : ∀ c ∈ text, isDigit c = true) :
    ¬ (5 < (text.dropWhile (· == '0')).length ∨ shellNumber (text.dropWhile (· == '0')) < 1 ∨
        65535 < shellNumber (text.dropWhile (· == '0'))) ↔ 1 ≤ decimal text ∧ decimal text ≤ 65535 := by
  rw [← decimal_stripped text]
  cases hstripped : text.dropWhile (· == '0') with
  | nil => simp [shellNumber, decimal]
  | cons c digits =>
    have hc : isDigit c = true := h c (List.dropWhile_subset _ (hstripped ▸ List.mem_cons_self))
    have hne : c ≠ '0' := by
      have hhead := List.head?_dropWhile_not (· == '0') text
      rw [hstripped] at hhead
      simpa using hhead
    have hge := decimal_ge hc hne digits
    have hnumber : shellNumber (c :: digits) = decimal (c :: digits) := rfl
    rw [hnumber, List.length_cons]
    constructor
    · intro hrange
      omega
    · intro hrange
      have hshort : digits.length < 5 := by
        by_contra hlong
        have : 10 ^ 5 ≤ 10 ^ digits.length := Nat.pow_le_pow_right (by decide) (by omega)
        omega
      omega

theorem validateAddress_iff {value : List Char} :
    validateAddress value = .ok () ↔ ∃ host digits port, Form value host digits ∧ IsPort digits port := by
  constructor
  · intro h
    obtain ⟨text, htext, h⟩ := bind_ok h
    split at h
    · cases h
    rename_i hnumeric
    rw [not_or, Glob.fits_has] at hnumeric
    have hdigits : ∀ c ∈ text, isDigit c = true := by
      intro c hc
      by_contra hnot
      exact hnumeric.2 ⟨c, hc, by simpa using hnot⟩
    simp only [stripped_eq] at h
    split at h
    · cases h
    rename_i hrange
    obtain ⟨hpositive, hbounded⟩ := (port_in_range hdigits).1 hrange
    obtain ⟨host, hform⟩ := form_of_addressPortText htext hdigits
    exact ⟨host, text, decimal text, hform, hdigits, rfl, hpositive, hbounded⟩
  · intro h
    obtain ⟨host, digits, port, hform, hport⟩ := h
    have htext := addressPortText_of_form hform (not_mem_of_digits hport.ascii (by decide))
    have hnumeric : ¬ (digits = [] ∨ fits [.many, .one (!isDigit ·), .many] digits = true) := by
      rw [not_or, Glob.fits_has]
      refine ⟨hport.ne_nil, fun h => ?_⟩
      obtain ⟨c, hc, hnot⟩ := h
      simp [hport.ascii c hc] at hnot
    have hrange := (port_in_range hport.ascii).2 (by
      rw [hport.denotes]
      exact ⟨hport.positive, hport.bounded⟩)
    rw [validateAddress, htext]
    simp only [Except.bind, bind, stripped_eq, if_neg hnumeric, if_neg hrange]

/-! ## Main theorem -/

theorem both_parsers_accept_one_grammar (value : String) :
    (∀ host port, parseAddress value = some ⟨host, port⟩ ↔
      ∃ digits, Form value.toList host.toList digits ∧ IsPort digits port) ∧
    (validateAddress value.toList = .ok () ↔ (parseAddress value).isSome = true) := by
  refine ⟨fun host port => parseAddress_iff, ?_⟩
  rw [validateAddress_iff, Option.isSome_iff_exists]
  constructor
  · intro h
    obtain ⟨host, digits, port, hform, hport⟩ := h
    refine ⟨⟨String.ofList host, port⟩, parseAddress_iff.2 ⟨digits, ?_, hport⟩⟩
    rwa [String.toList_ofList]
  · intro h
    obtain ⟨⟨host, port⟩, hparse⟩ := h
    obtain ⟨digits, hform, hport⟩ := parseAddress_iff.1 hparse
    exact ⟨host.toList, digits, port, hform, hport⟩

end OmpRelayd.Extension
