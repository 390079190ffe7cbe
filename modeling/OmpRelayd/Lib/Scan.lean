/-
  OmpRelayd.Lib.Scan — reading items off a stream that arrives in pieces.

  A scanner looks at the front of what has arrived: it takes one item off, refuses for good, or
  waits for more. What it has decided, more input does not change. `scan` takes items off until
  the scanner waits or refuses; `Scanned.feed` goes on from there with the next piece.

  Proved: a piece can be cut anywhere (`scan_append`), so any way of cutting a stream gives the
  same items, the same refusal and the same place in the stream (`feed_flatten`); what is kept
  is shorter than any input the scanner never waits on (`rest_length_lt`); and what was written
  item by item is read back (`scan_written`), the first of it from any part (`scan_prefix`).
-/

import Mathlib

namespace OmpRelayd

inductive Next (α β ε : Type) where
  | more
  | refuse (error : ε)
  | item (value : β) (rest : List α)

structure Scanner (α β ε : Type) where
  next : List α → Next α β ε
  next_nil : next [] = .more
  suffix : ∀ {input value rest}, next input = .item value rest → rest <:+ input
  shorter : ∀ {input value rest}, next input = .item value rest → rest.length < input.length
  item_append : ∀ {input value rest}, next input = .item value rest →
    ∀ piece, next (input ++ piece) = .item value (rest ++ piece)
  refuse_append : ∀ {input error}, next input = .refuse error → ∀ piece, next (input ++ piece) = .refuse error

/-- How far a stream was read: the items, how much of it they took, what is kept for the next
    piece, and the refusal that ended it. -/
structure Scanned (α β ε : Type) where
  values : List β := []
  taken : Nat := 0
  rest : List α := []
  failure : Option ε := none

namespace Scanner

variable {α β ε : Type} (S : Scanner α β ε)

def scan (input : List α) : Scanned α β ε :=
  match h : S.next input with
  | .more => { rest := input }
  | .refuse error => { failure := some error }
  | .item value rest =>
    have := S.shorter h
    let s := scan rest
    { s with values := value :: s.values, taken := input.length - rest.length + s.taken }
termination_by input.length

variable {S} {input rest : List α} {value : β} {error : ε}

theorem scan_more (h : S.next input = .more) : S.scan input = { rest := input } := by
  rw [scan]
  split <;> simp_all

theorem scan_refuse (h : S.next input = .refuse error) : S.scan input = { failure := some error } := by
  rw [scan]
  split <;> simp_all

theorem scan_item (h : S.next input = .item value rest) :
    S.scan input = { S.scan rest with
      values := value :: (S.scan rest).values, taken := input.length - rest.length + (S.scan rest).taken } := by
  rw [scan]
  split <;> simp_all

/-- One case for each answer the scanner can give, with the claim for what is left after an item. -/
theorem scan_induction {P : List α → Prop} (more : ∀ input, S.next input = .more → P input)
    (refuse : ∀ input error, S.next input = .refuse error → P input)
    (item : ∀ input value rest, S.next input = .item value rest → P rest → P input) (input : List α) : P input := by
  induction input using (measure List.length).wf.induction with
  | _ input ih =>
  cases h : S.next input with
  | more => exact more input h
  | refuse error => exact refuse input error h
  | item value rest => exact item input value rest h (ih rest (S.shorter h))

/-- What an item leaves is the input from where the item ends. -/
theorem drop_item (h : S.next input = .item value rest) : input.drop (input.length - rest.length) = rest :=
  (List.suffix_iff_eq_drop.mp (S.suffix h)).symm

/-- Unless the scanner refuses, what is kept is the input from where the items end. -/
theorem scan_kept (input : List α) : (S.scan input).failure = none → input.drop (S.scan input).taken = (S.scan input).rest := by
  induction input using S.scan_induction with
  | more input h => rw [scan_more h]; exact fun _ => rfl
  | refuse input error h => rw [scan_refuse h]; exact nofun
  | item input value rest h ih =>
    rw [scan_item h]
    intro hnone
    rw [← List.drop_drop, drop_item h]
    exact ih hnone

theorem scan_refused (input : List α) : (S.scan input).failure ≠ none → (S.scan input).rest = [] := by
  induction input using S.scan_induction with
  | more input h => rw [scan_more h]; exact fun h => absurd rfl h
  | refuse input error h => rw [scan_refuse h]; exact fun _ => rfl
  | item input value rest h ih => rw [scan_item h]; exact ih

end Scanner

/-! ## Piece by piece -/

/-- The next piece of the stream. -/
def Scanned.feed {α β ε : Type} (S : Scanner α β ε) (s : Scanned α β ε) (piece : List α) : Scanned α β ε :=
  match s.failure with
  | some _ => s
  | none =>
    let t := S.scan (s.rest ++ piece)
    { t with values := s.values ++ t.values, taken := s.taken + t.taken }

namespace Scanner

variable {α β ε : Type} (S : Scanner α β ε)

/-- The items of `s` come before those of `t`. -/
theorem feed_after (value : β) (n : Nat) (s : Scanned α β ε) (piece : List α) :
    Scanned.feed S { s with values := value :: s.values, taken := n + s.taken } piece =
      { s.feed S piece with values := value :: (s.feed S piece).values, taken := n + (s.feed S piece).taken } := by
  cases hf : s.failure with
  | some error => simp only [Scanned.feed, hf]
  | none => simp only [Scanned.feed, hf, List.cons_append, Nat.add_assoc]

theorem scan_append (input piece : List α) : S.scan (input ++ piece) = (S.scan input).feed S piece := by
  induction input using S.scan_induction with
  | more input h =>
    rw [scan_more h]
    simp only [Scanned.feed, List.nil_append, Nat.zero_add]
  | refuse input error h => rw [scan_refuse h, scan_refuse (S.refuse_append h piece), Scanned.feed]
  | item input value rest h ih =>
    -- the item is taken off first, and what it took is the same with and without the piece
    have hlen := S.shorter h
    have htook : (input ++ piece).length - (rest ++ piece).length = input.length - rest.length := by
      simp only [List.length_append]
      omega
    rw [scan_item h, scan_item (S.item_append h piece), ih, htook, feed_after]

theorem scan_nil : S.scan [] = {} := scan_more S.next_nil

/-- Cutting a stream into pieces changes nothing. -/
theorem feed_flatten (pieces : List (List α)) : pieces.foldl (Scanned.feed S) {} = S.scan pieces.flatten := by
  induction pieces using List.reverseRecOn with
  | nil => exact S.scan_nil.symm
  | append_singleton pieces piece ih =>
    rw [List.foldl_append, ih, List.foldl_cons, List.foldl_nil, List.flatten_append, List.flatten_singleton,
      scan_append]

theorem rest_length_lt {n : Nat} (h : ∀ input, S.next input = .more → input.length < n) (input : List α) :
    (S.scan input).rest.length < n := by
  have hpos : 0 < n := h [] S.next_nil
  induction input using S.scan_induction with
  | more input hmore => rw [scan_more hmore]; exact h input hmore
  | refuse input error hrefuse => rw [scan_refuse hrefuse]; exact hpos
  | item input value rest hitem ih => rw [scan_item hitem]; exact ih

/-- Items written one after another are read back. -/
theorem scan_written {items : List (List α)} {values : List β}
    (h : List.Forall₂ (fun item value => ∀ rest, S.next (item ++ rest) = .item value rest) items values) :
    S.scan items.flatten = { values := values, taken := items.flatten.length } := by
  induction h with
  | nil => exact S.scan_nil
  | @cons item value items values hitem _ ih =>
    rw [List.flatten_cons, scan_item (hitem items.flatten), ih]
    simp only [List.length_append]
    congr 1
    omega

/-- Of a stream that is read to its end without a refusal, any part is, and gives its first items. -/
theorem scan_prefix {input whole : List α} (h : input <+: whole) (hwhole : (S.scan whole).failure = none) :
    (S.scan input).failure = none ∧ (S.scan input).values <+: (S.scan whole).values := by
  obtain ⟨rest, rfl⟩ := h
  rw [scan_append] at hwhole ⊢
  cases hf : (S.scan input).failure with
  | some error =>
    rw [Scanned.feed, hf] at hwhole
    rw [hf] at hwhole
    cases hwhole
  | none =>
    rw [Scanned.feed, hf]
    exact ⟨rfl, List.prefix_append ..⟩

end Scanner

end OmpRelayd
