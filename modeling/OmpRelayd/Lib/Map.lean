/-
  OmpRelayd.Lib.Map — finite maps with a running total.

  A map is Mathlib's `AList` over a constant family: an association list whose keys are
  distinct. What is added here is what an incrementally maintained total needs: the sum
  of a weight over a map's entries (`sumBy`), and how one insertion, removal, filter or
  pointwise update moves that sum. Every weight lemma is stated additively, so that a
  running total in `Nat` never needs truncated subtraction to follow it.
-/

import Mathlib

namespace OmpRelayd

/-- A finite map from `κ` to `ν`. -/
abbrev Map (κ ν : Type) := AList fun _ : κ => ν

namespace Map

variable {κ ν μ : Type}

/-- The sum of `f` over a map's values. -/
def sumBy (f : ν → Nat) (m : Map κ ν) : Nat := (m.entries.map fun e => f e.2).sum

def size (m : Map κ ν) : Nat := m.entries.length

def isEmpty (m : Map κ ν) : Bool := m.entries.isEmpty

/-- Keep the entries that satisfy `p`. -/
def retain (p : κ → ν → Bool) (m : Map κ ν) : Map κ ν :=
  ⟨m.entries.filter fun e => p e.1 e.2, m.nodupKeys.sublist (List.filter_sublist)⟩

/-- Replace every value, leaving the keys as they are. -/
def mapVals (f : κ → ν → μ) (m : Map κ ν) : Map κ μ :=
  ⟨m.entries.map fun e => ⟨e.1, f e.1 e.2⟩, List.NodupKeys.map₂ f m.entries m.nodupKeys⟩

/-- What a filter keeps and what it drops together weigh what was there. -/
theorem sumBy_retain (f : ν → Nat) (p : κ → ν → Bool) (m : Map κ ν) :
    sumBy f (m.retain p) + ((m.entries.filter fun e => !p e.1 e.2).map fun e => f e.2).sum = sumBy f m := by
  unfold sumBy retain
  simp only
  generalize m.entries = l
  induction l with
  | nil => rfl
  | cons e l ih => by_cases h : p e.1 e.2 <;> simp [h] <;> omega

theorem sumBy_mapVals (g : μ → Nat) (f : κ → ν → μ) (m : Map κ ν) :
    sumBy g (m.mapVals f) = (m.entries.map fun e => g (f e.1 e.2)).sum := by
  simp [sumBy, mapVals, List.map_map, Function.comp_def]

theorem sum_le_of_keys {l : List (Σ _ : κ, ν)} {f : ν → Nat} (hl : l.NodupKeys) {ws : List (κ × Nat)}
    (h : ∀ e ∈ l, ∃ w, (e.1, w) ∈ ws ∧ f e.2 ≤ w) : (l.map fun e => f e.2).sum ≤ (ws.map (·.2)).sum := by
  induction l generalizing ws with
  | nil => exact Nat.zero_le _
  | cons e l ih =>
    obtain ⟨w, hw, hle⟩ := h e List.mem_cons_self
    obtain ⟨hne, hl⟩ := List.nodupKeys_cons.mp hl
    obtain ⟨ws₁, ws₂, rfl⟩ := List.append_of_mem hw
    -- the other keys differ from this one, so their weights are among the rest
    have hrest : (l.map fun e => f e.2).sum ≤ ((ws₁ ++ ws₂).map (·.2)).sum := by
      refine ih hl fun e' he' => ?_
      obtain ⟨w', hw', hle'⟩ := h e' (List.mem_cons_of_mem _ he')
      refine ⟨w', ?_, hle'⟩
      rcases List.mem_append.mp hw' with hw' | hw'
      · exact List.mem_append_left _ hw'
      · rcases List.mem_cons.mp hw' with hw' | hw'
        · have hk : e.1 = e'.1 := (congrArg Prod.fst hw').symm
          exact absurd (hk ▸ List.mem_keys_of_mem he') hne
        · exact List.mem_append_right _ hw'
    simp only [List.map_append, List.sum_append, List.map_cons, List.sum_cons] at hrest ⊢
    omega

variable [DecidableEq κ]

theorem mem_entries_of_lookup {m : Map κ ν} {k : κ} {v : ν} (h : m.lookup k = some v) :
    (⟨k, v⟩ : Σ _ : κ, ν) ∈ m.entries := AList.mem_lookup_iff.mp h

theorem lookup_of_mem_entries {m : Map κ ν} {e : Σ _ : κ, ν} (h : e ∈ m.entries) : m.lookup e.1 = some e.2 :=
  AList.mem_lookup_iff.mpr h

theorem exists_lookup_of_mem {m : Map κ ν} {k : κ} (h : k ∈ m) : ∃ v, m.lookup k = some v :=
  Option.isSome_iff_exists.mp (AList.lookup_isSome.mpr h)

/-- A value of an updated map is the new one, under its key, or one that was there. -/
theorem lookup_insert_some {m : Map κ ν} {k j : κ} {v w : ν} (h : (m.insert k v).lookup j = some w) :
    (j = k ∧ w = v) ∨ (j ≠ k ∧ m.lookup j = some w) := by
  by_cases e : j = k
  · subst e; rw [AList.lookup_insert] at h; exact .inl ⟨rfl, (Option.some.inj h).symm⟩
  · rw [AList.lookup_insert_ne e] at h; exact .inr ⟨e, h⟩

theorem lookup_erase_some {m : Map κ ν} {k j : κ} {w : ν} (h : (m.erase k).lookup j = some w) :
    j ≠ k ∧ m.lookup j = some w := by
  by_cases e : j = k
  · subst e; rw [AList.lookup_erase] at h; cases h
  · rw [AList.lookup_erase_ne e] at h; exact ⟨e, h⟩

theorem lookup_erase_none {m : Map κ ν} {k j : κ} (h : m.lookup j = none) : (m.erase k).lookup j = none := by
  by_cases e : j = k
  · subst e; exact AList.lookup_erase _ _
  · rw [AList.lookup_erase_ne e]; exact h

/-! ## Sums -/

/-- Removing a key takes exactly its value's weight out of the sum. -/
theorem sumBy_erase (f : ν → Nat) (m : Map κ ν) (k : κ) :
    sumBy f (m.erase k) + (m.lookup k).elim 0 f = sumBy f m := by
  by_cases hk : k ∈ m
  · obtain ⟨v, l₁, l₂, hn, he, hk'⟩ := List.exists_of_kerase (AList.mem_keys.mp hk)
    have hv : m.lookup k = some v := lookup_of_mem_entries (e := ⟨k, v⟩) (by rw [he]; simp)
    have herase : (m.erase k).entries = l₁ ++ l₂ := hk'
    simp only [sumBy, herase, hv, he, Option.elim_some, List.map_append, List.map_cons, List.sum_append,
      List.sum_cons]
    omega
  · have hv : m.lookup k = none := AList.lookup_eq_none.mpr hk
    have herase : (m.erase k).entries = m.entries := List.kerase_of_notMem_keys hk
    simp [sumBy, herase, hv]

/-- Inserting a key adds its new weight and takes out the weight it displaced. -/
theorem sumBy_insert (f : ν → Nat) (m : Map κ ν) (k : κ) (v : ν) :
    sumBy f (m.insert k v) + (m.lookup k).elim 0 f = sumBy f m + f v := by
  have hi : sumBy f (m.insert k v) = f v + sumBy f (m.erase k) := by
    simp only [sumBy, AList.entries_insert, List.map_cons, List.sum_cons]; rfl
  have he := sumBy_erase f m k
  omega

theorem sumBy_insert_new (f : ν → Nat) {m : Map κ ν} {k : κ} (h : m.lookup k = none) (v : ν) :
    sumBy f (m.insert k v) = sumBy f m + f v := by
  have := sumBy_insert f m k v
  simpa [h] using this

theorem le_sumBy (f : ν → Nat) {m : Map κ ν} {k : κ} {v : ν} (h : m.lookup k = some v) : f v ≤ sumBy f m := by
  have := sumBy_erase f m k
  rw [h] at this
  simp only [Option.elim_some] at this
  omega

/-- An entry weighing something keeps the sum positive; so a sum of zero means no entries,
    when every weight is positive. -/
theorem size_mul_le_sumBy {f : ν → Nat} {c : Nat} {m : Map κ ν} (h : ∀ k v, m.lookup k = some v → c ≤ f v) :
    size m * c ≤ sumBy f m := by
  have hall : ∀ e ∈ m.entries, c ≤ f e.2 := fun e he => h e.1 e.2 (lookup_of_mem_entries he)
  unfold size sumBy
  generalize m.entries = l at hall
  induction l with
  | nil => simp
  | cons e l ih =>
    have h1 := hall e (by simp)
    have h2 := ih fun e' he' => hall e' (by simp [he'])
    simp only [List.length_cons, List.map_cons, List.sum_cons, Nat.add_mul, Nat.one_mul]
    omega

/-- Two weights that are ordered on every entry have ordered sums. -/
theorem sumBy_le_sumBy {f g : ν → Nat} {m : Map κ ν} (h : ∀ k v, m.lookup k = some v → f v ≤ g v) :
    sumBy f m ≤ sumBy g m := by
  have hall : ∀ e ∈ m.entries, f e.2 ≤ g e.2 := fun e he => h e.1 e.2 (lookup_of_mem_entries he)
  unfold sumBy
  generalize m.entries = l at hall
  induction l with
  | nil => simp
  | cons e l ih =>
    have h1 := hall e (by simp)
    have h2 := ih fun e' he' => hall e' (by simp [he'])
    simp only [List.map_cons, List.sum_cons]
    omega

/-- A map weighs no more than a list that has, under each of its keys, at least the key's weight. -/
theorem sumBy_le_of_keys {f : ν → Nat} {m : Map κ ν} {ws : List (κ × Nat)}
    (h : ∀ k v, m.lookup k = some v → ∃ w, (k, w) ∈ ws ∧ f v ≤ w) : sumBy f m ≤ (ws.map (·.2)).sum :=
  sum_le_of_keys m.nodupKeys fun e he => h e.1 e.2 (lookup_of_mem_entries he)

/-! ## Retaining -/

theorem lookup_retain (p : κ → ν → Bool) (m : Map κ ν) (k : κ) :
    (m.retain p).lookup k = (m.lookup k).filter (p k) := by
  apply Option.ext
  intro v
  rw [Option.filter_eq_some_iff]
  constructor
  · intro h
    have hm := List.mem_filter.mp (mem_entries_of_lookup (m := m.retain p) h)
    exact ⟨lookup_of_mem_entries hm.1, hm.2⟩
  · rintro ⟨h, hp⟩
    exact lookup_of_mem_entries (m := m.retain p) (e := ⟨k, v⟩)
      (List.mem_filter.mpr ⟨mem_entries_of_lookup h, hp⟩)

/-! ## Pointwise updates -/

theorem lookup_mapVals (f : κ → ν → μ) (m : Map κ ν) (k : κ) : (m.mapVals f).lookup k = (m.lookup k).map (f k) := by
  unfold mapVals AList.lookup
  exact List.dlookup_map₂ (γ := fun _ => ν) (δ := fun _ => μ) (f := f) k

/-! ## Emptiness -/

theorem isEmpty_iff {m : Map κ ν} : m.isEmpty = true ↔ ∀ k, m.lookup k = none := by
  unfold isEmpty
  rw [List.isEmpty_iff]
  constructor
  · intro h k
    exact AList.lookup_eq_none.mpr (by simp [AList.mem_keys, AList.keys, h])
  · intro h
    rcases he : m.entries with _ | ⟨e, l⟩
    · rfl
    · have := lookup_of_mem_entries (m := m) (e := e) (by simp [he])
      rw [h] at this; cases this

theorem not_isEmpty_of_lookup {m : Map κ ν} {k : κ} {v : ν} (h : m.lookup k = some v) : m.isEmpty = false := by
  cases he : m.isEmpty
  · rfl
  · rw [isEmpty_iff.mp he] at h; cases h

theorem exists_lookup_of_not_isEmpty {m : Map κ ν} (h : m.isEmpty = false) : ∃ k v, m.lookup k = some v := by
  unfold isEmpty at h
  rcases he : m.entries with _ | ⟨e, l⟩
  · simp [he] at h
  · exact ⟨e.1, e.2, lookup_of_mem_entries (by simp [he])⟩

end Map

end OmpRelayd
