/-
  OmpRelayd.Lib.Handles — handles that someone remembers.

  A table hands out a fresh number for each thing put into it; each thing has an owner, and an
  owner remembers at most one number. `Remembered` says that what the owners remember is what is
  in the table: nothing in it is forgotten, and nothing remembered is gone.
-/

import OmpRelayd.Lib.Map

namespace OmpRelayd

variable {τ ω : Type}

structure Remembered (table : Map Nat τ) (next : Nat) (owner : τ → ω) (held : ω → Option Nat) : Prop where
  fresh : ∀ h t, table.lookup h = some t → h < next
  kept : ∀ h t, table.lookup h = some t → held (owner t) = some h
  there : ∀ o h, held o = some h → ∃ t, table.lookup h = some t ∧ owner t = o

namespace Remembered

variable {table : Map Nat τ} {next h : Nat} {owner : τ → ω} {held : ω → Option Nat} {o : ω} {t : τ}

theorem empty : Remembered (∅ : Map Nat τ) next owner fun _ => none :=
  ⟨nofun, nofun, nofun⟩

/-- What is in the table under one number has one owner. -/
theorem owner_eq (m : Remembered table next owner held) (hh : held o = some h) (ht : table.lookup h = some t) :
    owner t = o := by
  obtain ⟨t', ht', rfl⟩ := m.there o h hh
  cases ht.symm.trans ht'
  rfl

variable [DecidableEq ω]

/-- An owner gives up what it holds. -/
theorem drop (m : Remembered table next owner held) (hh : held o = some h) :
    Remembered (table.erase h) next owner (Function.update held o none) := by
  refine ⟨?_, ?_, ?_⟩
  · intro h' t ht
    exact m.fresh h' t (Map.lookup_erase_some ht).2
  · intro h' t ht
    obtain ⟨hne, ht⟩ := Map.lookup_erase_some ht
    have hk := m.kept h' t ht
    have ho : owner t ≠ o := by
      rintro rfl
      exact hne (Option.some.inj (hk.symm.trans hh))
    rw [Function.update_of_ne ho]; exact hk
  · intro o' h' hh'
    have ho : o' ≠ o := by
      rintro rfl
      rw [Function.update_self] at hh'; cases hh'
    rw [Function.update_of_ne ho] at hh'
    obtain ⟨t, ht, rfl⟩ := m.there o' h' hh'
    have hne : h' ≠ h := by
      rintro rfl
      exact ho (m.owner_eq hh ht)
    exact ⟨t, by rw [AList.lookup_erase_ne hne]; exact ht, rfl⟩

/-- An owner that holds nothing gets a fresh number. -/
theorem take (m : Remembered table next owner held) (ho : held (owner t) = none) :
    Remembered (table.insert next t) (next + 1) owner (Function.update held (owner t) (some next)) := by
  refine ⟨?_, ?_, ?_⟩
  · intro h t' ht
    rcases Map.lookup_insert_some ht with ⟨rfl, -⟩ | ⟨-, ht⟩
    · exact Nat.lt_succ_self h
    · exact Nat.lt_succ_of_lt (m.fresh h t' ht)
  · intro h t' ht
    rcases Map.lookup_insert_some ht with ⟨rfl, rfl⟩ | ⟨-, ht⟩
    · exact Function.update_self ..
    · have hk := m.kept h t' ht
      have hne : owner t' ≠ owner t := by
        intro e
        rw [e, ho] at hk; cases hk
      rw [Function.update_of_ne hne]; exact hk
  · intro o' h hh
    by_cases e : o' = owner t
    · subst e
      rw [Function.update_self] at hh
      cases hh
      exact ⟨t, AList.lookup_insert _, rfl⟩
    · rw [Function.update_of_ne e] at hh
      obtain ⟨t', ht, rfl⟩ := m.there o' h hh
      exact ⟨t', by rw [AList.lookup_insert_ne (Nat.ne_of_lt (m.fresh h t' ht))]; exact ht, rfl⟩

end Remembered

end OmpRelayd
