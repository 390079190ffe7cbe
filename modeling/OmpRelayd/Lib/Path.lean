/-
  OmpRelayd.Lib.Path — Unix paths, as the standard library of Rust joins them and takes them
  apart.

  A path is its text. `components` cuts it at the separators and drops what names nothing: empty
  pieces, and `.` anywhere but at the beginning. Two paths are the same to the library if their
  components are. A name that is plain is one component whatever it is joined to
  (`components_join`).
-/

import Mathlib

namespace OmpRelayd

abbrev PathBuf := List Char

inductive Component where
  | rootDir
  | curDir
  | parentDir
  | normal (name : List Char)
  deriving DecidableEq, Repr

def Component.ofPiece (piece : List Char) : Option Component :=
  if piece = [] ∨ piece = ['.'] then none
  else if piece = ['.', '.'] then some .parentDir
  else some (.normal piece)

namespace PathBuf

/-- An absolute path takes the place of what it is joined to. -/
def join (path component : PathBuf) : PathBuf :=
  if component.head? = some '/' then component
  else if path = [] ∨ path.getLast? = some '/' then path ++ component
  else path ++ '/' :: component

/-- What a path says of where it begins. -/
def opening (path : PathBuf) : List Component :=
  if path.head? = some '/' then [.rootDir]
  else if path.takeWhile (· ≠ '/') = ['.'] then [.curDir]
  else []

def components (path : PathBuf) : List Component := path.opening ++ (path.splitOn '/').filterMap Component.ofPiece

/-- It is neither nothing nor a way to stay or go up, and is one piece. -/
structure Plain (name : List Char) : Prop where
  something : name ≠ []
  notHere : name ≠ ['.']
  notUp : name ≠ ['.', '.']
  onePiece : '/' ∉ name

theorem Plain.ofPiece {name : List Char} (h : Plain name) : Component.ofPiece name = some (.normal name) := by
  unfold Component.ofPiece
  rw [if_neg (not_or.2 ⟨h.something, h.notHere⟩), if_neg h.notUp]

/-- Where a path begins is settled by its first separator. -/
theorem opening_append {path : PathBuf} (h : path ≠ []) (rest : List Char) :
    opening (path ++ '/' :: rest) = opening path := by
  have hhead : (path ++ '/' :: rest).head? = path.head? := by
    cases path with
    | nil => exact absurd rfl h
    | cons c path => rfl
  have htake : (path ++ '/' :: rest).takeWhile (· ≠ '/') = path.takeWhile (· ≠ '/') := by
    clear h hhead
    induction path with
    | nil => rfl
    | cons c path ih => rw [List.cons_append, List.takeWhile_cons, List.takeWhile_cons, ih]
  rw [opening, opening, hhead, htake]

theorem components_separated (path : PathBuf) {name : List Char} (h : Plain name) :
    components (path ++ '/' :: name) =
      opening (path ++ '/' :: name) ++ (path.splitOn '/').filterMap Component.ofPiece ++ [.normal name] := by
  rw [components, List.splitOn_append_cons_self, List.splitOn_eq_singleton h.onePiece, List.filterMap_append,
    List.filterMap_cons_some h.ofPiece, List.filterMap_nil, List.append_assoc]

theorem components_plain {name : List Char} (h : Plain name) : components name = [.normal name] := by
  have hhead : name.head? ≠ some '/' := fun hhead => h.onePiece (List.mem_of_head? hhead)
  have htake : name.takeWhile (· ≠ '/') = name := by
    rw [List.takeWhile_eq_self_iff]
    intro c hc
    simpa using ne_of_mem_of_not_mem hc h.onePiece
  rw [components, opening, if_neg hhead, htake, if_neg h.notHere, List.splitOn_eq_singleton h.onePiece,
    List.filterMap_cons_some h.ofPiece]
  rfl

/-- A separator at the end of a path names nothing. -/
theorem components_trailing {path : PathBuf} {name : List Char} (hlast : path.getLast? = some '/')
    (h : Plain name) : components (path ++ name) = components path ++ [.normal name] := by
  obtain ⟨front, rfl⟩ := List.getLast?_eq_some_iff.1 hlast
  have hopening : opening (front ++ '/' :: name) = opening (front ++ ['/']) := by
    cases front with
    | nil => rfl
    | cons c front => rw [opening_append (List.cons_ne_nil c front), opening_append (List.cons_ne_nil c front)]
  have hpieces : components (front ++ ['/']) =
      opening (front ++ ['/']) ++ (front.splitOn '/').filterMap Component.ofPiece := by
    rw [components, List.splitOn_append_cons_self, List.filterMap_append, List.splitOn_nil]
    simp [Component.ofPiece]
  rw [List.append_assoc, List.singleton_append, components_separated front h, hopening, hpieces]

theorem components_join (path : PathBuf) {name : List Char} (h : Plain name) :
    (path.join name).components = path.components ++ [.normal name] := by
  have hhead : name.head? ≠ some '/' := fun hhead => h.onePiece (List.mem_of_head? hhead)
  rw [join, if_neg hhead]
  by_cases hpath : path = []
  · subst hpath
    rw [if_pos (.inl rfl)]
    exact components_plain h
  by_cases hlast : path.getLast? = some '/'
  · rw [if_pos (.inr hlast)]
    exact components_trailing hlast h
  · rw [if_neg (not_or.2 ⟨hpath, hlast⟩)]
    rw [components_separated path h, opening_append hpath]
    rfl

end PathBuf

end OmpRelayd
