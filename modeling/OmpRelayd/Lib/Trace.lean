/-
  OmpRelayd.Lib.Trace — runs that keep their past.

  `traced step` is the system `step` with its history: every event taken so far with the
  state it was taken in, newest first. `Since hold start` is the past-time operator: at some
  moment of the past `start` was true, and `hold` has been at every moment after it. `Each ok`
  says that every moment was all right by what had come before it.
-/

import Mathlib
import OmpRelayd.Lib.Run

namespace OmpRelayd

variable {σ ε : Type}

/-- An event and the state it was taken in. -/
structure Moment (σ ε : Type) where
  before : σ
  event : ε

def traced (step : σ → ε → Option σ) (s : σ × List (Moment σ ε)) (e : ε) : Option (σ × List (Moment σ ε)) :=
  (step s.1 e).map fun t => (t, ⟨s.1, e⟩ :: s.2)

theorem traced_some {step : σ → ε → Option σ} {s t : σ} {past past' : List (Moment σ ε)} {e : ε}
    (h : traced step (s, past) e = some (t, past')) : step s e = some t ∧ past' = ⟨s, e⟩ :: past := by
  obtain ⟨u, hu, he⟩ := Option.map_eq_some_iff.mp h
  cases he
  exact ⟨hu, rfl⟩

/-- What some run leads to, with the past of that run. -/
abbrev History (step : σ → ε → Option σ) (init : σ) (ok : σ → ε → Prop) : σ × List (Moment σ ε) → Prop :=
  Reach (traced step) (init, []) fun s e => ok s.1 e

/-- A run takes only the moments that its past holds. -/
theorem Reach.within {step : σ → ε → Option σ} {init s : σ} {ok : σ → ε → Prop} {past : List (Moment σ ε)}
    (h : History step init ok (s, past)) :
    Reach step init (fun s e => ok s e ∧ ⟨s, e⟩ ∈ past) s := by
  -- the past only grows, so what is shown is the same for every longer one
  suffices hlonger : ∀ later : List (Moment σ ε), past ⊆ later →
      Reach step init (fun s e => ok s e ∧ ⟨s, e⟩ ∈ later) s from hlonger past (List.Subset.refl _)
  refine h.inv (P := fun t => ∀ later : List (Moment σ ε), t.2 ⊆ later →
    Reach step init (fun s e => ok s e ∧ ⟨s, e⟩ ∈ later) t.1) (fun _ _ => .init) ?_
  rintro ⟨s, past⟩ e ⟨t, past'⟩ hs hok he later hlater
  obtain ⟨hstep, rfl⟩ := traced_some he
  obtain ⟨hnow, hbefore⟩ := List.cons_subset.mp hlater
  exact .step e (hs later hbefore) ⟨hok, hnow⟩ hstep

def Since {μ : Type} (hold start : μ → Prop) : List μ → Prop
  | [] => False
  | m :: past => start m ∨ hold m ∧ Since hold start past

theorem Since.exists_mem {μ : Type} {hold start : μ → Prop} {past : List μ} (h : Since hold start past) :
    ∃ m ∈ past, start m := by
  induction past with
  | nil => exact h.elim
  | cons m past ih =>
    rcases h with hs | ⟨_, hp⟩
    · exact ⟨m, List.mem_cons_self, hs⟩
    · obtain ⟨n, hn, hs⟩ := ih hp
      exact ⟨n, List.mem_cons_of_mem _ hn, hs⟩

theorem Since.of_append {μ : Type} {hold start : μ → Prop} {newer older : List μ} {m : μ} (hs : start m)
    (hh : ∀ n ∈ newer, hold n) : Since hold start (newer ++ m :: older) := by
  induction newer with
  | nil => exact .inl hs
  | cons n newer ih =>
    obtain ⟨hn, hh⟩ := List.forall_mem_cons.mp hh
    exact .inr ⟨hn, ih hh⟩

/-- A moment at which neither held divides the past: what started did so after it. -/
theorem Since.after {μ : Type} {hold start : μ → Prop} {newer older : List μ} {m : μ} (hs : ¬ start m) (hh : ¬ hold m)
    (h : Since hold start (newer ++ m :: older)) : Since hold start newer := by
  induction newer with
  | nil =>
    rcases h with h | ⟨h, _⟩
    · exact hs h
    · exact hh h
  | cons n newer ih =>
    rcases h with h | ⟨hn, h⟩
    · exact .inl h
    · exact .inr ⟨hn, ih h⟩

def Each {μ : Type} (ok : μ → List μ → Prop) (past : List μ) : Prop :=
  ∀ newer m older, past = newer ++ m :: older → ok m older

theorem Each.nil {μ : Type} {ok : μ → List μ → Prop} : Each ok [] := by
  intro newer m older h
  cases newer <;> cases h

theorem Each.cons {μ : Type} {ok : μ → List μ → Prop} {m : μ} {past : List μ} (hm : ok m past) (h : Each ok past) :
    Each ok (m :: past) := by
  intro newer n older he
  cases newer with
  | nil => cases he; exact hm
  | cons _ newer =>
    obtain ⟨-, he⟩ := List.cons_eq_cons.mp he
    exact h newer n older he

theorem Each.of_append {μ : Type} {ok : μ → List μ → Prop} {newer older : List μ} (h : Each ok (newer ++ older)) :
    Each ok older :=
  fun newer' m older' he => h (newer ++ newer') m older' (by rw [he, List.append_assoc])

theorem Each.append {μ : Type} {ok : μ → List μ → Prop} {newer older : List μ} (hnew : ∀ m ∈ newer, ∀ past, ok m past)
    (h : Each ok older) : Each ok (newer ++ older) := by
  induction newer with
  | nil => exact h
  | cons m newer ih =>
    obtain ⟨hm, hnew⟩ := List.forall_mem_cons.mp hnew
    exact .cons (hm _) (ih hnew)

end OmpRelayd
