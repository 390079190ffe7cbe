/-
  OmpRelayd.Lib.Run — runs of a partial step function.

  A system is a step function `σ → ε → Option σ`: the event carries every choice the
  environment makes, and `none` says the event cannot happen in that state. `Reach step
  init ok` holds of the states some run leads to, each of whose events met `ok` in the
  state before it; `Always` as the condition admits every run. `Reach.inv` is the one
  induction every invariant of such a system uses, and `Reach.of_run` turns an evaluated
  list of events into a reached state.
-/

namespace OmpRelayd

variable {σ ε : Type}

/-- The condition every event meets. -/
def Always (_ : σ) (_ : ε) : Prop := True

inductive Reach (step : σ → ε → Option σ) (init : σ) (ok : σ → ε → Prop) : σ → Prop
  | init : Reach step init ok init
  | step {s t : σ} (e : ε) : Reach step init ok s → ok s e → step s e = some t → Reach step init ok t

/-- Take the events in order; `none` at the first that cannot happen. -/
def run (step : σ → ε → Option σ) : σ → List ε → Option σ
  | s, [] => some s
  | s, e :: es => (step s e).bind fun t => run step t es

/-- As `run`, stopping also at the first event that does not meet the condition. -/
def runIf (step : σ → ε → Option σ) (ok : σ → ε → Bool) : σ → List ε → Option σ
  | s, [] => some s
  | s, e :: es => if ok s e then (step s e).bind fun t => runIf step ok t es else none

variable {step : σ → ε → Option σ} {init : σ} {ok ok' : σ → ε → Prop}

theorem Reach.inv {P : σ → Prop} (h0 : P init) (hs : ∀ s e t, P s → ok s e → step s e = some t → P t) {s : σ}
    (h : Reach step init ok s) : P s := by
  induction h with
  | init => exact h0
  | step e _ hok he ih => exact hs _ e _ ih hok he

theorem Reach.mono (h : ∀ s e, ok s e → ok' s e) {s : σ} (hr : Reach step init ok s) : Reach step init ok' s := by
  induction hr with
  | init => exact .init
  | step e _ hok he ih => exact .step e ih (h _ _ hok) he

/-- Every state an evaluated run passes through is reached. -/
theorem Reach.of_run {s t : σ} (es : List ε) (hs : Reach step init Always s) (h : run step s es = some t) :
    Reach step init Always t := by
  induction es generalizing s with
  | nil => cases h; exact hs
  | cons e es ih =>
    obtain ⟨u, hu, ht⟩ := Option.bind_eq_some_iff.mp h
    exact ih (.step e hs trivial hu) ht

/-- A run that was evaluated to the end. -/
theorem some_getD_of_isSome {last : Option σ} (h : last.isSome = true) (default : σ) : last = some (last.getD default) := by
  obtain ⟨s, rfl⟩ := Option.isSome_iff_exists.mp h
  rfl

theorem Reach.of_runIf (okb : σ → ε → Bool) (hok : ∀ s e, okb s e = true → ok s e) {s t : σ} (es : List ε)
    (hs : Reach step init ok s) (h : runIf step okb s es = some t) : Reach step init ok t := by
  induction es generalizing s with
  | nil => cases h; exact hs
  | cons e es ih =>
    simp only [runIf] at h
    split at h
    · rename_i he
      obtain ⟨u, hu, ht⟩ := Option.bind_eq_some_iff.mp h
      exact ih (.step e hs (hok s e he) hu) ht
    · cases h

end OmpRelayd
