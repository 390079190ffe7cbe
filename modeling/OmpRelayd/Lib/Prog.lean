/-
  OmpRelayd.Lib.Prog — programs that call on a state others share.

  A program is a tree of calls: each names an operation, and what follows depends on the
  answer. Nothing in the tree says what an operation does, so one program can be run to its
  end with nobody in between (`exec`), or kept as the rest of a task that other tasks'
  steps come between.

  Both readings are reasoned about through `Obeys`: the program is held to rules, which say
  in each state of a private record what it may call next, how the answer moves the record
  on, and in which state it may stop. `Obeys.bind` proves such a bound part by part. A task
  that obeys its rules keeps obeying them from the record its last answer led to
  (`Obeys.answer`), whatever others did meanwhile; a program run alone keeps any relation
  between the record and the state that every allowed call keeps (`Obeys.exec`).
-/

namespace OmpRelayd

inductive Prog (Op : Type) (Resp : Op → Type) (α : Type) : Type where
  | done (a : α)
  | call (op : Op) (k : Resp op → Prog Op Resp α)

namespace Prog

variable {Op : Type} {Resp : Op → Type} {α β σ τ : Type}

def bind : Prog Op Resp α → (α → Prog Op Resp β) → Prog Op Resp β
  | .done a, f => f a
  | .call op k, f => .call op fun r => (k r).bind f

instance : Monad (Prog Op Resp) where
  pure := .done
  bind := bind

/-- One call, and its answer. -/
def ask (op : Op) : Prog Op Resp (Resp op) := .call op .done

/-- Run the program with nobody in between. -/
def exec (sem : σ → (op : Op) → Resp op × σ) : Prog Op Resp α → σ → α × σ
  | .done a, s => (a, s)
  | .call op k, s => (k (sem s op).1).exec sem (sem s op).2

/-! ## Rules -/

/-- What a program may call, by the state of its record, and where an answer leads. -/
structure Rules (Op : Type) (Resp : Op → Type) (τ : Type) where
  may : τ → Op → Prop
  next : τ → (op : Op) → Resp op → τ

/-- From record `t` the program makes only allowed calls, and stops only where `fin` holds. -/
def Obeys (R : Rules Op Resp τ) (fin : τ → α → Prop) : τ → Prog Op Resp α → Prop
  | t, .done a => fin t a
  | t, .call op k => R.may t op ∧ ∀ r, (k r).Obeys R fin (R.next t op r)

variable {R : Rules Op Resp τ} {fin : τ → α → Prop} {t : τ}

@[simp] theorem obeys_pure {a : α} : (pure a : Prog Op Resp α).Obeys R fin t ↔ fin t a := Iff.rfl

@[simp] theorem obeys_ask {op : Op} {fin : τ → Resp op → Prop} :
    (ask op : Prog Op Resp (Resp op)).Obeys R fin t ↔ R.may t op ∧ ∀ r, fin (R.next t op r) r := Iff.rfl

/-- A part may stop wherever the rest may go on. -/
@[simp] theorem obeys_bind {p : Prog Op Resp β} {f : β → Prog Op Resp α} :
    (p >>= f).Obeys R fin t ↔ p.Obeys R (fun t b => (f b).Obeys R fin t) t := by
  show (p.bind f).Obeys R fin t ↔ _
  induction p generalizing t with
  | done b => exact Iff.rfl
  | call op k ih => exact and_congr Iff.rfl (forall_congr' fun r => ih r)

/-- A task whose call has been answered goes on obeying. -/
theorem Obeys.answer {op : Op} {k : Resp op → Prog Op Resp α} (h : (Prog.call op k).Obeys R fin t) (r : Resp op) :
    R.may t op ∧ (k r).Obeys R fin (R.next t op r) := ⟨h.1, h.2 r⟩

/-- Run alone, a program keeps what every allowed call keeps, and ends where the rules let it. -/
theorem Obeys.exec {sem : σ → (op : Op) → Resp op × σ} {I : τ → σ → Prop} {p : Prog Op Resp α} {s : σ}
    (h : p.Obeys R fin t) (hI : I t s)
    (hstep : ∀ t s op, I t s → R.may t op → I (R.next t op (sem s op).1) (sem s op).2) :
    ∃ t', fin t' (p.exec sem s).1 ∧ I t' (p.exec sem s).2 := by
  induction p generalizing t s with
  | done a => exact ⟨t, h, hI⟩
  | call op k ih => exact ih _ (h.2 _) (hstep t s op hI h.1)

end Prog

end OmpRelayd
