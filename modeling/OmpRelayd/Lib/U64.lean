/-
  OmpRelayd.Lib.U64 — audited 64-bit unsigned arithmetic.

  An `Audit` computation returns a value and the list of `u64` expressions it evaluated,
  each with the operands it had. The unsaturated operators wrap, as a release build does;
  an expression is `Exact` when its machine result is the mathematical one. `Yields` says
  of a whole computation that it returns `v` and that every expression on the way was
  exact; its rules peel a computation apart one operator at a time.
-/

import Mathlib

namespace OmpRelayd

/-- One evaluated `u64` expression. -/
inductive Arith where
  | add (a b : Nat)
  | sub (a b : Nat)
  | mul (a b : Nat)
  | saturatingSub (a b : Nat)
  deriving DecidableEq, Repr

def Arith.Exact : Arith → Prop
  | .add a b => a + b < 2 ^ 64
  | .sub a b => b ≤ a
  | .mul a b => a * b < 2 ^ 64
  | .saturatingSub a b => b ≤ a

instance : DecidablePred Arith.Exact
  | .add _ _ => Nat.decLt _ _
  | .sub _ _ => Nat.decLe _ _
  | .mul _ _ => Nat.decLt _ _
  | .saturatingSub _ _ => Nat.decLe _ _

structure Audit (α : Type) where
  val : α
  log : List Arith

namespace Audit

variable {α β : Type}

instance : Monad Audit where
  pure a := ⟨a, []⟩
  bind x f := ⟨(f x.val).val, x.log ++ (f x.val).log⟩

/-- `x` returns `v`, and every expression it evaluated was exact. -/
def Yields (x : Audit α) (v : α) : Prop := x.val = v ∧ ∀ a ∈ x.log, a.Exact

theorem Yields.pure (v : α) : (Pure.pure v : Audit α).Yields v := ⟨rfl, by intro a ha; cases ha⟩

theorem Yields.bind {x : Audit α} {f : α → Audit β} {v : α} {w : β} (hx : x.Yields v) (hf : (f v).Yields w) :
    (x >>= f).Yields w := by
  obtain ⟨rfl, hl⟩ := hx
  refine ⟨hf.1, fun a ha => ?_⟩
  rcases List.mem_append.mp ha with ha | ha
  · exact hl a ha
  · exact hf.2 a ha

/-- Whatever the operators return on the way, the value satisfies `Q`. -/
def Ensures (x : Audit α) (Q : α → Prop) : Prop := Q x.val

theorem Ensures.pure {Q : α → Prop} {v : α} (h : Q v) : (Pure.pure v : Audit α).Ensures Q := h

theorem Ensures.bind {x : Audit α} {f : α → Audit β} {Q : β → Prop} (h : ∀ v, (f v).Ensures Q) : (x >>= f).Ensures Q :=
  h x.val

end Audit

namespace U64

def add (a b : Nat) : Audit Nat := ⟨(a + b) % 2 ^ 64, [.add a b]⟩

def sub (a b : Nat) : Audit Nat := ⟨(a + 2 ^ 64 - b) % 2 ^ 64, [.sub a b]⟩

def mul (a b : Nat) : Audit Nat := ⟨a * b % 2 ^ 64, [.mul a b]⟩

def saturatingSub (a b : Nat) : Audit Nat := ⟨a - b, [.saturatingSub a b]⟩

theorem add_yields {a b : Nat} (h : a + b < 2 ^ 64) : (add a b).Yields (a + b) :=
  ⟨Nat.mod_eq_of_lt h, by simpa [add, Arith.Exact] using h⟩

theorem sub_yields {a b : Nat} (ha : a < 2 ^ 64) (h : b ≤ a) : (sub a b).Yields (a - b) := by
  refine ⟨?_, by simp [sub, Arith.Exact, h]⟩
  have : a + 2 ^ 64 - b = a - b + 2 ^ 64 := by omega
  rw [sub, this, Nat.add_mod_right, Nat.mod_eq_of_lt (by omega)]

theorem mul_yields {a b : Nat} (h : a * b < 2 ^ 64) : (mul a b).Yields (a * b) :=
  ⟨Nat.mod_eq_of_lt h, by simpa [mul, Arith.Exact] using h⟩

theorem saturatingSub_yields {a b : Nat} (h : b ≤ a) : (saturatingSub a b).Yields (a - b) :=
  ⟨rfl, by simp [saturatingSub, Arith.Exact, h]⟩

end U64

end OmpRelayd
