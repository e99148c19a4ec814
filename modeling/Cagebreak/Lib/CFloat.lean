/-
Floating point numbers of a C program, as far as they are compared and stored.

A value is a rational number, an infinity or not a number; the comparisons are
those of the language, false whenever one side is not a number.
-/
import Mathlib.Algebra.Order.Ring.Unbundled.Rat

/-- A floating point value. -/
inductive CFloat
  | fin (q : ℚ)
  | inf (neg : Bool)
  | nan
  deriving DecidableEq, Repr

namespace CFloat

/-- `a == b`. -/
def eq : CFloat → CFloat → Bool
  | nan, _ => false
  | _, nan => false
  | a, b => decide (a = b)

/-- `a < b`. -/
def lt : CFloat → CFloat → Bool
  | nan, _ => false
  | _, nan => false
  | inf a, inf b => a && !b
  | inf a, fin _ => a
  | fin _, inf b => !b
  | fin a, fin b => decide (a < b)

/-- `a <= b`. -/
def le (a b : CFloat) : Bool := lt a b || eq a b

theorem eq_fin {a : CFloat} {q : ℚ} : eq a (fin q) = true ↔ a = fin q := by
  cases a <;> simp [eq]

theorem eq_of_eq {a b : CFloat} (h : eq a b = true) : a = b := by
  cases a <;> cases b <;> simp_all [eq]

end CFloat
