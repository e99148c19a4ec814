/-
Computations on machine integers.

A computation on unbounded integers stops with an error of type `φ`.  On machine
integers it can stop with `overflow` as well, whenever a result does not fit:
`checked P n` is a result `n` that has to satisfy `P`, and `lift` takes a computation
without such results over.

* `bind_lift`, `allM_lift`, `foldlM_lift` — a computation on machine integers is the
  lifted one if its steps are.  A step is only looked at where the lifted computation
  gets to it.
-/
import Mathlib.Data.Int.Notation
import Mathlib.Data.List.Basic
import Mathlib.Tactic.Common

namespace Overflow

variable {φ α β σ : Type}

/-- Why a computation on machine integers stopped. -/
inductive Stop (φ : Type)
  | fault (e : φ)
  | overflow
  deriving DecidableEq, Repr

/-- The result of one operation, which fits if it satisfies `P`. -/
def checked (P : ℤ → Prop) [DecidablePred P] (n : ℤ) : Except (Stop φ) ℤ :=
  if P n then .ok n else .error .overflow

variable {P : ℤ → Prop} [DecidablePred P] {n : ℤ}

theorem checked_of (h : P n) : (checked P n : Except (Stop φ) ℤ) = .ok n := if_pos h

theorem checked_of_not (h : ¬ P n) : (checked P n : Except (Stop φ) ℤ) = .error .overflow :=
  if_neg h

/-- A computation in which nothing can overflow. -/
def lift : Except φ α → Except (Stop φ) α
  | .ok a => .ok a
  | .error e => .error (.fault e)

@[simp] theorem lift_ok (a : α) : lift (.ok a : Except φ α) = .ok a := rfl

@[simp] theorem lift_error (e : φ) : lift (.error e : Except φ α) = .error (.fault e) := rfl

theorem lift_ne_overflow (m : Except φ α) : lift m ≠ .error .overflow := by
  cases m with
  | ok a => simp
  | error e => simp

/-- Steps that follow a lifted computation. -/
theorem bind_lift {m : Except φ α} {f : α → Except (Stop φ) β} {g : α → Except φ β}
    (h : ∀ a, m = .ok a → f a = lift (g a)) : lift m >>= f = lift (m >>= g) := by
  cases m with
  | ok a => exact h a rfl
  | error e => rfl

/-- A result that fits is handed on. -/
theorem checked_bind (h : P n) (f : ℤ → Except (Stop φ) β) : checked P n >>= f = f n := by
  rw [checked_of h]
  rfl

theorem ite_lift {c : Prop} [Decidable c] {f f' : Except (Stop φ) β} {g g' : Except φ β}
    (h : c → f = lift g) (h' : ¬ c → f' = lift g') :
    (if c then f else f') = lift (if c then g else g') := by
  by_cases hc : c
  · rw [if_pos hc, if_pos hc]
    exact h hc
  · rw [if_neg hc, if_neg hc]
    exact h' hc

/-- A question asked about the elements of a list. -/
theorem allM_lift {p : α → Except (Stop φ) Bool} {q : α → Except φ Bool} {l : List α}
    (h : ∀ a ∈ l, p a = lift (q a)) : l.allM p = lift (l.allM q) := by
  induction l with
  | nil => rfl
  | cons a l ih =>
    rw [List.allM, List.allM, h a List.mem_cons_self]
    refine bind_lift fun b _ => ?_
    cases b with
    | true => exact ih fun c hc => h c (List.mem_cons_of_mem _ hc)
    | false => rfl

/-- A loop over a list.  The iteration for `a` is looked at in the states that the
iterations for the elements before it lead to. -/
theorem foldlM_lift {f : σ → α → Except (Stop φ) σ} {g : σ → α → Except φ σ} {l : List α} {s : σ}
    (h : ∀ l₁ a l₂ s', l = l₁ ++ a :: l₂ → l₁.foldlM g s = .ok s' → f s' a = lift (g s' a)) :
    l.foldlM f s = lift (l.foldlM g s) := by
  induction l generalizing s with
  | nil => rfl
  | cons a l ih =>
    rw [List.foldlM_cons, List.foldlM_cons, h [] a l s rfl rfl]
    refine bind_lift fun s₁ hs₁ => ih fun l₁ b l₂ s' hl hs' => ?_
    refine h (a :: l₁) b l₂ s' (congrArg (List.cons a) hl) ?_
    rw [List.foldlM_cons, hs₁]
    exact hs'

end Overflow
