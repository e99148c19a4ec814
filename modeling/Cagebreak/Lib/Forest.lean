/-
Forests of nodes.

A node has a parent at most, and destroying a node destroys all nodes below it.
`Path f n l` says that `l` are the nodes met on the way from `n` to its root;
`live_destroy` tells from this way what is left of a forest.
-/
import Mathlib.Data.List.Basic
import Mathlib.Logic.Function.Basic
import Mathlib.Tactic.Common

/-- Nodes are numbers below `top`. -/
structure Forest where
  top : ℕ
  live : ℕ → Bool
  parent : ℕ → Option ℕ

namespace Forest

/-- `m` is `n`, or meets `n` within `k` steps upwards. -/
def below (f : Forest) (n : ℕ) : ℕ → ℕ → Bool
  | 0, m => decide (m = n)
  | k + 1, m => decide (m = n) || (f.parent m).any (below f n k)

/-- A single root. -/
def single : Forest where
  top := 1
  live n := decide (n = 0)
  parent _ := none

/-- A new node below `p`; it is the former `top`. -/
def create (f : Forest) (p : ℕ) : Forest where
  top := f.top + 1
  live := Function.update f.live f.top true
  parent := Function.update f.parent f.top (some p)

/-- Put a node, with all that is below it, below `p`. -/
def reparent (f : Forest) (n p : ℕ) : Forest :=
  { f with parent := Function.update f.parent n (some p) }

/-- Destroy a node and all that is below it. -/
def destroy (f : Forest) (n : ℕ) : Forest :=
  { f with live := fun m => f.live m && !f.below n f.top m }

/-- The way from a node to its root. -/
inductive Path (f : Forest) : ℕ → List ℕ → Prop
  | root {m : ℕ} (h : f.parent m = none) : Path f m [m]
  | step {m p : ℕ} {l : List ℕ} (h : f.parent m = some p) (hp : Path f p l) : Path f m (m :: l)

variable {f g : Forest} {n m p k : ℕ} {l : List ℕ}

theorem Path.length_pos (h : f.Path m l) : 1 ≤ l.length := by
  cases h with
  | root => exact Nat.le_refl _
  | step => exact Nat.succ_le_succ (Nat.zero_le _)

/-- A node is below those on its way to the root. -/
theorem below_iff (h : f.Path m l) (hk : l.length ≤ k + 1) : f.below n k m = true ↔ n ∈ l := by
  induction h generalizing k with
  | root h =>
    cases k with
    | zero => simp [below, eq_comm]
    | succ k => simp [below, h, eq_comm]
  | step h hp ih =>
    rw [List.length_cons] at hk
    cases k with
    | zero =>
      have hpos := hp.length_pos
      omega
    | succ k =>
      have hrest := ih (k := k) (by omega)
      rw [below, h, Option.any_some, Bool.or_eq_true, hrest, decide_eq_true_eq, List.mem_cons]
      exact or_congr_left eq_comm

/-- **What is left.**  Destroying `n` spares the nodes that are not below it. -/
theorem live_destroy (h : f.Path m l) (hl : l.length ≤ f.top + 1) :
    (f.destroy n).live m = true ↔ f.live m = true ∧ n ∉ l := by
  have hbelow := below_iff (n := n) h hl
  show (f.live m && !f.below n f.top m) = true ↔ _
  rw [Bool.and_eq_true, Bool.not_eq_true', ← Bool.not_eq_true, hbelow]

/-- The way of a node is the same when the parents on it are. -/
theorem Path.congr (h : f.Path m l) (hp : ∀ q ∈ l, g.parent q = f.parent q) : g.Path m l := by
  induction h with
  | root h => exact .root ((hp _ List.mem_cons_self).trans h)
  | step h _ ih =>
    exact .step ((hp _ List.mem_cons_self).trans h)
      (ih fun q hq => hp q (List.mem_cons_of_mem _ hq))

@[simp] theorem create_parent_self : (f.create p).parent f.top = some p := Function.update_self ..

@[simp] theorem create_live_self : (f.create p).live f.top = true := Function.update_self ..

/-- The other nodes are as before. -/
theorem create_of_lt (h : m < f.top) :
    (f.create p).parent m = f.parent m ∧ (f.create p).live m = f.live m :=
  ⟨Function.update_of_ne (Nat.ne_of_lt h) .., Function.update_of_ne (Nat.ne_of_lt h) ..⟩

@[simp] theorem reparent_parent_self : (f.reparent n p).parent n = some p :=
  Function.update_self ..

theorem reparent_parent_of_ne (h : m ≠ n) : (f.reparent n p).parent m = f.parent m :=
  Function.update_of_ne h ..

end Forest
