/-
Computations that fail for several reasons.

`Meets m E Q` speaks about both outcomes of a computation: its result satisfies
`Q`, or its error satisfies `E`.  The rules follow the constructs of a program.
`Runs` lists the states that a step function reaches by admitted steps, for any
type of errors.
-/
import Mathlib.Data.List.Basic
import Mathlib.Tactic.Common

namespace Outcome

variable {φ α β σ ι : Type} {E E' : φ → Prop}

/-- If `m` returns, its result satisfies `Q`; if it fails, its error satisfies
`E`. -/
def Meets (m : Except φ α) (E : φ → Prop) (Q : α → Prop) : Prop :=
  match m with
  | .ok a => Q a
  | .error e => E e

theorem Meets.ok {a : α} {Q : α → Prop} (h : Q a) : Meets (.ok a) E Q := h

theorem Meets.error {e : φ} {Q : α → Prop} (h : E e) : Meets (.error e) E Q := h

theorem Meets.mono {m : Except φ α} {P Q : α → Prop} (h : Meets m E P) (he : ∀ e, E e → E' e)
    (hpq : ∀ a, P a → Q a) : Meets m E' Q := by
  cases m with
  | ok a => exact hpq a h
  | error e => exact he e h

theorem Meets.of_ok {m : Except φ α} {Q : α → Prop} {a : α} (h : Meets m E Q) (ha : m = .ok a) :
    Q a := by
  rw [ha] at h
  exact h

theorem Meets.of_error {m : Except φ α} {Q : α → Prop} {e : φ} (h : Meets m E Q)
    (he : m = .error e) : E e := by
  rw [he] at h
  exact h

theorem Meets.bind {m : Except φ α} {f : α → Except φ β} {P : α → Prop} {Q : β → Prop}
    (hm : Meets m E P) (hf : ∀ a, P a → Meets (f a) E Q) : Meets (m >>= f) E Q := by
  cases m with
  | ok a => exact hf a hm
  | error e => exact hm

theorem Meets.ite {c : Prop} [Decidable c] {m n : Except φ α} {Q : α → Prop}
    (hm : c → Meets m E Q) (hn : ¬ c → Meets n E Q) : Meets (if c then m else n) E Q := by
  by_cases h : c
  · rw [if_pos h]
    exact hm h
  · rw [if_neg h]
    exact hn h

/-- A loop over a list keeps what each of its iterations keeps. -/
theorem Meets.foldlM {f : β → α → Except φ β} {I : β → Prop} {l : List α}
    (hf : ∀ b, ∀ a ∈ l, I b → Meets (f b a) E I) {b : β} (hb : I b) :
    Meets (l.foldlM f b) E I := by
  induction l generalizing b with
  | nil => exact Meets.ok hb
  | cons a l ih =>
    rw [List.foldlM_cons]
    exact Meets.bind (hf b a List.mem_cons_self hb) fun b' hb' =>
      ih (fun b a ha => hf b a (List.mem_cons_of_mem _ ha)) hb'

theorem Meets.forM {f : α → Except φ PUnit} {l : List α}
    (hf : ∀ a ∈ l, Meets (f a) E fun _ => True) : Meets (l.forM f) E fun _ => True := by
  induction l with
  | nil => exact Meets.ok trivial
  | cons a l ih =>
    exact Meets.bind (hf a List.mem_cons_self) fun _ _ =>
      ih fun b hb => hf b (List.mem_cons_of_mem _ hb)

/-- `Runs step ok s t`: `t` is reached from `s` by steps that return, each of
which satisfies `ok` in the state it is taken in. -/
inductive Runs (step : σ → ι → Except φ σ) (ok : σ → ι → Prop) (s : σ) : σ → Prop
  | refl : Runs step ok s s
  | tail {t u : σ} {i : ι} : Runs step ok s t → ok t i → step t i = .ok u → Runs step ok s u

/-- **The invariant rule.**  What holds at the start and is kept by every
admitted step holds in every state reached. -/
theorem Runs.invariant {step : σ → ι → Except φ σ} {ok : σ → ι → Prop} {I : σ → Prop} {s t : σ}
    (h : Runs step ok s t) (h0 : I s)
    (hstep : ∀ t i, I t → ok t i → Meets (step t i) E I) : I t := by
  induction h with
  | refl => exact h0
  | tail _ hok hs ih => exact (hstep _ _ ih hok).of_ok hs

theorem Runs.trans {step : σ → ι → Except φ σ} {ok : σ → ι → Prop} {s t u : σ}
    (h : Runs step ok s t) (h' : Runs step ok t u) : Runs step ok s u := by
  induction h' with
  | refl => exact h
  | tail _ hok hs ih => exact ih.tail hok hs

/-- The computation returns, and its result passes the test. -/
def returns (m : Except φ α) (p : α → Bool) : Bool :=
  match m with
  | .ok a => p a
  | .error _ => false

theorem exists_of_returns {m : Except φ α} {p : α → Bool} (h : returns m p = true) :
    ∃ a, m = .ok a ∧ p a = true := by
  cases m with
  | ok a => exact ⟨a, rfl, h⟩
  | error e => simp [returns] at h

/-- A list of steps that are all admitted and return, and whose result passes the test. -/
def checked (step : σ → ι → Except φ σ) (ok : σ → ι → Prop) [∀ s i, Decidable (ok s i)]
    (p : σ → Bool) : σ → List ι → Bool
  | s, [] => p s
  | s, i :: l => decide (ok s i) && returns (step s i) fun t => checked step ok p t l

theorem exists_of_checked {step : σ → ι → Except φ σ} {ok : σ → ι → Prop}
    [∀ s i, Decidable (ok s i)] {p : σ → Bool} {l : List ι} {s : σ}
    (h : checked step ok p s l = true) : ∃ t, Runs step ok s t ∧ p t = true := by
  induction l generalizing s with
  | nil => exact ⟨s, .refl, h⟩
  | cons i l ih =>
    rw [checked, Bool.and_eq_true, decide_eq_true_eq] at h
    obtain ⟨u, hu, hl⟩ := exists_of_returns h.2
    obtain ⟨t, ht, hp⟩ := ih hl
    exact ⟨t, (Runs.tail .refl h.1 hu).trans ht, hp⟩

/-- The computation fails with this error. -/
def fails [DecidableEq φ] (m : Except φ α) (e : φ) : Bool :=
  match m with
  | .ok _ => false
  | .error e' => decide (e' = e)

theorem eq_error_of_fails [DecidableEq φ] {m : Except φ α} {e : φ} (h : fails m e = true) :
    m = .error e := by
  cases m with
  | ok a => cases h
  | error e' => rw [of_decide_eq_true h]

/-- A list of steps is a run. -/
theorem Runs.of_foldlM {step : σ → ι → Except φ σ} {l : List ι} {s t : σ}
    (h : l.foldlM step s = .ok t) : Runs step (fun _ _ => True) s t := by
  induction l generalizing s with
  | nil =>
    cases h
    exact .refl
  | cons i l ih =>
    rw [List.foldlM_cons] at h
    cases hi : step s i with
    | error e =>
      rw [hi] at h
      cases h
    | ok u =>
      rw [hi] at h
      exact Runs.trans (Runs.tail .refl trivial hi) (ih h)

end Outcome
