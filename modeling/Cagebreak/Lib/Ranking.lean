/-
Lists ranked by a key.

`Ranked key l`: no element of the list has a greater key than one before it.
`rankedInsert key a l` puts `a` behind all elements whose key is as great, so that
equal elements stay in the order in which they came.
-/
import Mathlib.Data.List.Nodup
import Mathlib.Data.List.TakeWhile
import Mathlib.Order.Lattice

namespace Ranking

variable {α κ : Type} [LinearOrder κ] {key key' : α → κ} {a b : α} {l l' : List α}

/-- The keys never grow along the list. -/
def Ranked (key : α → κ) (l : List α) : Prop := l.Pairwise fun a b => key b ≤ key a

/-- Insert an element before the first one with a smaller key. -/
def rankedInsert (key : α → κ) (a : α) (l : List α) : List α :=
  l.takeWhile (fun b => decide (key a ≤ key b)) ++
    a :: l.dropWhile fun b => decide (key a ≤ key b)

theorem Ranked.nil : Ranked key [] := List.Pairwise.nil

theorem Ranked.sublist (h : Ranked key l) (hl : l'.Sublist l) : Ranked key l' :=
  List.Pairwise.sublist hl h

/-- Only the keys of the elements matter. -/
theorem Ranked.congr (h : Ranked key l) (hkey : ∀ a ∈ l, key' a = key a) : Ranked key' l := by
  refine List.Pairwise.imp_of_mem ?_ h
  intro a b ha hb hab
  rw [hkey a ha, hkey b hb]
  exact hab

theorem le_of_mem_takeWhile (hb : b ∈ l.takeWhile fun b => decide (key a ≤ key b)) :
    key a ≤ key b := by
  have htest := List.mem_takeWhile_imp hb
  exact of_decide_eq_true htest

/-- Behind the place of insertion all keys are smaller. -/
theorem Ranked.lt_of_mem_dropWhile (h : Ranked key l)
    (hb : b ∈ l.dropWhile fun b => decide (key a ≤ key b)) : key b < key a := by
  induction l with
  | nil => exact absurd hb List.not_mem_nil
  | cons c l ih =>
    obtain ⟨hc, hl⟩ := List.pairwise_cons.mp h
    by_cases hac : key a ≤ key c
    · rw [List.dropWhile_cons, if_pos (decide_eq_true hac)] at hb
      exact ih hl hb
    · have hca : key c < key a := not_le.mp hac
      rw [List.dropWhile_cons, if_neg (by simpa using hac)] at hb
      obtain rfl | hb := List.mem_cons.mp hb
      · exact hca
      · exact (hc b hb).trans_lt hca

/-- **The place of insertion.**  It lies between the elements with a key that is
at least as great and those with a smaller one, which stay in their order. -/
theorem Ranked.insert_between (h : Ranked key l) (a : α) : ∃ before behind,
    l = before ++ behind ∧ rankedInsert key a l = before ++ a :: behind ∧
      (∀ b ∈ before, key a ≤ key b) ∧ ∀ b ∈ behind, key b < key a :=
  ⟨l.takeWhile _, l.dropWhile _, List.takeWhile_append_dropWhile.symm, rfl,
    fun _ hb => le_of_mem_takeWhile hb, fun _ hb => h.lt_of_mem_dropWhile hb⟩

theorem Ranked.insert (h : Ranked key l) (a : α) : Ranked key (rankedInsert key a l) := by
  obtain ⟨before, behind, hl, hins, hbefore, hbehind⟩ := h.insert_between a
  rw [hl] at h
  obtain ⟨hrank, hrank', hacross⟩ := List.pairwise_append.mp h
  rw [hins]
  refine List.pairwise_append.mpr ⟨hrank, List.pairwise_cons.mpr ⟨?_, hrank'⟩, ?_⟩
  · intro b hb
    exact (hbehind b hb).le
  · intro b hb c hc
    obtain rfl | hc := List.mem_cons.mp hc
    · exact hbefore b hb
    · exact hacross b hb c hc

end Ranking
