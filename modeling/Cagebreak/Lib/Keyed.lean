/-
Lists that are kept as maps.

Each element has a key (`f`).  An element that is inserted takes the place of the
one with its key, or comes last when there is none.

* `Keyed.find?_ofList` — what is found under a key is the element that was inserted
  last with it;
* `Keyed.nodup_ofList` — no key is there twice;
* `Keyed.replaced_concat` — an insertion replaces what was found under the key.
-/
import Mathlib.Data.List.Dedup
import Mathlib.Data.List.Induction
import Mathlib.Data.List.Nodup
import Mathlib.Data.List.Perm.Basic
import Mathlib.Data.List.Perm.Subperm
import Mathlib.Tactic.Common

namespace Keyed

variable {α κ : Type} [DecidableEq κ] (f : α → κ)

/-- An element takes the place of the one with its key, or comes last. -/
def insert (l : List α) (a : α) : List α :=
  match l.findIdx? (fun b => f b = f a) with
  | some i => l.set i a
  | none => l ++ [a]

/-- The elements are inserted one after another. -/
def ofList (as : List α) : List α := as.foldl (insert f) []

/-- The last element with a key. -/
def last (q : κ) : List α → Option α
  | [] => none
  | a :: as => (last q as).or (if f a = q then some a else none)

/-- The elements that a later one with the same key replaces. -/
def replaced : List α → List α
  | [] => []
  | a :: as => if as.any (fun b => f b = f a) then a :: replaced as else replaced as

variable {f} {l as bs : List α} {a b : α} {q : κ} {i : ℕ}

/-! ### Insertion -/

theorem insert_of_findIdx?_eq_none (h : l.findIdx? (fun b => f b = f a) = none) :
    insert f l a = l ++ [a] := by
  rw [insert, h]

theorem insert_of_findIdx?_eq_some (h : l.findIdx? (fun b => f b = f a) = some i) :
    insert f l a = l.set i a := by
  rw [insert, h]

/-- The element at an index that is found has the key. -/
theorem of_findIdx?_eq_some (h : l.findIdx? (fun b => f b = q) = some i) :
    ∃ hi : i < l.length, f l[i] = q := by
  obtain ⟨hi, hq, -⟩ := List.findIdx?_eq_some_iff_getElem.mp h
  exact ⟨hi, by simpa using hq⟩

/-- The keys after an insertion. -/
theorem map_insert :
    (insert f l a).map f = if f a ∈ l.map f then l.map f else l.map f ++ [f a] := by
  cases hfind : l.findIdx? (fun b => f b = f a) with
  | none =>
    have hnot : f a ∉ l.map f := by
      intro hmem
      obtain ⟨b, hb, hkey⟩ := List.mem_map.mp hmem
      have hne := List.findIdx?_eq_none_iff.mp hfind b hb
      simp [hkey] at hne
    rw [insert_of_findIdx?_eq_none hfind, if_neg hnot, List.map_append]
    rfl
  | some i =>
    obtain ⟨hi, hkey⟩ := of_findIdx?_eq_some hfind
    have hmem : f a ∈ l.map f := List.mem_map.mpr ⟨l[i], List.getElem_mem hi, hkey⟩
    rw [insert_of_findIdx?_eq_some hfind, if_pos hmem, List.map_set, ← hkey]
    refine List.ext_getElem? fun j => ?_
    by_cases hj : i = j
    · subst hj
      simp [hi]
    · rw [List.getElem?_set_ne hj]

theorem nodup_insert (h : (l.map f).Nodup) : ((insert f l a).map f).Nodup := by
  rw [map_insert]
  split
  · exact h
  · next hnot =>
    refine List.nodup_append.mpr ⟨h, List.nodup_singleton _, ?_⟩
    intro b hb c hc
    rw [List.mem_singleton.mp hc]
    exact fun heq => hnot (heq ▸ hb)

/-- Elements with other keys stay where they are. -/
theorem getElem?_insert (h : l[i]? = some b) (hne : f b ≠ f a) : (insert f l a)[i]? = some b := by
  cases hfind : l.findIdx? (fun b => f b = f a) with
  | none =>
    rw [insert_of_findIdx?_eq_none hfind,
      List.getElem?_append_left (List.getElem?_eq_some_iff.mp h).1]
    exact h
  | some j =>
    obtain ⟨hj, hkey⟩ := of_findIdx?_eq_some hfind
    have hij : j ≠ i := by
      intro heq
      subst heq
      rw [List.getElem?_eq_getElem hj] at h
      rw [Option.some.inj h] at hkey
      exact hne hkey
    rw [insert_of_findIdx?_eq_some hfind, List.getElem?_set_ne hij]
    exact h

/-- In a list without repeated keys, an element is what is found under its key. -/
theorem find?_eq_some (hn : (l.map f).Nodup) (hb : b ∈ l) (hq : f b = q) :
    l.find? (fun b => f b = q) = some b := by
  cases hfind : l.find? (fun b => f b = q) with
  | none =>
    have hne := List.find?_eq_none.mp hfind b hb
    simp [hq] at hne
  | some c =>
    have hc : f c = q := by simpa using List.find?_some hfind
    rw [List.inj_on_of_nodup_map hn (List.mem_of_find?_eq_some hfind) hb (hc.trans hq.symm)]

theorem find?_insert_self (hn : (l.map f).Nodup) :
    (insert f l a).find? (fun b => f b = f a) = some a := by
  refine find?_eq_some (nodup_insert hn) ?_ rfl
  cases hfind : l.findIdx? (fun b => f b = f a) with
  | none =>
    rw [insert_of_findIdx?_eq_none hfind]
    exact List.mem_append_right _ (List.mem_singleton_self a)
  | some i =>
    rw [insert_of_findIdx?_eq_some hfind]
    exact List.mem_set (of_findIdx?_eq_some hfind).1 a

theorem find?_insert_of_ne (hn : (l.map f).Nodup) (hq : q ≠ f a) :
    (insert f l a).find? (fun b => f b = q) = l.find? (fun b => f b = q) := by
  cases hfind : l.find? (fun b => f b = q) with
  | some b =>
    have hkey : f b = q := by simpa using List.find?_some hfind
    obtain ⟨i, hi⟩ := List.mem_iff_getElem?.mp (List.mem_of_find?_eq_some hfind)
    have hmem := List.mem_of_getElem? (getElem?_insert hi (a := a) (hkey ▸ hq))
    exact find?_eq_some (nodup_insert hn) hmem hkey
  | none =>
    rw [List.find?_eq_none]
    intro b hb
    have hmem : f b ∈ (insert f l a).map f := List.mem_map_of_mem hb
    rw [map_insert] at hmem
    have hcases : f b ∈ l.map f ∨ f b = f a := by
      split at hmem
      · exact .inl hmem
      · simpa using hmem
    obtain hold | hnew := hcases
    · obtain ⟨c, hc, hcb⟩ := List.mem_map.mp hold
      have hne := List.find?_eq_none.mp hfind c hc
      rwa [hcb] at hne
    · simp [hnew, Ne.symm hq]

/-! ### Runs of insertions -/

@[simp] theorem ofList_concat : ofList f (as ++ [a]) = insert f (ofList f as) a := by
  simp [ofList]

theorem nodup_ofList : ((ofList f as).map f).Nodup := by
  induction as using List.reverseRecOn with
  | nil => exact List.nodup_nil
  | append_singleton as a ih =>
    rw [ofList_concat]
    exact nodup_insert ih

theorem last_concat : last f q (as ++ [a]) = if f a = q then some a else last f q as := by
  induction as with
  | nil => simp [last]
  | cons b as ih =>
    rw [List.cons_append, last, ih, last]
    split
    · rfl
    · rfl

/-- **What is found under a key is the element inserted last with it.** -/
theorem find?_ofList : (ofList f as).find? (fun b => f b = q) = last f q as := by
  induction as using List.reverseRecOn with
  | nil => rfl
  | append_singleton as a ih =>
    rw [ofList_concat, last_concat]
    split
    · next h =>
      subst h
      exact find?_insert_self nodup_ofList
    · next h => rw [find?_insert_of_ne nodup_ofList (Ne.symm h), ih]

theorem mem_map_ofList : q ∈ (ofList f as).map f ↔ q ∈ as.map f := by
  induction as using List.reverseRecOn with
  | nil => rfl
  | append_singleton as a ih =>
    rw [ofList_concat, map_insert, List.map_append, List.mem_append, List.map_singleton,
      List.mem_singleton]
    split
    · next hmem =>
      rw [ih]
      refine ⟨.inl, fun h => h.elim id fun hq => ?_⟩
      rw [← ih, hq]
      exact hmem
    · rw [List.mem_append, List.mem_singleton, ih]

/-- There are as many elements as there are keys. -/
theorem length_ofList : (ofList f as).length = (as.map f).dedup.length := by
  have hperm : ((ofList f as).map f).Perm (as.map f).dedup :=
    (List.perm_ext_iff_of_nodup nodup_ofList (List.nodup_dedup _)).mpr fun q => by
      rw [List.mem_dedup, mem_map_ofList]
  rw [← hperm.length_eq, List.length_map]

/-! ### What is replaced -/

theorem replaced_sublist : (replaced f as).Sublist as := by
  induction as with
  | nil => exact .slnil
  | cons a as ih =>
    rw [replaced]
    split
    · exact ih.cons_cons a
    · exact ih.cons a

/-- What is replaced stays replaced. -/
theorem replaced_subset_append : replaced f as ⊆ replaced f (as ++ bs) := by
  induction as with
  | nil => exact List.nil_subset _
  | cons a as ih =>
    rw [List.cons_append, replaced, replaced, List.any_append]
    split
    · next h =>
      rw [h, Bool.true_or, if_pos rfl]
      exact List.cons_subset_cons a ih
    · split
      · exact List.subset_cons_of_subset a ih
      · exact ih

theorem last_eq_none : last f q as = none ↔ as.any (fun b => f b = q) = false := by
  induction as with
  | nil => simp [last]
  | cons a as ih => simp [last, ih, and_comm]

/-- **An insertion replaces what was found under the key.** -/
theorem replaced_concat :
    (replaced f (as ++ [a])).Perm ((last f (f a) as).toList ++ replaced f as) := by
  induction as with
  | nil => simp [replaced, last]
  | cons b as ih =>
    rw [List.cons_append, replaced, replaced, last, List.any_append]
    by_cases hany : as.any (fun c => f c = f b) = true
    · rw [hany, Bool.true_or, if_pos rfl, if_pos rfl]
      have hlast : (last f (f a) as).or (if f b = f a then some b else none) = last f (f a) as := by
        split
        · next hkey =>
          rw [hkey] at hany
          cases hlast : last f (f a) as with
          | none =>
            rw [last_eq_none.mp hlast] at hany
            cases hany
          | some c => rfl
        · rw [Option.or_none]
      rw [hlast]
      exact (ih.cons b).trans List.perm_middle.symm
    · rw [Bool.not_eq_true] at hany
      rw [hany, if_neg Bool.false_ne_true]
      by_cases hkey : f a = f b
      · have hlast : last f (f a) as = none := last_eq_none.mpr (hkey ▸ hany)
        rw [hlast] at ih ⊢
        simp only [List.any_cons, List.any_nil, hkey, decide_true, Bool.or_false, Bool.or_true]
        exact ih.cons b
      · have hne : f b ≠ f a := fun h => hkey h.symm
        rw [if_neg hne, Option.or_none]
        simp only [List.any_cons, List.any_nil, hkey, decide_false, Bool.or_false]
        exact ih

/-- Of different elements, those that come last are the ones that are not replaced. -/
theorem last_eq_some (hn : as.Nodup) : last f (f a) as = some a ↔ a ∈ as ∧ a ∉ replaced f as := by
  induction as with
  | nil => simp [last]
  | cons b as ih =>
    obtain ⟨hnotMem, hn⟩ := List.nodup_cons.mp hn
    have hnotReplaced : b ∉ replaced f as := fun h => hnotMem (replaced_sublist.subset h)
    rw [last, replaced, Option.or_eq_some_iff, ih hn, last_eq_none]
    by_cases hab : a = b
    · subst hab
      cases hany : as.any (fun c => f c = f a) with
      | true => simp [hnotMem]
      | false => simp [hnotReplaced]
    · have hnot : ¬ (as.any (fun c => f c = f a) = false ∧
          (if f b = f a then some b else none) = some a) := by
        rintro ⟨-, h⟩
        split at h
        · exact hab (Option.some.inj h).symm
        · cases h
      rw [or_iff_left hnot, List.mem_cons, or_iff_right hab]
      split
      · rw [List.mem_cons, or_iff_right hab]
      · rfl

/-- Of different elements, those that are there are the ones that are not replaced. -/
theorem mem_ofList (hn : as.Nodup) : a ∈ ofList f as ↔ a ∈ as ∧ a ∉ replaced f as := by
  rw [← last_eq_some hn, ← find?_ofList]
  exact ⟨fun h => find?_eq_some nodup_ofList h rfl, List.mem_of_find?_eq_some⟩

end Keyed
