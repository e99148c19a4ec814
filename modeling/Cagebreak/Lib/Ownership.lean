/-
Objects on a heap that are owned once.

An object may own one other object (`link`), and some objects are owned by
roots, the places outside the heap that refer to them.

* `Owned` — the references to objects are the live objects, each of them once;
  it follows that a reference leads to a live object (`Owned.live`) and that a
  live object has exactly one owner (`Owned.existsUnique`);
* `IsChain` — the objects that are released with an object;
* `Owned.alloc`, `Owned.release` — new objects, and the end of a chain of them.
-/
import Mathlib.Data.List.Perm.Basic
import Mathlib.Data.List.Nodup
import Mathlib.Logic.Function.Basic
import Mathlib.Tactic.Common

namespace Ownership

variable {κ β : Type}

/-- What can own an object: the root at an index, or another object. -/
inductive Owner (κ : Type)
  | root (i : ℕ)
  | object (p : κ)

variable (link : β → Option κ)

/-- The object that an object of the heap owns. -/
def owned (h : κ → Option β) (k : κ) : Option κ := (h k).bind link

/-- The owner refers to the object. -/
def Owns (h : κ → Option β) (roots : List κ) : Owner κ → κ → Prop
  | .root i, k => roots[i]? = some k
  | .object p, k => owned link h p = some k

/-- The references to objects are a permutation of the live objects. -/
def Owned (h : κ → Option β) (roots : List κ) : Prop :=
  ∃ live : List κ, live.Nodup ∧ (∀ k, (h k).isSome ↔ k ∈ live) ∧
    live.Perm (roots ++ live.filterMap (owned link h))

/-- The objects that `k` owns, directly or not, after `k` itself. -/
inductive IsChain (h : κ → Option β) : κ → List κ → Prop
  | last {k : κ} {b : β} : h k = some b → link b = none → IsChain h k [k]
  | cons {k k' : κ} {b : β} {ks : List κ} : h k = some b → link b = some k' → IsChain h k' ks →
      IsChain h k (k :: ks)

/-- The heap without some objects. -/
def without [DecidableEq κ] (h : κ → Option β) (ks : List κ) : κ → Option β :=
  fun k => if k ∈ ks then none else h k

variable {link} {h h' : κ → Option β} {roots roots' ks ks' : List κ} {k k' : κ} {b : β}
  {o : Owner κ}

/-! ### Chains -/

namespace IsChain

theorem head_mem (hc : IsChain link h k ks) : k ∈ ks := by
  cases hc <;> exact List.mem_cons_self

theorem live (hc : IsChain link h k ks) : ∀ a ∈ ks, (h a).isSome := by
  induction hc with
  | last hk _ => simp [hk]
  | cons hk _ _ ih =>
    refine List.forall_mem_cons.mpr ⟨?_, ih⟩
    rw [hk]
    rfl

/-- What is released with an object is determined by the heap. -/
theorem unique (hc : IsChain link h k ks) (hc' : IsChain link h k ks') : ks = ks' := by
  induction hc generalizing ks' with
  | last hk hl =>
    cases hc' with
    | last => rfl
    | cons hk' hl' _ =>
      rw [hk] at hk'
      cases hk'
      rw [hl] at hl'
      cases hl'
  | cons hk hl _ ih =>
    cases hc' with
    | last hk' hl' =>
      rw [hk] at hk'
      cases hk'
      rw [hl] at hl'
      cases hl'
    | cons hk' hl' hc' =>
      rw [hk] at hk'
      cases hk'
      rw [hl] at hl'
      cases hl'
      rw [ih hc']

/-- A chain depends on its own objects only. -/
theorem congr (hc : IsChain link h k ks) (heq : ∀ a ∈ ks, h' a = h a) : IsChain link h' k ks := by
  induction hc with
  | last hk hl => exact .last ((heq _ List.mem_cons_self).trans hk) hl
  | cons hk hl _ ih =>
    exact .cons ((heq _ List.mem_cons_self).trans hk) hl
      (ih fun a ha => heq a (List.mem_cons_of_mem _ ha))

/-- An object of a chain has a chain that is no longer. -/
theorem exists_of_mem (hc : IsChain link h k ks) (ha : k' ∈ ks) :
    ∃ ks', IsChain link h k' ks' ∧ ks'.length ≤ ks.length := by
  induction hc with
  | last hk hl =>
    obtain rfl := List.mem_singleton.mp ha
    exact ⟨_, .last hk hl, Nat.le_refl _⟩
  | cons hk hl hc ih =>
    obtain rfl | ha := List.mem_cons.mp ha
    · exact ⟨_, .cons hk hl hc, Nat.le_refl _⟩
    · obtain ⟨ks', hc', hle⟩ := ih ha
      exact ⟨ks', hc', Nat.le_succ_of_le hle⟩

/-- A chain ends, so no object is there twice. -/
theorem nodup (hc : IsChain link h k ks) : ks.Nodup := by
  induction hc with
  | last => exact List.nodup_singleton _
  | cons hk hl hc ih =>
    refine List.nodup_cons.mpr ⟨fun hmem => ?_, ih⟩
    obtain ⟨ks', hc', hle⟩ := hc.exists_of_mem hmem
    rw [hc'.unique (.cons hk hl hc), List.length_cons] at hle
    exact Nat.not_succ_le_self _ hle

end IsChain

/-! ### Heaps without some objects -/

section

variable [DecidableEq κ]

@[simp] theorem without_nil : without h [] = h := by
  funext k
  simp [without]

theorem without_of_notMem (hk : k ∉ ks) : without h ks k = h k := if_neg hk

theorem without_of_mem (hk : k ∈ ks) : without h ks k = none := if_pos hk

/-- What is left without some objects was there. -/
theorem eq_of_without (hk : without h ks k = some b) : k ∉ ks ∧ h k = some b := by
  unfold without at hk
  split at hk
  · cases hk
  · next hmem => exact ⟨hmem, hk⟩

theorem update_without : Function.update (without h ks) k none = without h (k :: ks) := by
  funext a
  by_cases ha : a = k
  · subst ha
    rw [Function.update_self, without_of_mem List.mem_cons_self]
  · rw [Function.update_of_ne ha]
    simp [without, ha]

theorem without_perm (hp : ks.Perm ks') : without h ks = without h ks' := by
  funext a
  simp [without, hp.mem_iff]

theorem without_append : without (without h ks) ks' = without h (ks ++ ks') := by
  funext a
  by_cases ha : a ∈ ks' <;> simp [without, ha]

theorem without_without : without (without h [k]) ks = without h (k :: ks) := by
  funext a
  by_cases ha : a = k <;> simp [without, ha]

end

/-! ### Ownership -/

/-- A function without repeated values on a list is injective there. -/
theorem eq_of_mem_filterMap {f : κ → Option κ} (hn : (ks.filterMap f).Nodup) {p q : κ}
    (hp : p ∈ ks) (hq : q ∈ ks) (hpk : f p = some k) (hqk : f q = some k) : p = q := by
  induction ks with
  | nil => cases hp
  | cons a ks ih =>
    have hvalue : ∀ {x}, x ∈ ks → f x = some k → k ∈ ks.filterMap f := fun {x} hx hxk =>
      List.mem_filterMap.mpr ⟨x, hx, hxk⟩
    rcases List.mem_cons.mp hp with rfl | hp'
    · rw [List.filterMap_cons, hpk, List.nodup_cons] at hn
      rcases List.mem_cons.mp hq with rfl | hq'
      · rfl
      · exact absurd (hvalue hq' hqk) hn.1
    · rcases List.mem_cons.mp hq with rfl | hq'
      · rw [List.filterMap_cons, hqk, List.nodup_cons] at hn
        exact absurd (hvalue hp' hpk) hn.1
      · refine ih ?_ hp' hq'
        rw [List.filterMap_cons] at hn
        split at hn
        · exact hn
        · exact (List.nodup_cons.mp hn).2

namespace Owned

theorem nil : Owned link (fun _ => none) [] := ⟨[], List.nodup_nil, by simp, by simp⟩

theorem perm (ho : Owned link h roots) (hp : roots.Perm roots') : Owned link h roots' := by
  obtain ⟨live, hnodup, hlive, hperm⟩ := ho
  exact ⟨live, hnodup, hlive, hperm.trans (hp.append_right _)⟩

/-- The references, as a list, name live objects, and none of them twice. -/
theorem refs (ho : Owned link h roots) :
    ∃ live : List κ, (∀ k, (h k).isSome ↔ k ∈ live) ∧
      (roots ++ live.filterMap (owned link h)).Nodup ∧
      ∀ k, k ∈ roots ++ live.filterMap (owned link h) ↔ (h k).isSome := by
  obtain ⟨live, hnodup, hlive, hperm⟩ := ho
  exact ⟨live, hlive, hperm.nodup_iff.mp hnodup, fun k => by rw [hlive, hperm.mem_iff]⟩

theorem isSome_of_owned (hk : owned link h k = some k') : (h k).isSome := by
  unfold owned at hk
  obtain ⟨b, hb, -⟩ := Option.bind_eq_some_iff.mp hk
  rw [hb]
  rfl

/-- Every reference leads to a live object. -/
theorem live (ho : Owned link h roots) (hk : Owns link h roots o k) : (h k).isSome := by
  obtain ⟨live, hlive, -, hmem⟩ := ho.refs
  rw [← hmem, List.mem_append]
  cases o with
  | root i => exact .inl (List.mem_of_getElem? hk)
  | object p =>
    exact .inr (List.mem_filterMap.mpr ⟨p, (hlive p).mp (isSome_of_owned hk), hk⟩)

theorem mem_live (ho : Owned link h roots) (hk : k ∈ roots) : (h k).isSome := by
  obtain ⟨i, hi⟩ := List.mem_iff_getElem?.mp hk
  exact ho.live (o := .root i) hi

/-- Nothing has two owners. -/
theorem unique (ho : Owned link h roots) {o' : Owner κ} (hk : Owns link h roots o k)
    (hk' : Owns link h roots o' k) : o = o' := by
  obtain ⟨live, hlive, hnodup, -⟩ := ho.refs
  obtain ⟨hroots, hlinks, hdisj⟩ := List.nodup_append.mp hnodup
  have hmem : ∀ {p}, owned link h p = some k → k ∈ live.filterMap (owned link h) := fun {p} hp =>
    List.mem_filterMap.mpr ⟨p, (hlive p).mp (isSome_of_owned hp), hp⟩
  cases o with
  | root i =>
    cases o' with
    | root j =>
      obtain ⟨hi, -⟩ := List.getElem?_eq_some_iff.mp hk
      exact congrArg _ ((List.getElem?_inj hi hroots).mp (hk.trans hk'.symm))
    | object q => exact absurd rfl (hdisj _ (List.mem_of_getElem? hk) _ (hmem hk'))
  | object p =>
    cases o' with
    | root j => exact absurd rfl (hdisj _ (List.mem_of_getElem? hk') _ (hmem hk))
    | object q =>
      have hp := (hlive p).mp (isSome_of_owned hk)
      have hq := (hlive q).mp (isSome_of_owned hk')
      rw [eq_of_mem_filterMap hlinks hp hq hk hk']

/-- A live object has exactly one owner. -/
theorem existsUnique (ho : Owned link h roots) (hk : (h k).isSome) :
    ∃! o, Owns link h roots o k := by
  obtain ⟨live, hlive, -, hmem⟩ := ho.refs
  have hex : ∃ o, Owns link h roots o k := by
    rcases List.mem_append.mp ((hmem k).mpr hk) with hroot | hlink
    · obtain ⟨i, hi⟩ := List.mem_iff_getElem?.mp hroot
      exact ⟨.root i, hi⟩
    · obtain ⟨p, -, hp⟩ := List.mem_filterMap.mp hlink
      exact ⟨.object p, hp⟩
  obtain ⟨o, hown⟩ := hex
  exact ⟨o, hown, fun o' ho' => ho.unique ho' hown⟩

variable [DecidableEq κ]

/-- A new object takes what it owns from the roots, and is owned by one. -/
theorem alloc (ho : Owned link h ((link b).toList ++ roots)) (hk : h k = none) :
    Owned link (Function.update h k (some b)) (k :: roots) := by
  obtain ⟨live, hnodup, hlive, hperm⟩ := ho
  have hnew : k ∉ live := by
    rw [← hlive, hk]
    simp
  have hself : owned link (Function.update h k (some b)) k = link b := by
    rw [owned, Function.update_self]
    rfl
  have hother : live.filterMap (owned link (Function.update h k (some b))) =
      live.filterMap (owned link h) := by
    refine List.filterMap_congr fun a ha => ?_
    have hne : a ≠ k := fun h => hnew (h ▸ ha)
    rw [owned, owned, Function.update_of_ne hne]
  refine ⟨k :: live, List.nodup_cons.mpr ⟨hnew, hnodup⟩, ?_, ?_⟩
  · intro a
    rw [List.mem_cons, ← hlive]
    by_cases ha : a = k
    · subst ha
      simp
    · rw [Function.update_of_ne ha]
      simp [ha]
  · rw [List.cons_append, List.perm_cons, List.filterMap_cons, hself, hother]
    refine hperm.trans ?_
    cases link b with
    | none => rfl
    | some c => exact List.perm_middle.symm

/-- Without an object, what it owns is left to a root. -/
theorem erase (ho : Owned link h (k :: roots)) (hk : h k = some b) :
    Owned link (without h [k]) ((link b).toList ++ roots) := by
  obtain ⟨live, hnodup, hlive, hperm⟩ := ho
  have hmem : k ∈ live := by
    rw [← hlive, hk]
    rfl
  have hsplit := List.perm_cons_erase hmem
  have hother : (live.erase k).filterMap (owned link (without h [k])) =
      (live.erase k).filterMap (owned link h) := by
    refine List.filterMap_congr fun a ha => ?_
    have hne : a ≠ k := ((hnodup.mem_erase_iff).mp ha).1
    rw [owned, owned, without_of_notMem (by simp [hne])]
  refine ⟨live.erase k, hnodup.erase k, ?_, ?_⟩
  · intro a
    rw [hnodup.mem_erase_iff, ← hlive]
    by_cases ha : a = k
    · simp [ha, without]
    · rw [without_of_notMem (by simp [ha])]
      simp [ha]
  · have hself : owned link h k = link b := by
      rw [owned, hk]
      rfl
    have h1 := (hsplit.symm.trans hperm).trans
      (List.Perm.append_left _ (hsplit.filterMap (owned link h)))
    rw [List.cons_append, List.perm_cons, List.filterMap_cons, hself] at h1
    rw [hother]
    refine h1.trans ?_
    cases link b with
    | none => rfl
    | some c => exact List.perm_middle

/-- The objects released with the object of a root are live and differ from one
another; what is left is still owned. -/
theorem release (ho : Owned link h (k :: roots)) :
    ∃ ks, IsChain link h k ks ∧ ks.Nodup ∧ Owned link (without h ks) roots := by
  obtain ⟨live, hlive⟩ : ∃ live : List κ, ∀ a, (h a).isSome → a ∈ live := by
    obtain ⟨live, -, hlive, -⟩ := ho
    exact ⟨live, fun a => (hlive a).mp⟩
  -- each object of the chain is one less of them
  induction hn : live.length generalizing h k live with
  | zero =>
    have hmem := hlive k (ho.mem_live List.mem_cons_self)
    rw [List.length_eq_zero_iff.mp hn] at hmem
    cases hmem
  | succ n ih =>
    have hsome := ho.mem_live List.mem_cons_self
    obtain ⟨b, hb⟩ := Option.isSome_iff_exists.mp hsome
    have hrest := ho.erase hb
    cases hl : link b with
    | none =>
      rw [hl] at hrest
      exact ⟨[k], .last hb hl, List.nodup_singleton k, hrest⟩
    | some k' =>
      rw [hl] at hrest
      have hlive' : ∀ a, (without h [k] a).isSome → a ∈ live.erase k := by
        intro a ha
        obtain ⟨c, hc⟩ := Option.isSome_iff_exists.mp ha
        obtain ⟨hne, hc⟩ := eq_of_without hc
        rw [List.mem_erase_of_ne (by simpa using hne)]
        exact hlive a (by rw [hc]; rfl)
      have hlength : (live.erase k).length = n := by
        rw [List.length_erase_of_mem (hlive k hsome), hn, Nat.add_sub_cancel]
      obtain ⟨ks, hchain, hnodup, howned⟩ := ih hrest (live.erase k) hlive' hlength
      have hnotMem : k ∉ ks := by
        intro hmem
        have hdead := hchain.live k hmem
        rw [without_of_mem List.mem_cons_self] at hdead
        cases hdead
      refine ⟨k :: ks, .cons hb hl (hchain.congr fun a ha => ?_), ?_, ?_⟩
      · have hne : a ≠ k := fun h => hnotMem (h ▸ ha)
        exact (without_of_notMem (by simp [hne])).symm
      · exact List.nodup_cons.mpr ⟨hnotMem, hnodup⟩
      · rw [← without_without]
        exact howned

end Owned

end Ownership
