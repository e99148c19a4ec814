/-
Circular doubly linked lists.

`DLinks α` gives every node a successor and a predecessor pointer, either of
which may be `NULL`.  `L.IsRing l` says that the nodes of `l`, in this order,
form one closed ring whose two kinds of pointers agree.

* `IsRing.insert`, `IsRing.unlink` — what inserting a node behind another one
  and unlinking a node do to a ring;
* `IsRing.append_comm`, `IsRing.startAt` — a ring may be read from any of its
  nodes;
* `IsRing.collect`, `IsRing.findNode` — walking a ring from one of its nodes
  back to it visits the other nodes once, in order, and ends;
* `RingOn.insert`, `RingOn.unlink` — the same operations on rings given by the
  set of their nodes, and that they leave other rings alone;
* `Mutual.insert`, `Mutual.unlink` — the same operations on pointers of which it
  is only known that the two kinds agree;
* `Connected.mem_of_collect` — a walk over such pointers that ends has seen every
  node they lead to.
-/
import Cagebreak.Lib.Exec
import Mathlib.Logic.Function.Basic
import Mathlib.Data.List.Nodup
import Mathlib.Data.List.Chain
import Mathlib.Data.Set.Insert
import Mathlib.Logic.Relation

open Exec

/-- Successor and predecessor pointers of a family of nodes. -/
structure DLinks (α : Type) where
  next : α → Option α
  prev : α → Option α

namespace List

/-- Links that hold between the elements of a chain may be exchanged for others. -/
theorem IsChain.imp_mem {α : Type} {R S : α → α → Prop} {l : List α} (h : l.IsChain R)
    (H : ∀ a b, a ∈ l.dropLast → b ∈ l.tail → R a b → S a b) : l.IsChain S := by
  induction h with
  | nil => exact .nil
  | singleton a => exact .singleton a
  | @cons_cons a b l hab hl ih =>
    refine .cons_cons (H a b (by simp) (by simp) hab) (ih fun x y hx hy => H x y ?_ ?_)
    · rw [dropLast_cons_of_ne_nil (by simp)]
      exact mem_cons_of_mem _ hx
    · exact mem_of_mem_tail hy

end List

namespace DLinks

variable {α : Type}

/-- `a` and `b` point at each other as neighbours. -/
def Linked (L : DLinks α) (a b : α) : Prop := L.next a = some b ∧ L.prev b = some a

/-- The nodes of `l` form one closed ring, in this order. -/
def IsRing (L : DLinks α) (l : List α) : Prop :=
  l.Nodup ∧ ∃ a t, l = a :: t ∧ (a :: (t ++ [a])).IsChain L.Linked

/-- The same pointers, read backwards. -/
def swap (L : DLinks α) : DLinks α := ⟨L.prev, L.next⟩

variable {L L' : DLinks α} {l t : List α} {a b c d : α}

theorem isRing_cons : L.IsRing (a :: t) ↔
    (a :: t).Nodup ∧ (a :: (t ++ [a])).IsChain L.Linked := by
  refine ⟨fun ⟨hn, a', t', he, hc⟩ => ?_, fun h => ⟨h.1, a, t, rfl, h.2⟩⟩
  obtain ⟨rfl, rfl⟩ := List.cons.inj he
  exact ⟨hn, hc⟩

theorem IsRing.nodup (h : L.IsRing l) : l.Nodup := h.1

private theorem mem_of_mem_dropLast (h : c ∈ (a :: (t ++ [b])).dropLast) : c ∈ a :: t := by
  rwa [← List.cons_append, List.dropLast_concat] at h

theorem Linked.swap (h : L.Linked a b) : L.swap.Linked b a := ⟨h.2, h.1⟩

/-! ### Reading a ring from another node -/

theorem IsRing.rotate (h : L.IsRing (a :: t)) : L.IsRing (t ++ [a]) := by
  obtain ⟨hn, hc⟩ := isRing_cons.mp h
  cases t with
  | nil => exact h
  | cons b t =>
    rw [List.cons_append, isRing_cons]
    refine ⟨by simpa using (@List.nodup_append_comm _ [a] (b :: t)).mp hn, ?_⟩
    obtain ⟨hab, hc⟩ := List.isChain_cons_cons.mp hc
    change ((b :: t) ++ [a]).IsChain L.Linked at hc
    rw [← List.cons_append]
    refine hc.append (.singleton b) fun x hx y hy => ?_
    obtain rfl : a = x := by simpa only [List.getLast?_concat, Option.mem_some] using hx
    obtain rfl : b = y := by simpa using hy
    exact hab

theorem IsRing.append_comm {l₁ l₂ : List α} (h : L.IsRing (l₁ ++ l₂)) :
    L.IsRing (l₂ ++ l₁) := by
  induction l₁ generalizing l₂ with
  | nil => simpa using h
  | cons a l₁ ih => simpa using @ih (l₂ ++ [a]) (by simpa using h.rotate)

/-- A ring may be read from any of its nodes. -/
theorem IsRing.startAt (h : L.IsRing l) (ha : a ∈ l) :
    ∃ t, L.IsRing (a :: t) ∧ (a :: t).Perm l := by
  obtain ⟨l₁, l₂, rfl⟩ := List.append_of_mem ha
  exact ⟨l₂ ++ l₁, h.append_comm, @List.perm_append_comm _ (a :: l₂) l₁⟩

theorem IsRing.exists_next (h : L.IsRing l) (ha : a ∈ l) : ∃ b ∈ l, L.Linked a b := by
  obtain ⟨t, ht, hp⟩ := h.startAt ha
  obtain ⟨-, hc⟩ := isRing_cons.mp ht
  cases t with
  | nil => exact ⟨a, ha, (List.isChain_cons_cons.mp hc).1⟩
  | cons b t => exact ⟨b, hp.subset (by simp), (List.isChain_cons_cons.mp hc).1⟩

theorem IsRing.exists_prev (h : L.IsRing l) (ha : a ∈ l) : ∃ b ∈ l, L.Linked b a := by
  obtain ⟨t, ht, hp⟩ := h.startAt ha
  obtain ⟨-, hc⟩ := isRing_cons.mp ht
  obtain rfl | ⟨t, b, rfl⟩ := t.eq_nil_or_concat
  · exact ⟨a, ha, (List.isChain_cons_cons.mp hc).1⟩
  · refine ⟨b, hp.subset (by simp), ?_⟩
    have hba : [b, a].IsChain L.Linked := hc.suffix ⟨a :: t, by simp⟩
    exact (List.isChain_cons_cons.mp hba).1

/-- Only the pointers of its own nodes matter to a ring. -/
theorem IsRing.congr (h : L.IsRing l) (hn : ∀ x ∈ l, L'.next x = L.next x)
    (hp : ∀ x ∈ l, L'.prev x = L.prev x) : L'.IsRing l := by
  obtain ⟨hnd, a, t, rfl, hc⟩ := h
  refine ⟨hnd, a, t, rfl, hc.imp_mem fun x y hx hy hxy => ?_⟩
  have hx' : x ∈ a :: t := mem_of_mem_dropLast hx
  have hy' : y ∈ a :: t := by simpa [or_comm] using hy
  exact ⟨(hn x hx').trans hxy.1, (hp y hy').trans hxy.2⟩

theorem IsRing.swap (h : L.IsRing (a :: t)) : L.swap.IsRing (a :: t.reverse) := by
  obtain ⟨hnd, hc⟩ := isRing_cons.mp h
  refine isRing_cons.mpr ⟨by simpa using hnd, ?_⟩
  have hrev : (a :: (t ++ [a])).reverse = a :: (t.reverse ++ [a]) := by simp
  rw [← hrev, List.isChain_reverse]
  exact hc.imp fun _ _ hxy => Linked.swap hxy

/-! ### Inserting and unlinking -/

section Update

variable [DecidableEq α]

/-- Link `b` in between `a` and its successor `c`. -/
def insert (L : DLinks α) (a b c : α) : DLinks α where
  next := Function.update (Function.update L.next b (some c)) a (some b)
  prev := Function.update (Function.update L.prev b (some a)) c (some b)

/-- Unlink `b`, whose neighbours are `a` and `c`, and clear its own pointers. -/
def unlink (L : DLinks α) (a b c : α) : DLinks α where
  next := Function.update (Function.update L.next a (some c)) b none
  prev := Function.update (Function.update L.prev c (some a)) b none

theorem IsRing.insert (h : L.IsRing (a :: t)) (hb : b ∉ a :: t) (hc : L.next a = some c) :
    (L.insert a b c).IsRing (a :: b :: t) := by
  obtain ⟨hnd, hch⟩ := isRing_cons.mp h
  have hba : b ≠ a := fun e => hb (by simp [e])
  have hnd' : (a :: b :: t).Nodup := by
    have hbt : b ∉ t := fun hbt => hb (List.mem_cons_of_mem _ hbt)
    obtain ⟨hat, ht⟩ := List.nodup_cons.mp hnd
    exact List.nodup_cons.mpr ⟨by simpa [hba.symm] using hat, List.nodup_cons.mpr ⟨hbt, ht⟩⟩
  refine isRing_cons.mpr ⟨hnd', ?_⟩
  cases t with
  | nil =>
    have hca : c = a := by
      have := (List.isChain_cons_cons.mp hch).1.1
      rw [hc, Option.some_inj] at this
      exact this
    subst hca
    simp [Linked, DLinks.insert, hba]
  | cons d t =>
    obtain ⟨hnext, hch⟩ := List.isChain_cons_cons.mp hch
    obtain rfl : c = d := by
      have := hnext.1
      rw [hc, Option.some_inj] at this
      exact this
    have hbc : b ≠ c := fun e => hb (by simp [e])
    have hac : a ≠ c := fun e => by simp [e] at hnd
    refine .cons_cons ?_ (.cons_cons ?_ ?_)
    · simp [Linked, DLinks.insert, hbc]
    · simp [Linked, DLinks.insert, hba]
    · -- the rest of the ring does not touch the three nodes
      refine hch.imp_mem fun x y hx hy hxy => ?_
      have hxt : x ∈ c :: t := mem_of_mem_dropLast hx
      have hyt : y ∈ t ∨ y = a := by simpa using hy
      have hxa : x ≠ a := fun e => (List.nodup_cons.mp hnd).1 (e ▸ hxt)
      have hxb : x ≠ b := fun e => hb (e ▸ List.mem_cons_of_mem _ hxt)
      have hyb : y ≠ b := by
        rintro rfl
        exact hb (by rcases hyt with h | h <;> simp [h])
      have hyc : y ≠ c := by
        rintro rfl
        rcases hyt with h | h
        · exact (List.nodup_cons.mp (List.nodup_cons.mp hnd).2).1 h
        · exact hac h.symm
      simpa [Linked, DLinks.insert, hxa, hxb, hyb, hyc] using hxy

theorem IsRing.unlink (h : L.IsRing (a :: b :: t)) (hc : L.next b = some c) :
    (L.unlink a b c).IsRing (a :: t) := by
  obtain ⟨hnd, hch⟩ := isRing_cons.mp h
  obtain ⟨habt, hbt⟩ := List.nodup_cons.mp hnd
  obtain ⟨hbt, ht⟩ := List.nodup_cons.mp hbt
  have hab : a ≠ b := fun e => habt (by simp [e])
  have hat : a ∉ t := fun hat => habt (List.mem_cons_of_mem _ hat)
  refine isRing_cons.mpr ⟨List.nodup_cons.mpr ⟨hat, ht⟩, ?_⟩
  obtain ⟨-, hch⟩ := List.isChain_cons_cons.mp hch
  cases t with
  | nil =>
    have hca : c = a := by
      have := (List.isChain_cons_cons.mp hch).1.1
      rw [hc, Option.some_inj] at this
      exact this
    subst hca
    simp [Linked, DLinks.unlink, hab]
  | cons d t =>
    obtain ⟨hnext, hch⟩ := List.isChain_cons_cons.mp hch
    obtain rfl : c = d := by
      have := hnext.1
      rw [hc, Option.some_inj] at this
      exact this
    have hcb : c ≠ b := fun e => hbt (by simp [e])
    refine .cons_cons ?_ ?_
    · simp [Linked, DLinks.unlink, hab, hcb]
    · refine hch.imp_mem fun x y hx hy hxy => ?_
      have hxt : x ∈ c :: t := mem_of_mem_dropLast hx
      have hyt : y ∈ t ∨ y = a := by simpa using hy
      have hxa : x ≠ a := fun e => hat (e ▸ hxt)
      have hxb : x ≠ b := fun e => hbt (e ▸ hxt)
      have hyb : y ≠ b := by
        rintro rfl
        rcases hyt with h | h
        · exact hbt (List.mem_cons_of_mem _ h)
        · exact hab h.symm
      have hyc : y ≠ c := by
        rintro rfl
        rcases hyt with h | h
        · exact (List.nodup_cons.mp ht).1 h
        · exact hat (by simp [h])
      simpa [Linked, DLinks.unlink, hxa, hxb, hyb, hyc] using hxy

/-- A node may be unlinked wherever it is in the ring. -/
theorem IsRing.unlink_append {l₁ l₂ : List α} (h : L.IsRing (l₁ ++ b :: l₂)) (hne : l₁ ≠ [])
    (ha : L.prev b = some a) (hc : L.next b = some c) : (L.unlink a b c).IsRing (l₁ ++ l₂) := by
  obtain ⟨l₁, d, rfl⟩ := l₁.eq_nil_or_concat.resolve_left hne
  rw [List.concat_eq_append] at h ⊢
  -- the ring is read from the node before the one that is unlinked
  have hrot : L.IsRing (d :: b :: (l₂ ++ l₁)) := by
    simpa using @IsRing.append_comm _ L l₁ (d :: b :: l₂) (by simpa using h)
  have hlink := (List.isChain_cons_cons.mp (isRing_cons.mp hrot).2).1
  obtain rfl : d = a := Option.some_inj.mp (hlink.2.symm.trans ha)
  have hunlinked := hrot.unlink hc
  simpa using @IsRing.append_comm _ _ (d :: l₂) l₁ (by simpa using hunlinked)

/-- A node is taken out of the ring and linked in behind another one. -/
theorem IsRing.move {l₁ l₂ : List α} (h : L.IsRing (b :: (l₁ ++ d :: l₂)))
    (ha : L.prev b = some a) (hc : L.next b = some c) {e : α}
    (he : (L.unlink a b c).next d = some e) :
    ((L.unlink a b c).insert d b e).IsRing (b :: (l₂ ++ l₁ ++ [d])) := by
  have hb : b ∉ l₁ ++ d :: l₂ := (List.nodup_cons.mp h.nodup).1
  have hout : (L.unlink a b c).IsRing (l₁ ++ d :: l₂) := by
    have hrot : L.IsRing ((l₁ ++ d :: l₂) ++ b :: []) := by
      simpa using @IsRing.append_comm _ L [b] (l₁ ++ d :: l₂) (by simpa using h)
    simpa using hrot.unlink_append (by simp) ha hc
  have hin := (@IsRing.append_comm _ _ l₁ (d :: l₂) hout).insert (b := b)
    (by simpa [or_comm, or_left_comm] using hb) he
  simpa using @IsRing.append_comm _ _ [d] (b :: (l₂ ++ l₁)) (by simpa using hin)

end Update

/-- A node alone in its ring. -/
theorem isRing_singleton (hn : L.next a = some a) (hp : L.prev a = some a) : L.IsRing [a] :=
  isRing_cons.mpr ⟨by simp, by simp [Linked, hn, hp]⟩

/-! ### Several rings -/

section Several

/-- What is closed under the successor contains the ring of each of its nodes. -/
theorem IsRing.subset_of_closed {S : Set α} (h : L.IsRing l) (ha : a ∈ l) (haS : a ∈ S)
    (hS : ∀ x ∈ S, ∀ y, L.next x = some y → y ∈ S) : ∀ b ∈ l, b ∈ S := by
  obtain ⟨t, ht, hperm⟩ := h.startAt ha
  obtain ⟨-, hchain⟩ := isRing_cons.mp ht
  suffices H : ∀ b ∈ a :: t, b ∈ S from fun b hb => H b (hperm.mem_iff.mpr hb)
  -- from one node of the chain to the next
  have hstep : ∀ x t', (x :: t').IsChain L.Linked → x ∈ S → ∀ b ∈ x :: t', b ∈ S := by
    intro x t'
    induction t' generalizing x with
    | nil =>
      intro _ hx b hb
      rwa [List.mem_singleton.mp hb]
    | cons y t' ih =>
      intro hc hx b hb
      obtain ⟨hxy, hc⟩ := List.isChain_cons_cons.mp hc
      rcases List.mem_cons.mp hb with rfl | hb
      · exact hx
      · exact ih y hc (hS x hx y hxy.1) b hb
  exact fun b hb => hstep a (t ++ [a]) hchain haS b (by
    rw [← List.cons_append]
    exact List.mem_append_left _ hb)

/-- Two rings are the same or have no node in common. -/
theorem IsRing.disjoint {l' : List α} (h : L.IsRing l) (h' : L.IsRing l') (hd : d ∈ l)
    (hd' : d ∉ l') : ∀ x ∈ l, x ∉ l' := by
  intro x hx hx'
  refine hd' (h.subset_of_closed (S := {y | y ∈ l'}) hx hx' (fun y hy z hz => ?_) d hd)
  obtain ⟨z', hz', hlink⟩ := h'.exists_next hy
  obtain rfl := Option.some.inj (hlink.1.symm.trans hz)
  exact hz'

variable [DecidableEq α]

/-- Inserting a node into one ring does not touch another. -/
theorem IsRing.insert_of_notMem (h : L.IsRing l) (ha : a ∉ l) (hb : b ∉ l) (hc : c ∉ l) :
    (L.insert a b c).IsRing l := by
  refine h.congr (fun x hx => ?_) fun x hx => ?_
  · have h1 : x ≠ a := fun e => ha (e ▸ hx)
    have h2 : x ≠ b := fun e => hb (e ▸ hx)
    simp [DLinks.insert, h1, h2]
  · have h1 : x ≠ c := fun e => hc (e ▸ hx)
    have h2 : x ≠ b := fun e => hb (e ▸ hx)
    simp [DLinks.insert, h1, h2]

/-- Unlinking a node of one ring does not touch another. -/
theorem IsRing.unlink_of_notMem (h : L.IsRing l) (ha : a ∉ l) (hb : b ∉ l) (hc : c ∉ l) :
    (L.unlink a b c).IsRing l := by
  refine h.congr (fun x hx => ?_) fun x hx => ?_
  · have h1 : x ≠ a := fun e => ha (e ▸ hx)
    have h2 : x ≠ b := fun e => hb (e ▸ hx)
    simp [DLinks.unlink, h1, h2]
  · have h1 : x ≠ c := fun e => hc (e ▸ hx)
    have h2 : x ≠ b := fun e => hb (e ▸ hx)
    simp [DLinks.unlink, h1, h2]

end Several

/-! ### Walking a ring -/

section Walk

variable [DecidableEq α]

/-- The loop `for (it = cur; it != stop; it = step it)`: the nodes it visits. -/
def collect (step : α → Option α) (stop : α) : ℕ → Option α → Exec (List α)
  | 0, _ => .error .diverges
  | _ + 1, none => .error .undefined
  | n + 1, some a =>
    if a = stop then .ok []
    else do
      let l ← collect step stop n (step a)
      .ok (a :: l)

/-- The same loop, left at the first node that satisfies `p`. -/
def findNode (step : α → Option α) (stop : α) (p : α → Exec Bool) :
    ℕ → Option α → Exec (Option α)
  | 0, _ => .error .diverges
  | _ + 1, none => .error .undefined
  | n + 1, some a =>
    if a = stop then .ok none
    else do
      if ← p a then .ok (some a) else findNode step stop p n (step a)

theorem collect_chain {step : α → Option α} {n : ℕ}
    (hc : (b :: (t ++ [a])).IsChain L.Linked) (ha : a ∉ t) (hn : t.length < n)
    (hs : ∀ x ∈ t, step x = L.next x) : collect step a n (L.next b) = .ok t := by
  induction t generalizing b n with
  | nil =>
    obtain ⟨n, rfl⟩ : ∃ m, n = m + 1 := ⟨n - 1, by simp at hn; omega⟩
    rw [(List.isChain_cons_cons.mp hc).1.1, collect, if_pos rfl]
  | cons d t ih =>
    obtain ⟨n, rfl⟩ : ∃ m, n = m + 1 := ⟨n - 1, by simp at hn; omega⟩
    obtain ⟨hbd, hc⟩ := List.isChain_cons_cons.mp hc
    have hda : d ≠ a := fun e => ha (by simp [e])
    rw [hbd.1, collect, if_neg hda, hs d (by simp),
      ih hc (fun h => ha (by simp [h])) (by simpa using hn) fun x hx => hs x (by simp [hx])]
    rfl

/-- Walking a ring from one of its nodes visits all others in order and ends. -/
theorem IsRing.collect {step : α → Option α} {n : ℕ} (h : L.IsRing (a :: t))
    (hn : t.length < n) (hs : ∀ x ∈ t, step x = L.next x) :
    DLinks.collect step a n (L.next a) = .ok t :=
  collect_chain (isRing_cons.mp h).2 (List.nodup_cons.mp h.1).1 hn hs

/-- The interrupted loop searches the list of nodes the full loop visits. -/
theorem findNode_eq {step : α → Option α} {p : α → Exec Bool} {n : ℕ} {cur : Option α}
    (h : DLinks.collect step a n cur = .ok l) : findNode step a p n cur = l.findM? p := by
  induction n generalizing cur l with
  | zero => simp [DLinks.collect] at h
  | succ n ih =>
    cases cur with
    | none => simp [DLinks.collect] at h
    | some b =>
      by_cases hba : b = a
      · rw [DLinks.collect, if_pos hba] at h
        obtain rfl := Except.ok.inj h
        rw [findNode, if_pos hba]
        rfl
      · rw [DLinks.collect, if_neg hba] at h
        obtain ⟨t, ht, hl⟩ := bind_eq_ok.mp h
        obtain rfl := Except.ok.inj hl
        rw [findNode, if_neg hba, List.findM?]
        refine congrArg (p b >>= ·) (funext fun r => ?_)
        cases r
        · exact ih ht
        · rfl

theorem IsRing.findNode {step : α → Option α} {p : α → Exec Bool} {n : ℕ}
    (h : L.IsRing (a :: t)) (hn : t.length < n) (hs : ∀ x ∈ t, step x = L.next x) :
    DLinks.findNode step a p n (L.next a) = t.findM? p :=
  findNode_eq (h.collect hn hs)

/-- What the interrupted loop stops at satisfies the test, and some pointer
led to it. -/
theorem findNode_some {step : α → Option α} {stop : α} {p : α → Exec Bool} {n : ℕ}
    {cur : Option α} (h : findNode step stop p n cur = .ok (some a)) :
    p a = .ok true ∧ a ≠ stop ∧ (cur = some a ∨ ∃ b, step b = some a) := by
  induction n generalizing cur with
  | zero => simp [DLinks.findNode] at h
  | succ n ih =>
    cases cur with
    | none => simp [DLinks.findNode] at h
    | some b =>
      by_cases hbs : b = stop
      · simp [DLinks.findNode, hbs] at h
      · rw [DLinks.findNode, if_neg hbs] at h
        obtain ⟨r, hr, h⟩ := bind_eq_ok.mp h
        cases r with
        | true =>
          obtain rfl : b = a := by simpa using h
          exact ⟨hr, hbs, .inl rfl⟩
        | false =>
          obtain ⟨h1, h2, h3 | h3⟩ := ih (by simpa using h)
          · exact ⟨h1, h2, .inr ⟨b, h3⟩⟩
          · exact ⟨h1, h2, .inr h3⟩

/-- What holds of the node a loop starts with, and of the node a step leads to if
it holds of the node before, holds of what the loop stops at. -/
theorem findNode_along {step : α → Option α} {stop : α} {p : α → Exec Bool} {P : α → Prop}
    {n : ℕ} {cur : Option α} (h : findNode step stop p n cur = .ok (some a))
    (hcur : ∀ b, cur = some b → P b) (hstep : ∀ b c, P b → step b = some c → P c) : P a := by
  induction n generalizing cur with
  | zero => simp [DLinks.findNode] at h
  | succ n ih =>
    cases cur with
    | none => simp [DLinks.findNode] at h
    | some b =>
      by_cases hbs : b = stop
      · simp [DLinks.findNode, hbs] at h
      · rw [DLinks.findNode, if_neg hbs] at h
        obtain ⟨r, hr, h⟩ := bind_eq_ok.mp h
        cases r with
        | true =>
          obtain rfl : b = a := by simpa using h
          exact hcur b rfl
        | false => exact ih (by simpa using h) fun c hc => hstep b c (hcur b rfl) hc

/-- The same holds of every node a loop visits. -/
theorem collect_along {step : α → Option α} {stop : α} {P : α → Prop} {n : ℕ} {cur : Option α}
    (h : collect step stop n cur = .ok l) (hcur : ∀ b, cur = some b → P b)
    (hstep : ∀ b c, P b → step b = some c → P c) : ∀ a ∈ l, P a := by
  induction n generalizing cur l with
  | zero => simp [DLinks.collect] at h
  | succ n ih =>
    cases cur with
    | none => simp [DLinks.collect] at h
    | some b =>
      by_cases hbs : b = stop
      · obtain rfl : [] = l := by simpa [DLinks.collect, hbs] using h
        simp
      · rw [DLinks.collect, if_neg hbs] at h
        obtain ⟨l', hl', h⟩ := bind_eq_ok.mp h
        obtain rfl := Except.ok.inj h
        intro a ha
        rcases List.mem_cons.mp ha with rfl | ha
        · exact hcur a rfl
        · exact ih hl' (fun c hc => hstep b c (hcur b rfl) hc) a ha

/-- Each node of a loop that comes to an end leads to another one, or to the end. -/
theorem collect_next {n : ℕ} {cur : Option α} (h : collect L.next a n cur = .ok l) :
    (∃ b, cur = some b ∧ b ∈ a :: l) ∧ ∀ x ∈ l, ∃ b, L.next x = some b ∧ b ∈ a :: l := by
  induction n generalizing cur l with
  | zero => simp [DLinks.collect] at h
  | succ n ih =>
    cases cur with
    | none => simp [DLinks.collect] at h
    | some b =>
      by_cases hba : b = a
      · obtain rfl : [] = l := by simpa [DLinks.collect, hba] using h
        exact ⟨⟨b, rfl, by simp [hba]⟩, fun x hx => absurd hx List.not_mem_nil⟩
      · rw [DLinks.collect, if_neg hba] at h
        obtain ⟨l', hl', h⟩ := bind_eq_ok.mp h
        obtain rfl := Except.ok.inj h
        obtain ⟨hfirst, hrest⟩ := ih hl'
        have hmore : ∀ x, x ∈ a :: l' → x ∈ a :: b :: l' := by
          intro x hx
          rcases List.mem_cons.mp hx with rfl | hx
          · exact List.mem_cons_self
          · exact List.mem_cons_of_mem _ (List.mem_cons_of_mem _ hx)
        refine ⟨⟨b, rfl, by simp⟩, fun x hx => ?_⟩
        rcases List.mem_cons.mp hx with rfl | hx
        · obtain ⟨c, hc, hmem⟩ := hfirst
          exact ⟨c, hc, hmore c hmem⟩
        · obtain ⟨c, hc, hmem⟩ := hrest x hx
          exact ⟨c, hc, hmore c hmem⟩

/-- Some node leads to each node of the loop. -/
theorem exists_prev_of_collect {n : ℕ} {cur : Option α} (h : collect L.next a n cur = .ok l)
    {x : α} (hx : x ∈ a :: l) : cur = some x ∨ ∃ y ∈ l, L.next y = some x := by
  induction n generalizing cur l with
  | zero => simp [DLinks.collect] at h
  | succ n ih =>
    cases cur with
    | none => simp [DLinks.collect] at h
    | some b =>
      by_cases hba : b = a
      · obtain rfl : [] = l := by simpa [DLinks.collect, hba] using h
        obtain rfl := List.mem_singleton.mp hx
        exact .inl (congrArg some hba)
      · rw [DLinks.collect, if_neg hba] at h
        obtain ⟨l', hl', h⟩ := bind_eq_ok.mp h
        obtain rfl := Except.ok.inj h
        have hx' : x = b ∨ x ∈ a :: l' := by
          rw [List.mem_cons, List.mem_cons] at hx
          rw [List.mem_cons]
          exact or_left_comm.mp hx
        rcases hx' with rfl | hx'
        · exact .inl rfl
        · refine .inr ((ih hl' hx').elim (fun hb => ⟨b, List.mem_cons_self, hb⟩) ?_)
          rintro ⟨y, hy, hyx⟩
          exact ⟨y, List.mem_cons_of_mem _ hy, hyx⟩

/-- What the interrupted loop finds on a ring is another node of it. -/
theorem IsRing.findNode_mem {p : α → Exec Bool} {n : ℕ} (h : L.IsRing l) (ha : a ∈ l)
    (hn : l.length ≤ n) (hf : DLinks.findNode L.next a p n (L.next a) = .ok (some b)) :
    b ∈ l ∧ b ≠ a ∧ p b = .ok true := by
  obtain ⟨t, ht, hperm⟩ := h.startAt ha
  have hlen : t.length < n := by
    have := hperm.length_eq
    rw [List.length_cons] at this
    omega
  have hb := findNode_some hf
  rw [ht.findNode hlen fun _ _ => rfl] at hf
  have hmem : ∀ u : List α, u.findM? p = .ok (some b) → b ∈ u := by
    intro u hu
    induction u with
    | nil => simp [List.findM?, pure, Except.pure] at hu
    | cons x u ih =>
      rw [List.findM?] at hu
      obtain ⟨r, -, hu⟩ := bind_eq_ok.mp hu
      cases r with
      | true =>
        obtain rfl : x = b := by simpa [pure, Except.pure] using hu
        exact List.mem_cons_self
      | false => exact List.mem_cons_of_mem _ (ih hu)
  exact ⟨hperm.subset (List.mem_cons_of_mem _ (hmem t hf)), hb.2.1, hb.1⟩

end Walk

/-! ### Rings as sets of nodes -/

/-- The nodes of `S` form one ring. -/
def RingOn (L : DLinks α) (S : Set α) : Prop := ∃ l, L.IsRing l ∧ ∀ u, u ∈ l ↔ u ∈ S

section RingOn

variable {S : Set α}

theorem RingOn.exists_next (h : L.RingOn S) (ha : a ∈ S) : ∃ b ∈ S, L.Linked a b := by
  obtain ⟨l, hl, hS⟩ := h
  obtain ⟨b, hb, hab⟩ := hl.exists_next ((hS a).mpr ha)
  exact ⟨b, (hS b).mp hb, hab⟩

theorem RingOn.exists_prev (h : L.RingOn S) (ha : a ∈ S) : ∃ b ∈ S, L.Linked b a := by
  obtain ⟨l, hl, hS⟩ := h
  obtain ⟨b, hb, hab⟩ := hl.exists_prev ((hS a).mpr ha)
  exact ⟨b, (hS b).mp hb, hab⟩

theorem RingOn.next_mem (h : L.RingOn S) (ha : a ∈ S) (hb : L.next a = some b) : b ∈ S := by
  obtain ⟨c, hc, hlink⟩ := h.exists_next ha
  rwa [Option.some_inj.mp (hb.symm.trans hlink.1)]

theorem RingOn.prev_mem (h : L.RingOn S) (ha : a ∈ S) (hb : L.prev a = some b) : b ∈ S := by
  obtain ⟨c, hc, hlink⟩ := h.exists_prev ha
  rwa [Option.some_inj.mp (hb.symm.trans hlink.2)]

theorem RingOn.congr (h : L.RingOn S) (hn : ∀ x ∈ S, L'.next x = L.next x)
    (hp : ∀ x ∈ S, L'.prev x = L.prev x) : L'.RingOn S := by
  obtain ⟨l, hl, hS⟩ := h
  exact ⟨l, hl.congr (fun x hx => hn x ((hS x).mp hx)) fun x hx => hp x ((hS x).mp hx), hS⟩

theorem RingOn.singleton (hn : L.next a = some a) (hp : L.prev a = some a) : L.RingOn {a} :=
  ⟨[a], isRing_singleton hn hp, by simp⟩

variable [DecidableEq α]

theorem RingOn.insert (h : L.RingOn S) (ha : a ∈ S) (hb : b ∉ S) (hc : L.next a = some c) :
    (L.insert a b c).RingOn (Insert.insert b S) := by
  obtain ⟨l, hl, hS⟩ := h
  obtain ⟨t, ht, hperm⟩ := hl.startAt ((hS a).mpr ha)
  have hmem : ∀ u, u ∈ a :: t ↔ u ∈ S := fun u => hperm.mem_iff.trans (hS u)
  refine ⟨a :: b :: t, ht.insert (fun hm => hb ((hmem b).mp hm)) hc, fun u => ?_⟩
  rw [Set.mem_insert_iff, ← hmem]
  simp only [List.mem_cons]
  tauto

/-- Inserting a node into one ring does not touch another. -/
theorem RingOn.insert_of_notMem (h : L.RingOn S) (ha : a ∉ S) (hb : b ∉ S) (hc : c ∉ S) :
    (L.insert a b c).RingOn S := by
  obtain ⟨l, hl, hS⟩ := h
  rw [← hS] at ha hb hc
  exact ⟨l, hl.insert_of_notMem ha hb hc, hS⟩

theorem RingOn.unlink (h : L.RingOn S) (hb : b ∈ S) {d : α} (hd : d ∈ S) (hdb : d ≠ b)
    (hp : L.prev b = some a) (hn : L.next b = some c) : (L.unlink a b c).RingOn (S \ {b}) := by
  obtain ⟨l, hl, hS⟩ := h
  obtain ⟨t, ht, hperm⟩ := hl.startAt ((hS b).mpr hb)
  have hmem : ∀ u, u ∈ b :: t ↔ u ∈ S := fun u => hperm.mem_iff.trans (hS u)
  have hdt : d ∈ t := by simpa [hdb] using (hmem d).mpr hd
  -- the last node is the predecessor of `b`
  obtain ⟨t', z, rfl⟩ := t.eq_nil_or_concat.resolve_left (List.ne_nil_of_mem hdt)
  rw [List.concat_eq_append] at ht hmem
  have hrot : L.IsRing (z :: b :: t') := by
    simpa using @IsRing.append_comm _ L (b :: t') [z] (by simpa using ht)
  have hlink := (List.isChain_cons_cons.mp (isRing_cons.mp hrot).2).1
  obtain rfl : z = a := Option.some_inj.mp (hlink.2.symm.trans hp)
  have hbt : b ∉ t' ++ [z] := (List.nodup_cons.mp ht.nodup).1
  refine ⟨z :: t', hrot.unlink hn, fun u => ?_⟩
  rw [Set.mem_sdiff, ← hmem, Set.mem_singleton_iff]
  simp only [List.mem_cons, List.mem_append, List.not_mem_nil, or_false] at hbt ⊢
  by_cases e : u = b
  · subst e
    tauto
  · tauto

/-- Unlinking a node of one ring does not touch another. -/
theorem RingOn.unlink_of_notMem (h : L.RingOn S) (ha : a ∉ S) (hb : b ∉ S) (hc : c ∉ S) :
    (L.unlink a b c).RingOn S := by
  obtain ⟨l, hl, hS⟩ := h
  rw [← hS] at ha hb hc
  exact ⟨l, hl.unlink_of_notMem ha hb hc, hS⟩

end RingOn

/-! ### Pointers that agree -/

/-- Whenever one node points at another, that one points back. -/
def Mutual (L : DLinks α) : Prop := ∀ a b, L.next a = some b ↔ L.prev b = some a

/-- The node has no neighbours. -/
def Unlinked (L : DLinks α) (a : α) : Prop := L.next a = none ∧ L.prev a = none

/-- No pointer leads out of `S`. -/
def ClosedOn (L : DLinks α) (S : Set α) : Prop :=
  ∀ a ∈ S, ∀ b, L.next a = some b ∨ L.prev a = some b → b ∈ S

/-- The nodes that pointers lead to from `a`. -/
def Connected (L : DLinks α) : α → α → Prop :=
  Relation.ReflTransGen fun a b => L.next a = some b ∨ L.prev a = some b

theorem closedOn_connected : L.ClosedOn {b | L.Connected a b} :=
  fun _ hb _ hbc => Relation.ReflTransGen.tail hb hbc

theorem ClosedOn.mem_of_connected {S : Set α} (hS : L.ClosedOn S) (ha : a ∈ S)
    (hab : L.Connected a b) : b ∈ S := by
  induction hab with
  | refl => exact ha
  | tail _ hbc ih => exact hS _ ih _ hbc

/-- No pointer leads into a set that none leads out of. -/
theorem Mutual.notMem (h : L.Mutual) {S : Set α} (hS : L.ClosedOn S) (ha : a ∉ S)
    (hab : L.next a = some b ∨ L.prev a = some b) : b ∉ S := by
  intro hb
  rcases hab with hab | hab
  · exact ha (hS b hb a (.inr ((h a b).mp hab)))
  · exact ha (hS b hb a (.inl ((h b a).mpr hab)))

/-- Nothing is connected to a node that is alone in its ring. -/
theorem Connected.eq_of_next_self (hab : L.Connected a b) (h : L.Mutual) (ha : L.next a = some a) :
    b = a := by
  refine ClosedOn.mem_of_connected (S := {a}) (fun x hx y hxy => ?_) rfl hab
  obtain rfl := Set.mem_singleton_iff.mp hx
  rcases hxy with hxy | hxy
  · exact Option.some.inj (hxy.symm.trans ha)
  · exact Option.some.inj (hxy.symm.trans ((h x x).mp ha))

/-- Nodes stay connected if what follows each of them does. -/
theorem Connected.of_next {L' : DLinks α} (h : L.Mutual) (h' : L'.Mutual)
    (hnext : ∀ b, L.Connected a b → L'.next b = L.next b) (hb : L.Connected a b) :
    L'.Connected a b := by
  induction hb with
  | refl => exact Relation.ReflTransGen.refl
  | @tail x y hx hxy ih =>
    refine Relation.ReflTransGen.tail ih ?_
    rcases hxy with hxy | hxy
    · exact .inl ((hnext x hx).trans hxy)
    · have hy : L.Connected a y := Relation.ReflTransGen.tail hx (.inr hxy)
      exact .inr ((h' y x).mp ((hnext y hy).trans ((h y x).mpr hxy)))

theorem Mutual.ne_of_unlinked (h : L.Mutual) (hu : L.Unlinked d)
    (hab : L.next a = some b ∨ L.prev a = some b) : d ≠ a ∧ d ≠ b := by
  refine ⟨?_, ?_⟩
  · rintro rfl
    rcases hab with hab | hab
    · simp [hu.1] at hab
    · simp [hu.2] at hab
  · rintro rfl
    rcases hab with hab | hab
    · simpa [hu.2] using (h a d).mp hab
    · simpa [hu.1] using (h d a).mpr hab

/-- **A loop that comes to an end** has visited every other node of its list. -/
theorem Connected.mem_of_collect [DecidableEq α] {n : ℕ} (hab : L.Connected a b) (h : L.Mutual)
    (hl : collect L.next a n (L.next a) = .ok l) : b ∈ a :: l := by
  obtain ⟨hfirst, hrest⟩ := collect_next hl
  refine ClosedOn.mem_of_connected (S := {x | x ∈ a :: l}) ?_ List.mem_cons_self hab
  rintro x hx y (hxy | hyx)
  · obtain ⟨c, hc, hmem⟩ : ∃ c, L.next x = some c ∧ c ∈ a :: l := by
      rcases List.mem_cons.mp hx with rfl | hx
      · exact hfirst
      · exact hrest x hx
    obtain rfl := Option.some.inj (hxy.symm.trans hc)
    exact hmem
  · have hnext := (h y x).mpr hyx
    obtain ⟨z, hz, hzx⟩ : ∃ z ∈ a :: l, L.next z = some x := by
      rcases exists_prev_of_collect hl hx with ha | ⟨z, hz, hzx⟩
      · exact ⟨a, List.mem_cons_self, ha⟩
      · exact ⟨z, List.mem_cons_of_mem _ hz, hzx⟩
    obtain rfl := Option.some.inj (hyx.symm.trans ((h z x).mp hzx))
    exact hz

section UpdateMutual

variable [DecidableEq α]

/-- The pointers left after unlinking a node. -/
theorem unlink_next_eq_some {x y : α} : (L.unlink a b c).next x = some y ↔
    x ≠ b ∧ (x = a ∧ c = y ∨ x ≠ a ∧ L.next x = some y) := by
  simp only [DLinks.unlink, Function.update_apply]
  grind

theorem unlink_prev_eq_some {x y : α} : (L.unlink a b c).prev y = some x ↔
    y ≠ b ∧ (y = c ∧ a = x ∨ y ≠ c ∧ L.prev y = some x) := by
  simp only [DLinks.unlink, Function.update_apply]
  grind

/-- The pointers after inserting a node. -/
theorem insert_next_eq_some {x y : α} : (L.insert a b c).next x = some y ↔
    x = a ∧ b = y ∨ x ≠ a ∧ (x = b ∧ c = y ∨ x ≠ b ∧ L.next x = some y) := by
  simp only [DLinks.insert, Function.update_apply]
  grind

theorem insert_prev_eq_some {x y : α} : (L.insert a b c).prev y = some x ↔
    y = c ∧ b = x ∨ y ≠ c ∧ (y = b ∧ a = x ∨ y ≠ b ∧ L.prev y = some x) := by
  simp only [DLinks.insert, Function.update_apply]
  grind

theorem unlinked_unlink : (L.unlink a b c).Unlinked b := by
  constructor
  · simp [DLinks.unlink]
  · simp [DLinks.unlink]

theorem Mutual.unlink (h : L.Mutual) (ha : L.prev b = some a) (hc : L.next b = some c) :
    (L.unlink a b c).Mutual := by
  have hab := (h a b).mpr ha
  have hbc := (h b c).mp hc
  intro x y
  rw [unlink_next_eq_some, unlink_prev_eq_some]
  have hxy := h x y
  grind

theorem Mutual.insert (h : L.Mutual) (hb : L.Unlinked b) (hc : L.next a = some c) :
    (L.insert a b c).Mutual := by
  have hac := (h a c).mp hc
  obtain ⟨hbn, hbp⟩ := hb
  intro x y
  rw [insert_next_eq_some, insert_prev_eq_some]
  have hxy := h x y
  grind

/-- A ring of its own for a node without neighbours. -/
theorem Mutual.selfLink (h : L.Mutual) (hb : L.Unlinked b) :
    (⟨Function.update L.next b (some b), Function.update L.prev b (some b)⟩ : DLinks α).Mutual := by
  obtain ⟨hbn, hbp⟩ := hb
  intro x y
  have hxy := h x y
  simp only [Function.update_apply]
  grind

/-- Unlinking leaves nodes without neighbours alone. -/
theorem Unlinked.unlink (hd : L.Unlinked d) (h : L.Mutual) (ha : L.prev b = some a)
    (hc : L.next b = some c) : (L.unlink a b c).Unlinked d := by
  have hda := (h.ne_of_unlinked hd (.inr ha)).2
  have hdc := (h.ne_of_unlinked hd (.inl hc)).2
  constructor
  · by_cases hdb : d = b
    · simp [DLinks.unlink, hdb]
    · simpa [DLinks.unlink, hdb, hda] using hd.1
  · by_cases hdb : d = b
    · simp [DLinks.unlink, hdb]
    · simpa [DLinks.unlink, hdb, hdc] using hd.2

theorem Unlinked.insert (hd : L.Unlinked d) (h : L.Mutual) (hdb : d ≠ b)
    (hc : L.next a = some c) : (L.insert a b c).Unlinked d := by
  obtain ⟨hda, hdc⟩ := h.ne_of_unlinked hd (.inl hc)
  constructor
  · simpa [DLinks.insert, hdb, hda] using hd.1
  · simpa [DLinks.insert, hdb, hdc] using hd.2

/-- A set without its member `b` once `b` has been unlinked. -/
theorem ClosedOn.unlink {S : Set α} (hS : L.ClosedOn S) (h : L.Mutual) (ha : L.prev b = some a)
    (hc : L.next b = some c) : (L.unlink a b c).ClosedOn (S \ {b}) := by
  have hab := (h a b).mpr ha
  have hbc := (h b c).mp hc
  rintro x ⟨hx, hxb⟩ y hxy
  have hxy' := h x y
  have hyx' := h y x
  simp only [Set.mem_singleton_iff] at hxb
  rcases hxy with hxy | hxy
  · rcases unlink_next_eq_some.mp hxy with ⟨-, ⟨rfl, rfl⟩ | ⟨hxa, hold⟩⟩
    · refine ⟨hS b (hS x hx b (.inl hab)) c (.inl hc), ?_⟩
      rintro rfl
      exact hxb (Option.some.inj (ha.symm.trans hbc))
    · refine ⟨hS x hx y (.inl hold), ?_⟩
      rintro rfl
      exact hxa (Option.some.inj ((hxy'.mp hold).symm.trans ha))
  · rcases unlink_prev_eq_some.mp hxy with ⟨-, ⟨rfl, rfl⟩ | ⟨hxc, hold⟩⟩
    · refine ⟨hS b (hS x hx b (.inr hbc)) a (.inr ha), ?_⟩
      rintro rfl
      exact hxb (Option.some.inj (hc.symm.trans hab))
    · refine ⟨hS x hx y (.inr hold), ?_⟩
      rintro rfl
      exact hxc (Option.some.inj ((hyx'.mpr hold).symm.trans hc))

/-- The other nodes stay connected when `b` is unlinked. -/
theorem Connected.unlink (h : L.Mutual) (ha : L.prev b = some a) (hc : L.next b = some c) {x : α}
    (hx : L.Connected d x) (hdb : d ≠ b) (hxb : x ≠ b) : (L.unlink a b c).Connected d x := by
  have hab := (h a b).mpr ha
  have hbc := (h b c).mp hc
  -- a way through `b` leads from one of its neighbours to the other
  suffices hall : (x ≠ b → (L.unlink a b c).Connected d x) ∧
      (x = b → ∀ y, y ≠ b → y = a ∨ y = c → (L.unlink a b c).Connected d y) from hall.1 hxb
  clear hxb
  induction hx with
  | refl => exact ⟨fun _ => Relation.ReflTransGen.refl, fun e => absurd e hdb⟩
  | @tail m n _ hmn ih =>
    by_cases hmb : m = b
    · subst hmb
      refine ⟨fun hnb => ih.2 rfl n hnb ?_, fun _ => ih.2 rfl⟩
      rcases hmn with hmn | hmn
      · exact .inr (Option.some.inj (hmn.symm.trans hc))
      · exact .inl (Option.some.inj (hmn.symm.trans ha))
    · have hto := ih.1 hmb
      refine ⟨fun hnb => Relation.ReflTransGen.tail hto ?_, fun hnb y hyb hy => ?_⟩
      · rcases hmn with hmn | hmn
        · refine .inl (unlink_next_eq_some.mpr ⟨hmb, .inr ⟨?_, hmn⟩⟩)
          rintro rfl
          exact hnb (Option.some.inj (hmn.symm.trans hab))
        · refine .inr (unlink_prev_eq_some.mpr ⟨hmb, .inr ⟨?_, hmn⟩⟩)
          rintro rfl
          exact hnb (Option.some.inj (hmn.symm.trans hbc))
      · subst hnb
        rcases hmn with hmn | hmn
        · obtain rfl := Option.some.inj (((h m n).mp hmn).symm.trans ha)
          rcases hy with rfl | rfl
          · exact hto
          · exact Relation.ReflTransGen.tail hto
              (.inl (unlink_next_eq_some.mpr ⟨hmb, .inl ⟨rfl, rfl⟩⟩))
        · obtain rfl := Option.some.inj (((h n m).mpr hmn).symm.trans hc)
          rcases hy with rfl | rfl
          · exact Relation.ReflTransGen.tail hto
              (.inr (unlink_prev_eq_some.mpr ⟨hmb, .inl ⟨rfl, rfl⟩⟩))
          · exact hto

/-- Inserting outside of a set. -/
theorem ClosedOn.insert {S : Set α} (hS : L.ClosedOn S) (h : L.Mutual) (ha : a ∉ S) (hb : b ∉ S)
    (hc : L.next a = some c) : (L.insert a b c).ClosedOn S := by
  have hcS := h.notMem hS ha (.inl hc)
  intro x hx y hxy
  rcases hxy with hxy | hxy
  · rcases insert_next_eq_some.mp hxy with ⟨rfl, -⟩ | ⟨-, ⟨rfl, -⟩ | ⟨-, hxy⟩⟩
    · exact absurd hx ha
    · exact absurd hx hb
    · exact hS x hx y (.inl hxy)
  · rcases insert_prev_eq_some.mp hxy with ⟨rfl, -⟩ | ⟨-, ⟨rfl, -⟩ | ⟨-, hxy⟩⟩
    · exact absurd hx hcS
    · exact absurd hx hb
    · exact hS x hx y (.inr hxy)

/-- Inserting outside of a set leaves the pointers of its members alone. -/
theorem insert_next_of_mem {S : Set α} (ha : a ∉ S) (hb : b ∉ S) {x : α} (hx : x ∈ S) :
    (L.insert a b c).next x = L.next x := by
  have hxa : x ≠ a := fun e => ha (e ▸ hx)
  have hxb : x ≠ b := fun e => hb (e ▸ hx)
  simp [DLinks.insert, hxa, hxb]

theorem unlink_next_of_mem {S : Set α} (hS : L.ClosedOn S) (h : L.Mutual) (hb : b ∉ S)
    (ha : L.prev b = some a) {x : α} (hx : x ∈ S) : (L.unlink a b c).next x = L.next x := by
  have hxa : x ≠ a := fun e => h.notMem hS hb (.inr ha) (e ▸ hx)
  have hxb : x ≠ b := fun e => hb (e ▸ hx)
  simp [DLinks.unlink, hxa, hxb]

end UpdateMutual

/-! ### Nodes in a list -/

/-- The node has a neighbour on either side. -/
structure Chained (L : DLinks α) (a : α) : Prop where
  prev : ∃ b, L.prev a = some b
  next : ∃ b, L.next a = some b

theorem IsRing.chained (h : L.IsRing l) (ha : a ∈ l) : L.Chained a := by
  obtain ⟨b, -, hb⟩ := h.exists_prev ha
  obtain ⟨c, -, hc⟩ := h.exists_next ha
  exact ⟨⟨b, hb.2⟩, ⟨c, hc.1⟩⟩

section Chained

variable [DecidableEq α]

/-- Unlinking one node leaves the neighbours of every other node in place. -/
theorem Chained.unlink (h : L.Chained d) (hdb : d ≠ b) : (L.unlink a b c).Chained d := by
  obtain ⟨⟨x, hx⟩, y, hy⟩ := h
  constructor
  · by_cases hdc : d = c
    · exact ⟨a, by simp [DLinks.unlink, hdc, hdc ▸ hdb]⟩
    · exact ⟨x, by simp [DLinks.unlink, hdb, hdc, hx]⟩
  · by_cases hda : d = a
    · exact ⟨c, by simp [DLinks.unlink, hda, hda ▸ hdb]⟩
    · exact ⟨y, by simp [DLinks.unlink, hdb, hda, hy]⟩

theorem Chained.insert (h : L.Chained d) : (L.insert a b c).Chained d := by
  obtain ⟨⟨x, hx⟩, y, hy⟩ := h
  simp only [DLinks.insert]
  constructor
  · by_cases hdc : d = c
    · exact ⟨b, by simp [hdc]⟩
    · by_cases hdb : d = b
      · exact ⟨a, by simp [hdb, hdb ▸ hdc]⟩
      · exact ⟨x, by simp [hdc, hdb, hx]⟩
  · by_cases hda : d = a
    · exact ⟨b, by simp [hda]⟩
    · by_cases hdb : d = b
      · exact ⟨c, by simp [hdb, hdb ▸ hda]⟩
      · exact ⟨y, by simp [hda, hdb, hy]⟩

/-- The node that is linked in has neighbours. -/
theorem chained_insert : (L.insert a b c).Chained b := by
  simp only [DLinks.insert]
  constructor
  · by_cases hbc : b = c
    · exact ⟨b, by simp [hbc]⟩
    · exact ⟨a, by simp [hbc]⟩
  · by_cases hba : b = a
    · exact ⟨b, by simp [hba]⟩
    · exact ⟨c, by simp [hba]⟩

end Chained

/-! ### Cutting a ring open -/

/-- The nodes met from `o` on, up to a `NULL` pointer. -/
def Path (next : α → Option α) : Option α → List α → Prop
  | o, [] => o = none
  | o, a :: l => o = some a ∧ Path next (next a) l

/-- A ring whose last node is made to point nowhere becomes an open list. -/
theorem IsRing.cut [DecidableEq α] (h : L.IsRing (a :: t)) (hp : L.prev a = some c) :
    c ∈ a :: t ∧ Path (Function.update L.next c none) (some a) (a :: t) := by
  suffices H : ∀ t b, (b :: (t ++ [a])).IsChain L.Linked → (b :: t).Nodup →
      c ∈ b :: t ∧ Path (Function.update L.next c none) (some b) (b :: t) from
    H t a (isRing_cons.mp h).2 h.1
  intro t
  induction t with
  | nil =>
    intro b hc _
    obtain rfl : b = c := by
      have := (List.isChain_cons_cons.mp hc).1.2
      rw [hp, Option.some_inj] at this
      exact this.symm
    simp [Path]
  | cons d t ih =>
    intro b hc hn
    obtain ⟨hbd, hc⟩ := List.isChain_cons_cons.mp hc
    obtain ⟨hbt, hn⟩ := List.nodup_cons.mp hn
    obtain ⟨hmem, hpath⟩ := ih d hc hn
    have hbc : b ≠ c := fun e => hbt (e ▸ hmem)
    refine ⟨List.mem_cons_of_mem _ hmem, rfl, ?_⟩
    rwa [Function.update_of_ne hbc, hbd.1]

end DLinks
