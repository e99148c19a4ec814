/-
The list of keybindings as a map (`keybinding.c`).

`struct keybinding_list` as it lies in memory: two counters of 32 bits and an array
that was allocated for as many pointers as the capacity says.  A push that finds a
keybinding with the same mode, modifiers and key frees it, with what it owns, and
takes its place.

* `KeyArray.push_exactly` — what one push does;
* `keybindingListPush_array` — the array is what `KeyServer` keeps of it;
* `pushes_map_iff` — when a sequence of pushes behaves as a map.
-/
import Cagebreak.KeyOwners
import Cagebreak.Lib.Keyed

namespace Cagebreak

namespace KeyServer

open Ownership

/-- `struct keybinding_list`; a slot that was not written to stands as `none`. -/
structure KeyArray where
  length : UInt32
  capacity : UInt32
  keybindings : List (Option ℕ)
  deriving DecidableEq

namespace KeyArray

/-! ### The functions -/

/-- `keybinding_list_init`. -/
def keybindingListInit : KeyArray := ⟨0, 1, [none]⟩

/-- `keybinding_resize`. -/
def keybindingResize (list : KeyArray) : KeyArray :=
  if list.length = list.capacity then
    { list with
      capacity := list.capacity * 2
      keybindings := reallocArray list.keybindings (list.capacity * 2).toNat }
  else list

/-- The loop of `find_keybinding`, for `n` more slots from `it` on. -/
def findFrom (heap : ℕ → Option Keybinding) (mode : UInt16) (modifiers key : UInt32) :
    ℕ → List (Option ℕ) → Exec (Option ℕ)
  | 0, _ => .ok none
  | n + 1, it => do
    let k ← Exec.nonNull it.head?.join
    let kb ← Exec.nonNull (heap k)
    if modifiers = kb.modifiers ∧ mode = kb.mode ∧ key = kb.key then .ok (some 0)
    else do
      let found ← findFrom heap mode modifiers key n it.tail
      .ok (found.map (· + 1))

/-- `find_keybinding`: the index of the slot. -/
def findKeybinding (list : KeyArray) (heap : ℕ → Option Keybinding) (mode : UInt16)
    (modifiers key : UInt32) : Exec (Option ℕ) :=
  findFrom heap mode modifiers key list.length.toNat list.keybindings

/-- `keybinding_list_push`. -/
def keybindingListPush (s : Memory × KeyArray) (keybinding : ℕ) : Exec (Memory × KeyArray) := do
  let (memory, list) := s
  let list := list.keybindingResize
  let kb ← Exec.nonNull (memory.heap keybinding)
  match ← list.findKeybinding memory.heap kb.mode kb.modifiers kb.key with
  | some i => do
    let found ← Exec.nonNull list.keybindings[i]?.join
    let heap ← keybindingFree memory.next memory.heap found true
    .ok ({ memory with heap },
      { list with keybindings := list.keybindings.set i (some keybinding) })
  | none => do
    -- the slot after the last one must have been allocated
    Exec.deref (decide (list.length.toNat < list.keybindings.length))
    .ok (memory,
      { list with
        keybindings := list.keybindings.set list.length.toNat (some keybinding)
        length := list.length + 1 })

/-! ### The pointers of an array -/

/-- The slots in use hold these pointers. -/
structure Holds (list : KeyArray) (its : List ℕ) : Prop where
  slots : ∃ rest, list.keybindings = its.map some ++ rest
  length : its.length = list.length.toNat

/-- As many slots were allocated as the capacity says, which is a power of two. -/
structure Allocated (list : KeyArray) : Prop where
  slots : list.keybindings.length = list.capacity.toNat
  capacity : ∃ e, list.capacity.toNat = 2 ^ e

variable {list : KeyArray} {its : List ℕ} {heap : ℕ → Option Keybinding} {mode : UInt16}
  {modifiers key : UInt32} {memory : Memory} {k i : ℕ}
  {f : ℕ → Option (UInt16 × UInt32 × UInt32)}

theorem Holds.length_le (h : list.Holds its) : its.length ≤ list.keybindings.length := by
  obtain ⟨rest, hrest⟩ := h.slots
  rw [hrest]
  simp

theorem Holds.getElem? (h : list.Holds its) (hi : i < its.length) :
    list.keybindings[i]? = some its[i]? := by
  obtain ⟨rest, hrest⟩ := h.slots
  rw [hrest, List.getElem?_append_left (by simpa using hi)]
  simp [hi]

/-- The search looks at the pointers in use. -/
theorem Holds.findKeybinding (h : list.Holds its) :
    list.findKeybinding heap mode modifiers key =
      KeyServer.findKeybinding heap mode modifiers key its := by
  obtain ⟨⟨rest, hrest⟩, hlength⟩ := h
  rw [KeyArray.findKeybinding, ← hlength, hrest]
  clear hrest hlength
  induction its with
  | nil => rfl
  | cons it its ih =>
    rw [List.length_cons, findFrom, KeyServer.findKeybinding, ← ih]
    rfl

/-- The search finds an index among those it looks at. -/
theorem lt_of_findFrom {n : ℕ} {it : List (Option ℕ)}
    (h : findFrom heap mode modifiers key n it = .ok (some i)) : i < n := by
  induction n generalizing it i with
  | zero => cases h
  | succ n ih =>
    rw [findFrom] at h
    obtain ⟨k, -, h⟩ := Exec.bind_eq_ok.mp h
    obtain ⟨kb, -, h⟩ := Exec.bind_eq_ok.mp h
    split at h
    · cases h
      exact Nat.zero_lt_succ n
    · obtain ⟨found, hfound, h⟩ := Exec.bind_eq_ok.mp h
      obtain ⟨j, rfl, rfl⟩ := Option.map_eq_some_iff.mp (Except.ok.inj h)
      exact Nat.succ_lt_succ (ih hfound)

/-! ### Growing -/

theorem keybindingListInit_holds : keybindingListInit.Holds [] := ⟨⟨[none], rfl⟩, rfl⟩

theorem keybindingListInit_allocated : keybindingListInit.Allocated := ⟨rfl, 0, rfl⟩

theorem length_keybindingResize : list.keybindingResize.length = list.length := by
  rw [keybindingResize]
  split
  · rfl
  · rfl

/-- As long as the doubled capacity fits into 32 bits, there is room after a resize. -/
theorem keybindingResize_spec (h : list.Holds its) (ha : list.Allocated)
    (hlt : its.length < 2 ^ 31) :
    list.keybindingResize.Holds its ∧ list.keybindingResize.Allocated ∧
      its.length < list.keybindingResize.keybindings.length := by
  obtain ⟨hslots, e, he⟩ := ha
  have hlength := h.length
  rw [keybindingResize]
  split
  · next hfull =>
    have hcap : its.length = list.capacity.toNat := by rw [hlength, hfull]
    have hdouble : (list.capacity * 2).toNat = list.capacity.toNat * 2 := by
      rw [UInt32.toNat_mul]
      exact Nat.mod_eq_of_lt (by simp; omega)
    have hpos : 0 < list.capacity.toNat := he ▸ Nat.two_pow_pos e
    obtain ⟨⟨rest, hrest⟩, -⟩ := h
    have hrest0 : rest = [] := by
      rw [hrest] at hslots
      simp at hslots
      exact List.length_eq_zero_iff.mp (by omega)
    have hkeep : reallocArray list.keybindings (list.capacity * 2).toNat =
        its.map some ++ List.replicate list.capacity.toNat none := by
      rw [reallocArray, hrest, hrest0, List.append_nil, hdouble,
        List.take_of_length_le (by simp; omega)]
      congr 2
      simp
      omega
    refine ⟨⟨⟨_, hkeep⟩, hlength⟩, ⟨?_, e + 1, ?_⟩, ?_⟩
    · rw [hkeep, hdouble]
      simp
      omega
    · rw [hdouble, he, Nat.pow_succ]
    · rw [hkeep]
      simp
      exact hpos
  · next hfull =>
    refine ⟨h, ⟨hslots, e, he⟩, ?_⟩
    have hne : list.length.toNat ≠ list.capacity.toNat := fun heq =>
      hfull (UInt32.toNat_inj.mp heq)
    have hle := h.length_le
    omega

/-- An array of `2 ^ 31` pointers is lost by the next resize. -/
theorem keybindingResize_lost (h : list.Holds its) (ha : list.Allocated)
    (hlt : ¬ its.length < 2 ^ 31) : list.keybindingResize.keybindings = [] := by
  obtain ⟨hslots, e, he⟩ := ha
  have hle := h.length_le
  have hcap : list.capacity.toNat < 2 ^ 32 := UInt32.toNat_lt _
  have hexp : e < 32 := (Nat.pow_lt_pow_iff_right (by omega)).mp (he ▸ hcap)
  have htop : list.capacity.toNat = 2 ^ 31 := by
    have hle31 : 2 ^ e ≤ 2 ^ 31 := Nat.pow_le_pow_right (by omega) (by omega)
    omega
  have hfull : list.length = list.capacity := by
    refine UInt32.toNat_inj.mp ?_
    rw [← h.length]
    omega
  have hzero : (list.capacity * 2).toNat = 0 := by
    rw [UInt32.toNat_mul, htop]
    rfl
  rw [keybindingResize, if_pos hfull]
  show reallocArray list.keybindings (list.capacity * 2).toNat = []
  rw [hzero, reallocArray]
  simp

/-! ### One push -/

/-- What a keybinding is for. -/
def triple (heap : ℕ → Option Keybinding) (k : ℕ) : Option (UInt16 × UInt32 × UInt32) :=
  (heap k).map fun kb => (kb.mode, kb.modifiers, kb.key)

/-- Among live keybindings, the search finds the first one for the triple. -/
theorem findKeybinding_eq (h : ∀ a ∈ its, (heap a).isSome ∧ triple heap a = f a) :
    KeyServer.findKeybinding heap mode modifiers key its =
      .ok (its.findIdx? fun a => f a = some (mode, modifiers, key)) := by
  induction its with
  | nil => rfl
  | cons it its ih =>
    obtain ⟨⟨hit, hf⟩, hits⟩ := List.forall_mem_cons.mp h
    obtain ⟨kb, hkb⟩ := Option.isSome_iff_exists.mp hit
    have htriple : f it = some (kb.mode, kb.modifiers, kb.key) := by
      rw [← hf, triple, hkb]
      rfl
    rw [KeyServer.findKeybinding, Exec.nonNull_eq_ok.mpr hkb, Exec.ok_bind, List.findIdx?_cons,
      htriple, ih hits]
    by_cases hc : modifiers = kb.modifiers ∧ mode = kb.mode ∧ key = kb.key
    · obtain ⟨rfl, rfl, rfl⟩ := hc
      simp
    · have hne : some (kb.mode, kb.modifiers, kb.key) ≠ some (mode, modifiers, key) := by
        intro heq
        simp only [Option.some.injEq, Prod.mk.injEq] at heq
        exact hc ⟨heq.2.1.symm, heq.1.symm, heq.2.2.symm⟩
      rw [if_neg hc]
      simp [hne]

theorem Holds.set (h : list.Holds its) (hi : i < its.length) :
    Holds { list with keybindings := list.keybindings.set i (some k) } (its.set i k) := by
  obtain ⟨⟨rest, hrest⟩, hlength⟩ := h
  refine ⟨⟨rest, ?_⟩, ?_⟩
  · show list.keybindings.set i (some k) = _
    rw [hrest, List.set_append_left _ _ (by simpa using hi), List.map_set]
  · rw [List.length_set]
    exact hlength

theorem Holds.append (h : list.Holds its) (hlt : its.length < list.keybindings.length)
    (hbound : its.length < 2 ^ 31) :
    Holds { list with
      keybindings := list.keybindings.set list.length.toNat (some k)
      length := list.length + 1 } (its ++ [k]) := by
  obtain ⟨⟨rest, hrest⟩, hlength⟩ := h
  rw [hrest] at hlt
  cases rest with
  | nil => simp at hlt
  | cons slot rest =>
    refine ⟨⟨rest, ?_⟩, ?_⟩
    · show list.keybindings.set list.length.toNat (some k) = _
      rw [hrest, ← hlength, List.set_append_right _ _ (by simp)]
      simp
    · show _ = (list.length + 1).toNat
      rw [UInt32.toNat_add, ← hlength, List.length_append]
      exact (Nat.mod_eq_of_lt (by simp; omega)).symm

/-- **One push.**  It returns as long as the array can still grow; the pointer is
inserted, and what it replaces is freed with what that owned. -/
theorem push_exactly (h : list.Holds its) (ha : list.Allocated)
    (hlive : ∀ a ∈ its, (memory.heap a).isSome ∧ triple memory.heap a = f a)
    (hk : (memory.heap k).isSome ∧ triple memory.heap k = f k)
    (hfree : ∀ old ∈ its, ∃ ks, IsChain Keybinding.inner memory.heap old ks ∧ ks.Nodup ∧
      ks.length ≤ memory.next) :
    Exec.Exactly (its.length < 2 ^ 31) (keybindingListPush (memory, list) k) fun t =>
      t.2.Holds (Keyed.insert f its k) ∧ t.2.Allocated ∧ t.1.next = memory.next ∧
        match its.find? fun a => f a = f k with
        | none => t.1.heap = memory.heap
        | some old => ∃ ks, IsChain Keybinding.inner memory.heap old ks ∧
            t.1.heap = without memory.heap ks := by
  obtain ⟨kb, hkb⟩ := Option.isSome_iff_exists.mp hk.1
  have htriple : f k = some (kb.mode, kb.modifiers, kb.key) := by
    rw [← hk.2, triple, hkb]
    rfl
  by_cases hlt : its.length < 2 ^ 31
  · refine .inl ⟨hlt, ?_⟩
    obtain ⟨hholds, halloc, hroom⟩ := keybindingResize_spec h ha hlt
    unfold keybindingListPush
    refine Exec.Gives.nonNull hkb ?_
    rw [hholds.findKeybinding, findKeybinding_eq hlive, Exec.ok_bind, ← htriple]
    cases hfind : its.findIdx? fun a => f a = f k with
    | none =>
      refine Exec.Gives.deref (decide_eq_true (hholds.length ▸ hroom)) (Exec.Gives.ok ?_)
      have hnone : its.find? (fun a => f a = f k) = none := by
        rw [List.find?_eq_bind_findIdx?_getElem?, hfind]
        rfl
      rw [Keyed.insert_of_findIdx?_eq_none hfind, hnone]
      refine ⟨hholds.append hroom hlt, ⟨?_, halloc.capacity⟩, rfl, rfl⟩
      show (List.set _ _ _).length = _
      rw [List.length_set]
      exact halloc.slots
    | some i =>
      obtain ⟨hi, -⟩ := Keyed.of_findIdx?_eq_some hfind
      have hget : its[i]? = some its[i] := List.getElem?_eq_getElem hi
      obtain ⟨ks, hc, hnodup, hfuel⟩ := hfree its[i] (List.getElem_mem hi)
      have hsome : its.find? (fun a => f a = f k) = some its[i] := by
        rw [List.find?_eq_bind_findIdx?_getElem?, hfind]
        exact hget
      have hslot : list.keybindingResize.keybindings[i]?.join = some its[i] := by
        rw [hholds.getElem? hi, hget]
        rfl
      refine Exec.Gives.nonNull hslot ?_
      rw [keybindingFree_spec hc hnodup hfuel, Exec.ok_bind]
      refine Exec.Gives.ok ?_
      rw [Keyed.insert_of_findIdx?_eq_some hfind, hsome]
      refine ⟨hholds.set hi, ⟨?_, halloc.capacity⟩, rfl, ks, hc, rfl⟩
      show (List.set _ _ _).length = _
      rw [List.length_set]
      exact halloc.slots
  · refine .inr ⟨hlt, ?_⟩
    -- the search reads a slot of an array that has none
    have hlost := keybindingResize_lost h ha hlt
    unfold keybindingListPush
    have hpos : ∃ n, list.keybindingResize.length.toNat = n + 1 := by
      rw [length_keybindingResize, ← h.length]
      exact Nat.exists_eq_succ_of_ne_zero (by omega)
    obtain ⟨n, hn⟩ := hpos
    show (Exec.nonNull (memory.heap k) >>= fun _ => _) = _
    rw [Exec.nonNull_eq_ok.mpr hkb, Exec.ok_bind, KeyArray.findKeybinding, hn, hlost]
    rfl

end KeyArray

/-! ### Sequences of pushes -/

/-- Different keybindings to be pushed, and the heap they are on, with all that each
of them owns. -/
structure Pushes where
  memory : Memory
  bounded : memory.Bounded
  pushed : List ℕ
  nodup : pushed.Nodup
  chain : ℕ → List ℕ
  whole : ∀ k ∈ pushed, IsChain Keybinding.inner memory.heap k (chain k)

namespace Pushes

open KeyArray

variable (o : Pushes)

/-- The mode, modifiers and key of a keybinding. -/
def triple (k : ℕ) : Option (UInt16 × UInt32 × UInt32) := KeyArray.triple o.memory.heap k

/-- The memory and the list after some pushes. -/
def run (ks : List ℕ) : Exec (Memory × KeyArray) :=
  Exec.run KeyArray.keybindingListPush (o.memory, keybindingListInit) ks

/-- What has been freed after some pushes: each keybinding that was replaced, with
what it owned. -/
def freed (ks : List ℕ) : List ℕ := (Keyed.replaced o.triple ks).flatMap o.chain

/-- The list is the map that the pushes `ks` make. -/
structure IsMap (ks : List ℕ) (s : Memory × KeyArray) : Prop where
  /-- No two entries are for the same triple. -/
  distinct : ∀ i j a b, i < s.2.length.toNat → j < s.2.length.toNat →
    s.2.keybindings[i]? = some (some a) → s.2.keybindings[j]? = some (some b) →
    o.triple a = o.triple b → i = j
  /-- The search returns the last keybinding that was pushed for a triple. -/
  find : ∀ mode modifiers key, ∃ found,
    s.2.findKeybinding s.1.heap mode modifiers key = .ok found ∧
      (found.bind fun i => s.2.keybindings[i]?.join) =
        Keyed.last o.triple (some (mode, modifiers, key)) ks
  /-- An entry is the keybinding that was pushed, with what it owns. -/
  live : ∀ i k, i < s.2.length.toNat → s.2.keybindings[i]? = some (some k) →
    k ∈ ks ∧ ∀ a ∈ o.chain k, s.1.heap a = o.memory.heap a
  /-- What was replaced has been freed, nothing twice, and nothing else was. -/
  heap : s.1.heap = without o.memory.heap (o.freed ks)
  once : (o.freed ks).Nodup
  length_le : s.2.length ≤ s.2.capacity
  allocated : s.2.keybindings.length = s.2.capacity.toNat

/-- After each push the list is the map of the keybindings pushed so far, and a push
leaves the entries for other triples where and what they are. -/
structure Behave : Prop where
  map : ∀ ks, ks <+: o.pushed → Exec.Gives (o.run ks) (o.IsMap ks)
  other : ∀ ks k s t, ks ++ [k] <+: o.pushed → o.run ks = .ok s →
    KeyArray.keybindingListPush s k = .ok t → ∀ i a, i < s.2.length.toNat →
    s.2.keybindings[i]? = some (some a) → o.triple a ≠ o.triple k →
    i < t.2.length.toNat ∧ t.2.keybindings[i]? = some (some a) ∧
      ∀ b ∈ o.chain a, t.1.heap b = s.1.heap b

/-- A keybinding that is replaced shares nothing that it owns. -/
def Apart : Prop := ∀ i ∈ Keyed.replaced o.triple o.pushed, ∀ k ∈ o.pushed, k ≠ i →
  (o.chain i).Disjoint (o.chain k)

/-- Before each push there are fewer than `2 ^ 31` triples. -/
def Few : Prop := ∀ ks k, ks ++ [k] <+: o.pushed → (ks.map o.triple).dedup.length < 2 ^ 31

/-- What holds after the pushes `ks`. -/
structure After (ks : List ℕ) (s : Memory × KeyArray) : Prop where
  holds : s.2.Holds (Keyed.ofList o.triple ks)
  allocated : s.2.Allocated
  next : s.1.next = o.memory.next
  heap : s.1.heap = without o.memory.heap (o.freed ks)

variable {o} {ks : List ℕ} {s : Memory × KeyArray} {k a : ℕ}

/-! ### Chains -/

theorem chain_nodup (hk : k ∈ o.pushed) : (o.chain k).Nodup := (o.whole k hk).nodup

/-- What a keybinding that is not replaced owns has not been freed. -/
theorem notMem_freed (h : o.Apart) (hp : ks <+: o.pushed) (hk : k ∈ o.pushed)
    (hnot : k ∉ Keyed.replaced o.triple ks) (ha : a ∈ o.chain k) : a ∉ o.freed ks := by
  intro hmem
  obtain ⟨i, hi, hai⟩ := List.mem_flatMap.mp hmem
  obtain ⟨rest, hrest⟩ := hp
  have hi' : i ∈ Keyed.replaced o.triple o.pushed := by
    rw [← hrest]
    exact Keyed.replaced_subset_append hi
  have hne : k ≠ i := by
    rintro rfl
    exact hnot hi
  exact h i hi' k hk hne hai ha

/-! ### The run -/

theorem After.live (h : o.After ks s) (hap : o.Apart) (hp : ks <+: o.pushed)
    (hk : k ∈ Keyed.ofList o.triple ks) :
    k ∈ ks ∧ ∀ a ∈ o.chain k, s.1.heap a = o.memory.heap a := by
  obtain ⟨hmem, hnot⟩ := (Keyed.mem_ofList (hp.sublist.nodup o.nodup)).mp hk
  refine ⟨hmem, fun a ha => ?_⟩
  rw [h.heap]
  exact without_of_notMem (notMem_freed hap hp (hp.subset hmem) hnot ha)

/-- Of a keybinding whose chain is there, the triple can be read. -/
theorem triple_eq (hk : k ∈ o.pushed) (h : ∀ a ∈ o.chain k, s.1.heap a = o.memory.heap a) :
    (s.1.heap k).isSome ∧ KeyArray.triple s.1.heap k = o.triple k := by
  have hchain := o.whole k hk
  have hself := h k hchain.head_mem
  refine ⟨?_, ?_⟩
  · rw [hself]
    exact hchain.live k hchain.head_mem
  · rw [KeyArray.triple, hself]
    rfl

/-- **The next push** returns if there are fewer than `2 ^ 31` triples. -/
theorem After.push (h : o.After ks s) (hap : o.Apart) (hp : ks ++ [k] <+: o.pushed) :
    Exec.Exactly ((ks.map o.triple).dedup.length < 2 ^ 31) (KeyArray.keybindingListPush s k)
      (o.After (ks ++ [k])) := by
  obtain ⟨memory, list⟩ := s
  have hpk : ks <+: o.pushed := (List.prefix_append _ _).trans hp
  have hkmem : k ∈ o.pushed := hp.subset (by simp)
  have hnodup := hp.sublist.nodup o.nodup
  have hknot : k ∉ ks := by
    intro hmem
    exact (List.nodup_append.mp hnodup).2.2 k hmem k (List.mem_singleton_self k) rfl
  -- the keybinding that is pushed
  have hkchain : ∀ a ∈ o.chain k, memory.heap a = o.memory.heap a := by
    intro a ha
    rw [h.heap]
    exact without_of_notMem (notMem_freed hap hpk hkmem
      (fun hmem => hknot (Keyed.replaced_sublist.subset hmem)) ha)
  obtain ⟨hklive, hktriple⟩ := triple_eq (s := (memory, list)) hkmem hkchain
  -- the entries
  have hentry : ∀ a ∈ Keyed.ofList o.triple ks, a ∈ o.pushed ∧
      ∀ b ∈ o.chain a, memory.heap b = o.memory.heap b := by
    intro a ha
    obtain ⟨hmem, hchain⟩ := h.live hap hpk ha
    exact ⟨hpk.subset hmem, hchain⟩
  have hchain : ∀ a ∈ Keyed.ofList o.triple ks,
      IsChain Keybinding.inner memory.heap a (o.chain a) := fun a ha =>
    (o.whole a (hentry a ha).1).congr (hentry a ha).2
  have hbound : ∀ a, (memory.heap a).isSome → a < memory.next := by
    intro a ha
    rw [show memory.next = o.memory.next from h.next]
    refine o.bounded a ?_
    obtain ⟨kb, hkb⟩ := Option.isSome_iff_exists.mp ha
    rw [show memory.heap = _ from h.heap] at hkb
    rw [(eq_of_without hkb).2]
    rfl
  have hlength : (Keyed.ofList o.triple ks).length = (ks.map o.triple).dedup.length :=
    Keyed.length_ofList
  rw [← hlength]
  refine (push_exactly h.holds h.allocated (fun a ha => triple_eq (s := (memory, list))
    (hentry a ha).1 (hentry a ha).2) (triple_eq (s := (memory, list)) hkmem hkchain)
    fun a ha => ⟨_, hchain a ha, (hchain a ha).nodup,
      length_le_next hbound (hchain a ha) (hchain a ha).nodup⟩).mono fun t ht => ?_
  obtain ⟨hholds, halloc, hnext, hheap⟩ := ht
  have hinsert : Keyed.ofList o.triple (ks ++ [k]) =
      Keyed.insert o.triple (Keyed.ofList o.triple ks) k := Keyed.ofList_concat
  refine ⟨hinsert ▸ hholds, halloc, hnext.trans h.next, ?_⟩
  have hperm : (o.freed (ks ++ [k])).Perm
      (((Keyed.last o.triple (o.triple k) ks).toList ++ Keyed.replaced o.triple ks).flatMap
        o.chain) := (Keyed.replaced_concat (f := o.triple)).flatMap_right _
  refine Eq.trans ?_ (without_perm hperm.symm)
  rw [Keyed.find?_ofList] at hheap
  cases hlast : Keyed.last o.triple (o.triple k) ks with
  | none =>
    rw [hlast] at hheap
    exact hheap.trans h.heap
  | some old =>
    rw [hlast] at hheap
    obtain ⟨chain, hc, hfreed⟩ := hheap
    have hold : old ∈ Keyed.ofList o.triple ks := by
      rw [← Keyed.find?_ofList] at hlast
      exact List.mem_of_find?_eq_some hlast
    rw [hfreed, hc.unique (hchain old hold), show memory.heap = _ from h.heap, without_append]
    exact without_perm List.perm_append_comm

/-! ### Maps -/

theorem After.nil : o.After [] (o.memory, keybindingListInit) :=
  ⟨keybindingListInit_holds, keybindingListInit_allocated, rfl, without_nil.symm⟩

/-- The chains of different keybindings that are replaced have nothing in common. -/
theorem freed_nodup (hap : o.Apart) (hp : ks <+: o.pushed) : (o.freed ks).Nodup := by
  have hsub : Keyed.replaced o.triple ks ⊆ Keyed.replaced o.triple o.pushed := by
    obtain ⟨rest, hrest⟩ := hp
    rw [← hrest]
    exact Keyed.replaced_subset_append
  have hmem : ∀ i ∈ Keyed.replaced o.triple ks, i ∈ o.pushed := fun i hi =>
    hp.subset (Keyed.replaced_sublist.subset hi)
  refine List.nodup_flatMap.mpr ⟨fun i hi => chain_nodup (hmem i hi), ?_⟩
  have hnodup : (Keyed.replaced o.triple ks).Nodup :=
    Keyed.replaced_sublist.nodup (hp.sublist.nodup o.nodup)
  refine hnodup.imp_of_mem fun hi hj hne => ?_
  exact hap _ (hsub hi) _ (hmem _ hj) hne.symm

/-- What holds after some pushes makes the list a map. -/
theorem After.isMap (h : o.After ks s) (hap : o.Apart) (hp : ks <+: o.pushed) : o.IsMap ks s := by
  have hentry : ∀ i k, i < s.2.length.toNat → s.2.keybindings[i]? = some (some k) →
      (Keyed.ofList o.triple ks)[i]? = some k := by
    intro i k hi hk
    rw [← h.holds.length] at hi
    rw [h.holds.getElem? hi] at hk
    exact Option.some.inj hk
  have hle := h.holds.length_le
  constructor
  · intro i j a b hi hj ha hb hab
    have ha' := hentry i a hi ha
    have hb' := hentry j b hj hb
    have hmap : ((Keyed.ofList o.triple ks).map o.triple)[i]? =
        ((Keyed.ofList o.triple ks).map o.triple)[j]? := by
      rw [List.getElem?_map, List.getElem?_map, ha', hb', Option.map_some, Option.map_some, hab]
    refine (List.getElem?_inj ?_ Keyed.nodup_ofList).mp hmap
    rw [List.length_map, h.holds.length]
    exact hi
  · intro mode modifiers key
    rw [h.holds.findKeybinding, findKeybinding_eq (f := o.triple) fun a ha => ?_]
    · refine ⟨_, rfl, ?_⟩
      rw [← Keyed.find?_ofList, List.find?_eq_bind_findIdx?_getElem?]
      cases hfind : (Keyed.ofList o.triple ks).findIdx? fun a =>
          o.triple a = some (mode, modifiers, key) with
      | none => rfl
      | some i =>
        obtain ⟨hi, -⟩ := Keyed.of_findIdx?_eq_some hfind
        rw [Option.bind_some, Option.bind_some, h.holds.getElem? hi]
        rfl
    · obtain ⟨hmem, hchain⟩ := h.live hap hp ha
      exact triple_eq (hp.subset hmem) hchain
  · intro i k hi hk
    exact h.live hap hp (List.mem_of_getElem? (hentry i k hi hk))
  · exact h.heap
  · exact freed_nodup hap hp
  · rw [UInt32.le_iff_toNat_le, ← h.holds.length, ← h.allocated.slots]
    exact hle
  · exact h.allocated.slots

/-- The last keybinding for its triple is an entry. -/
theorem IsMap.exists_entry (h : o.IsMap ks s) (hp : ks <+: o.pushed) (hk : k ∈ ks)
    (hnot : k ∉ Keyed.replaced o.triple ks) :
    ∃ i, i < s.2.length.toNat ∧ s.2.keybindings[i]? = some (some k) := by
  have hlast := (Keyed.last_eq_some (hp.sublist.nodup o.nodup)).mpr ⟨hk, hnot⟩
  have hchain := o.whole k (hp.subset hk)
  obtain ⟨kb, hkb⟩ := Option.isSome_iff_exists.mp (hchain.live k hchain.head_mem)
  have htriple : o.triple k = some (kb.mode, kb.modifiers, kb.key) := by
    rw [triple, KeyArray.triple, hkb]
    rfl
  obtain ⟨found, hfind, hslot⟩ := h.find kb.mode kb.modifiers kb.key
  rw [← htriple, hlast] at hslot
  obtain ⟨i, rfl, hi⟩ := Option.bind_eq_some_iff.mp hslot
  exact ⟨i, lt_of_findFrom hfind, Option.join_eq_some_iff.mp hi⟩

/-- When the pushes make maps, the keybindings are apart. -/
theorem IsMap.apart (h : o.IsMap o.pushed s) : o.Apart := by
  intro i hi k hk hne a hai hak
  by_cases hreplaced : k ∈ Keyed.replaced o.triple o.pushed
  · -- what both of them own would have been freed twice
    have hpair := (List.nodup_flatMap.mp h.once).2
    have : Std.Symm (Function.onFun List.Disjoint o.chain) := ⟨fun _ _ h => h.symm⟩
    exact hpair.forall hi hreplaced hne.symm hai hak
  · -- what the entry owns would have been freed
    obtain ⟨j, hj, hslot⟩ := h.exists_entry (List.prefix_refl _) hk hreplaced
    have hlive := (h.live j k hj hslot).2 a hak
    have hfreed : a ∈ o.freed o.pushed := List.mem_flatMap.mpr ⟨i, hi, hai⟩
    rw [h.heap, without_of_mem hfreed] at hlive
    have hsome := (o.whole k hk).live a hak
    rw [← hlive] at hsome
    cases hsome

theorem run_concat : o.run (ks ++ [k]) = o.run ks >>= fun s => KeyArray.keybindingListPush s k := by
  rw [run, Exec.run, List.foldlM_append]
  refine congrArg (o.run ks >>= ·) (funext fun s => ?_)
  rw [List.foldlM_cons]
  cases KeyArray.keybindingListPush s k with
  | error e => rfl
  | ok t => rfl

/-- **Sequences of pushes.**  The run of a prefix returns if there are fewer than
`2 ^ 31` triples before each push of it. -/
theorem run_gives (hap : o.Apart) (hp : ks <+: o.pushed)
    (hfew : ∀ ks' k, ks' ++ [k] <+: ks → (ks'.map o.triple).dedup.length < 2 ^ 31) :
    Exec.Gives (o.run ks) (o.After ks) := by
  induction ks using List.reverseRecOn with
  | nil => exact Exec.Gives.ok After.nil
  | append_singleton ks k ih =>
    have hpk : ks <+: ks ++ [k] := List.prefix_append _ _
    rw [run_concat]
    refine Exec.Gives.bind (ih (hpk.trans hp) fun ks' k' h => hfew ks' k' (h.trans hpk)) ?_
    intro s hs
    exact (hs.push hap hp).gives (hfew ks k (List.prefix_refl _))

/-- A push leaves the entries for other triples where and what they are. -/
theorem After.other {t : Memory × KeyArray} (h : o.After ks s) (ht : o.After (ks ++ [k]) t)
    (hap : o.Apart) (hp : ks ++ [k] <+: o.pushed) {i : ℕ} (hi : i < s.2.length.toNat)
    (ha : s.2.keybindings[i]? = some (some a)) (hne : o.triple a ≠ o.triple k) :
    i < t.2.length.toNat ∧ t.2.keybindings[i]? = some (some a) ∧
      ∀ b ∈ o.chain a, t.1.heap b = s.1.heap b := by
  rw [← h.holds.length] at hi
  have hentry : (Keyed.ofList o.triple ks)[i]? = some a := by
    rw [h.holds.getElem? hi] at ha
    exact Option.some.inj ha
  have hentry' : (Keyed.ofList o.triple (ks ++ [k]))[i]? = some a := by
    rw [Keyed.ofList_concat]
    exact Keyed.getElem?_insert hentry hne
  obtain ⟨hi', -⟩ := List.getElem?_eq_some_iff.mp hentry'
  have hpk : ks <+: o.pushed := (List.prefix_append _ _).trans hp
  have hlive := (h.live hap hpk (List.mem_of_getElem? hentry)).2
  have hlive' := (ht.live hap hp (List.mem_of_getElem? hentry')).2
  refine ⟨ht.holds.length ▸ hi', ?_, fun b hb => (hlive' b hb).trans (hlive b hb).symm⟩
  rw [ht.holds.getElem? hi', hentry']

end Pushes

/-- The array is what the server keeps of it. -/
structure KeyArray.Represents (array : KeyArray) (list : KeybindingList) : Prop where
  holds : array.Holds list.keybindings
  allocated : array.Allocated
  capacity : array.capacity.toNat = list.capacity

theorem KeyArray.Represents.resize {moves : ℕ → Bool} {array : KeyArray} {list : KeybindingList}
    (h : array.Represents list) (hlt : list.keybindings.length < 2 ^ 31) :
    array.keybindingResize.Represents (KeyServer.keybindingResize moves list) := by
  obtain ⟨hholds, halloc, -⟩ := KeyArray.keybindingResize_spec h.holds h.allocated hlt
  refine ⟨?_, halloc, ?_⟩
  · rw [keybindings_keybindingResize]
    exact hholds
  · have hfull : array.length = array.capacity ↔ list.Full := by
      rw [← UInt32.toNat_inj, ← h.holds.length, h.capacity]
      rfl
    rw [KeyArray.keybindingResize, KeyServer.keybindingResize]
    by_cases hf : list.Full
    · rw [if_pos (hfull.mpr hf), if_pos hf]
      show (array.capacity * 2).toNat = list.capacity * 2
      have hcap : list.capacity < 2 ^ 31 := hf ▸ hlt
      rw [UInt32.toNat_mul, h.capacity]
      exact Nat.mod_eq_of_lt (by simp; omega)
    · rw [if_neg (fun heq => hf (hfull.mp heq)), if_neg hf]
      exact h.capacity

/-- **The array behind the list of the server.**  As long as the array can grow, a push
does to it what it does to the list of the server. -/
theorem keybindingListPush_array {moves : ℕ → Bool} {array : KeyArray} {s t : KeyServer} {k : ℕ}
    (h : array.Represents s.list) (hlt : s.list.keybindings.length < 2 ^ 31)
    (hs : KeyServer.keybindingListPush moves k s = .ok t) :
    Exec.Gives (KeyArray.keybindingListPush (s.memory, array) k) fun u =>
      u.1 = t.memory ∧ u.2.Represents t.list := by
  have hresize : array.keybindingResize.Represents (KeyServer.keybindingResize moves s.list) :=
    h.resize hlt
  obtain ⟨-, -, hroom⟩ := KeyArray.keybindingResize_spec h.holds h.allocated hlt
  obtain ⟨hholds, halloc, hcap⟩ := hresize
  have hlen : (KeyServer.keybindingResize moves s.list).keybindings = s.list.keybindings :=
    keybindings_keybindingResize _
  unfold KeyServer.keybindingListPush at hs
  dsimp only at hs
  obtain ⟨kb, hkb, hs⟩ := Exec.bind_eq_ok.mp hs
  obtain ⟨found, hfind, hs⟩ := Exec.bind_eq_ok.mp hs
  unfold KeyArray.keybindingListPush
  refine Exec.Gives.nonNull (Exec.nonNull_eq_ok.mp hkb) ?_
  rw [hholds.findKeybinding, hfind, Exec.ok_bind]
  cases found with
  -- the keybinding is written behind the last one
  | none =>
    cases hs
    rw [hlen] at hholds
    have hwrite : decide (array.keybindingResize.length.toNat <
        array.keybindingResize.keybindings.length) = true :=
      decide_eq_true (hholds.length ▸ hroom)
    refine Exec.Gives.deref hwrite (Exec.Gives.ok ⟨rfl, ?_, ⟨?_, halloc.capacity⟩, hcap⟩)
    · show KeyArray.Holds _ ((KeyServer.keybindingResize moves s.list).keybindings ++ [k])
      rw [hlen]
      exact hholds.append hroom hlt
    · show (List.set _ _ _).length = _
      rw [List.length_set]
      exact halloc.slots
  -- the one that is replaced is freed, and the new one gets its place
  | some i =>
    obtain ⟨old, hold, hs⟩ := Exec.bind_eq_ok.mp hs
    obtain ⟨heap, hfree, hs⟩ := Exec.bind_eq_ok.mp hs
    cases hs
    rw [Exec.nonNull_eq_ok] at hold
    obtain ⟨hi, -⟩ := List.getElem?_eq_some_iff.mp hold
    have hslot : array.keybindingResize.keybindings[i]?.join = some old := by
      rw [hholds.getElem? hi, hold]
      rfl
    refine Exec.Gives.nonNull hslot ?_
    rw [hfree, Exec.ok_bind]
    refine Exec.Gives.ok ⟨rfl, hholds.set hi, ⟨?_, halloc.capacity⟩, hcap⟩
    show (List.set _ _ _).length = _
    rw [List.length_set]
    exact halloc.slots

open Pushes in
/-- **When pushes make a map.**  Keybindings that are pushed one after another make a map
from modes, modifiers and keys if and only if those that are replaced share nothing they
own, and the array never has to grow beyond `2 ^ 31` pointers. -/
theorem pushes_map_iff (o : Pushes) : o.Behave ↔ o.Apart ∧ o.Few := by
  constructor
  · intro h
    obtain ⟨s, -, hmap⟩ := h.map o.pushed (List.prefix_refl _)
    have hap := hmap.apart
    -- what the pushes do is known of every prefix, since each push returns
    have hrun : ∀ ks, ks <+: o.pushed → Exec.Gives (o.run ks) (o.After ks) := by
      intro ks
      induction ks using List.reverseRecOn with
      | nil => exact fun _ => Exec.Gives.ok After.nil
      | append_singleton ks k ih =>
        intro hp
        obtain ⟨s, hs, hafter⟩ := ih ((List.prefix_append _ _).trans hp)
        obtain ⟨t, ht, -⟩ := h.map (ks ++ [k]) hp
        refine ⟨t, ht, ?_⟩
        rw [run_concat, hs, Exec.ok_bind] at ht
        exact ((hafter.push hap hp).ends.2 t ht).2
    refine ⟨hap, fun ks k hp => ?_⟩
    obtain ⟨s, hs, hafter⟩ := hrun ks ((List.prefix_append _ _).trans hp)
    obtain ⟨t, ht, -⟩ := hrun (ks ++ [k]) hp
    rw [run_concat, hs, Exec.ok_bind] at ht
    exact ((hafter.push hap hp).ends.2 t ht).1
  · rintro ⟨hap, hfew⟩
    have hrun : ∀ ks, ks <+: o.pushed → Exec.Gives (o.run ks) (o.After ks) := fun ks hp =>
      run_gives hap hp fun ks' k h => hfew ks' k (h.trans hp)
    constructor
    · intro ks hp
      exact (hrun ks hp).mono fun s hs => hs.isMap hap hp
    · intro ks k s t hp hs ht i a hi ha hne
      have hpk : ks <+: o.pushed := (List.prefix_append _ _).trans hp
      obtain ⟨t', ht', hafter'⟩ := hrun (ks ++ [k]) hp
      have hafter := (hrun ks hpk).ensures s hs
      rw [run_concat, hs, Exec.ok_bind, ht] at ht'
      cases ht'
      exact hafter.other hafter' hap hp hi ha hne

/-- A keybinding that defines another one, that one, and one for the key of the first. -/
def nestedPushes : Pushes where
  memory :=
    let inner : Keybinding := ⟨1, 0, 98, .closeView, .params (.u 0)⟩
    let define : Keybinding := ⟨1, 0, 97, .definekey, .kb 0⟩
    let again : Keybinding := ⟨1, 0, 97, .closeView, .params (.u 0)⟩
    (((Memory.mk (fun _ => none) 0).alloc inner).alloc define).alloc again
  bounded :=
    have hempty : (Memory.mk (fun _ => none) 0).Bounded := fun _ h => nomatch h
    ((hempty.alloc _).alloc _).alloc _
  pushed := [1, 0, 2]
  nodup := by decide
  chain := fun k => if k = 1 then [1, 0] else [k]
  whole := by
    intro k hk
    simp only [List.mem_cons, List.not_mem_nil, or_false] at hk
    obtain rfl | rfl | rfl := hk
    · exact .cons rfl rfl (.last rfl rfl)
    · exact .last rfl rfl
    · exact .last rfl rfl

/-- The third push frees the second keybinding, which stays in the list. -/
theorem nestedPushes_dangle : ¬ nestedPushes.Behave := by
  intro h
  obtain ⟨s, hs, hmap⟩ := h.map [1, 0, 2] (List.prefix_refl _)
  have htest : Exec.returns (nestedPushes.run [1, 0, 2]) (fun s => decide (s.2.length = 2 ∧
      s.2.keybindings[1]? = some (some 0) ∧ (s.1.heap 0).isNone)) = true := by decide +kernel
  rw [hs] at htest
  obtain ⟨hlength, hslot, hheap⟩ := of_decide_eq_true htest
  have hlt : 1 < s.2.length.toNat := by
    rw [hlength]
    decide
  have hlive := (hmap.live 1 0 hlt hslot).2 0 (by decide)
  rw [hlive] at hheap
  revert hheap
  decide

end KeyServer

end Cagebreak
