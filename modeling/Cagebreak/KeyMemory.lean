/-
Keybindings on the heap, and the array of pointers to them.

* `keybindingFree_cases`, `keybindingFree_spec` — the keybindings that are freed
  are the chain of those that own one another;
* `findKeybinding_spec` — the search looks at live entries;
* `keybindingListPush_cases` — an entry is appended or replaced, and what the
  replaced one owns is freed.
-/
import Cagebreak.KeyServer

namespace Cagebreak

namespace KeyServer

open Parse Ownership

variable {moves : ℕ → Bool} {s t : KeyServer} {heap heap' : ℕ → Option Keybinding}
  {memory : Memory} {k i fuel : ℕ} {ks its : List ℕ} {mode : UInt16} {modifiers key : UInt32}

/-! ### Freeing -/

/-- What `keybinding_free` has freed, when it returns. -/
theorem keybindingFree_cases (h : keybindingFree fuel heap k true = .ok heap') :
    ∃ ks, IsChain Keybinding.inner heap k ks ∧ heap' = without heap ks := by
  induction fuel generalizing k heap' with
  | zero => cases h
  | succ fuel ih =>
    rw [keybindingFree] at h
    obtain ⟨kb, hkb, h⟩ := Exec.bind_eq_ok.mp h
    rw [Exec.nonNull_eq_ok] at hkb
    obtain ⟨heap1, h1, h⟩ := Exec.bind_eq_ok.mp h
    obtain ⟨-, -, h⟩ := Exec.bind_eq_ok.mp h
    cases h
    cases hinner : kb.inner with
    | none =>
      rw [hinner] at h1
      cases h1
      refine ⟨[k], .last hkb hinner, ?_⟩
      rw [← update_without, without_nil]
    | some inner =>
      rw [hinner] at h1
      obtain ⟨ks, hc, rfl⟩ := ih h1
      exact ⟨k :: ks, .cons hkb hinner hc, update_without⟩

/-- A chain without repetitions is freed. -/
theorem keybindingFree_spec (hc : IsChain Keybinding.inner heap k ks) (hn : ks.Nodup)
    (hf : ks.length ≤ fuel) : keybindingFree fuel heap k true = .ok (without heap ks) := by
  induction hc generalizing fuel with
  | last hk hl =>
    cases fuel with
    | zero => cases hf
    | succ fuel =>
      rw [keybindingFree, hk, Exec.nonNull_eq_ok.mpr rfl, Exec.ok_bind, hl, Exec.ok_bind, hk,
        ← update_without, without_nil]
      rfl
  | @cons k k' kb ks hk hl hc ih =>
    cases fuel with
    | zero => cases hf
    | succ fuel =>
      obtain ⟨hnotMem, hn⟩ := List.nodup_cons.mp hn
      have hfuel : ks.length ≤ fuel := Nat.le_of_succ_le_succ hf
      rw [keybindingFree, hk, Exec.nonNull_eq_ok.mpr rfl, Exec.ok_bind, hl]
      dsimp only
      rw [if_pos rfl, ih hn hfuel, Exec.ok_bind, without_of_notMem hnotMem, hk, update_without]
      rfl

/-! ### Searching -/

/-- The search returns, with an index of the array, when the entries are live. -/
theorem findKeybinding_spec (h : ∀ k ∈ its, (heap k).isSome) :
    Exec.Gives (findKeybinding heap mode modifiers key its) fun found =>
      ∀ i, found = some i → i < its.length := by
  induction its with
  | nil => exact Exec.Gives.ok nofun
  | cons it its ih =>
    obtain ⟨hit, hits⟩ := List.forall_mem_cons.mp h
    obtain ⟨kb, hkb⟩ := Option.isSome_iff_exists.mp hit
    unfold findKeybinding
    refine Exec.Gives.nonNull hkb (Exec.Gives.ite (fun _ => ?_) fun _ => ?_)
    · refine Exec.Gives.ok fun i hi => ?_
      cases hi
      exact Nat.zero_lt_succ _
    · refine Exec.Gives.bind (ih hits) fun found hfound => Exec.Gives.ok fun i hi => ?_
      obtain ⟨j, hj, rfl⟩ := Option.map_eq_some_iff.mp hi
      exact Nat.succ_lt_succ (hfound j hj)

/-! ### Pushing -/

theorem keybindings_keybindingResize (list : KeybindingList) :
    (keybindingResize moves list).keybindings = list.keybindings := by
  unfold keybindingResize
  split
  · rfl
  · rfl

/-- Unless a full array is moved, it stays where it is. -/
theorem block_keybindingResize {list : KeybindingList}
    (h : list.Full → moves (list.capacity * 2) = false) :
    (keybindingResize moves list).block = list.block := by
  unfold keybindingResize
  split
  · next hfull =>
    rw [h hfull]
    rfl
  · rfl

/-- What `keybinding_list_push` has done, when it returns. -/
theorem keybindingListPush_cases (h : keybindingListPush moves k s = .ok t) :
    ∃ kb, s.memory.heap k = some kb ∧
      ((findKeybinding s.memory.heap kb.mode kb.modifiers kb.key s.list.keybindings = .ok none ∧
        t = { s with list := { keybindingResize moves s.list with
          keybindings := s.list.keybindings ++ [k] } }) ∨
      ∃ i found ks,
        findKeybinding s.memory.heap kb.mode kb.modifiers kb.key s.list.keybindings =
          .ok (some i) ∧
        s.list.keybindings[i]? = some found ∧ IsChain Keybinding.inner s.memory.heap found ks ∧
        t = { s with
          memory := { s.memory with heap := without s.memory.heap ks }
          list := { keybindingResize moves s.list with
            keybindings := s.list.keybindings.set i k } }) := by
  unfold keybindingListPush at h
  dsimp only at h
  rw [keybindings_keybindingResize] at h
  obtain ⟨kb, hkb, h⟩ := Exec.bind_eq_ok.mp h
  obtain ⟨found, hfind, h⟩ := Exec.bind_eq_ok.mp h
  refine ⟨kb, Exec.nonNull_eq_ok.mp hkb, ?_⟩
  cases found with
  | none =>
    cases h
    exact .inl ⟨hfind, rfl⟩
  | some i =>
    obtain ⟨old, hold, h⟩ := Exec.bind_eq_ok.mp h
    obtain ⟨heap, hfree, h⟩ := Exec.bind_eq_ok.mp h
    cases h
    obtain ⟨ks, hc, rfl⟩ := keybindingFree_cases hfree
    exact .inr ⟨i, old, ks, hfind, Exec.nonNull_eq_ok.mp hold, hc, rfl⟩

/-! ### Addresses -/

/-- The addresses of live keybindings have been used. -/
def Memory.Bounded (memory : Memory) : Prop := ∀ k, (memory.heap k).isSome → k < memory.next

theorem Memory.Bounded.heap_next (h : memory.Bounded) : memory.heap memory.next = none := by
  by_contra hne
  exact absurd (h _ (Option.isSome_iff_ne_none.mpr hne)) (Nat.lt_irrefl _)

theorem Memory.Bounded.alloc (h : memory.Bounded) (kb : Keybinding) :
    (memory.alloc kb).Bounded := by
  intro k hk
  show k < memory.next + 1
  by_cases hne : k = memory.next
  · omega
  · rw [memory.alloc_heap_of_ne kb hne] at hk
    exact Nat.lt_succ_of_lt (h k hk)

theorem Memory.Bounded.without (h : memory.Bounded) (ks : List ℕ) :
    Memory.Bounded { memory with heap := without memory.heap ks } := by
  intro k hk
  obtain ⟨kb, hkb⟩ := Option.isSome_iff_exists.mp hk
  refine h k ?_
  rw [(eq_of_without hkb).2]
  rfl

/-- The keybindings of a command have new addresses, and the others are kept. -/
theorem store_spec (params : KeybindingParams) (h : memory.Bounded) :
    (store params memory).2.Bounded ∧
      ∀ k kb, memory.heap k = some kb → (store params memory).2.heap k = some kb := by
  induction params generalizing memory with
  | kb mode modifiers key action data ih =>
    obtain ⟨hb, hkeep⟩ := ih h
    refine ⟨hb.alloc _, fun k kb hk => ?_⟩
    have hlive := hkeep k kb hk
    have hlt := hb k (by rw [hlive]; rfl)
    exact (Memory.alloc_heap_of_ne _ _ (Nat.ne_of_lt hlt)).trans hlive
  | _ => exact ⟨h, fun _ _ hk => hk⟩

end KeyServer

end Cagebreak
