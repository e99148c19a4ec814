/-
Who owns a keybinding.

A keybinding belongs to the array, or to the keybinding that defines it.  When a
key runs a keybinding that defines a key, what it defines is put into the array
and still belongs to it.  A group that repeats may do so through a pointer into
an array that has been moved.

* `DefinesNoKey` — the events at which neither happens;
* `keybindings_owned` — as long as only these happen, each keybinding has exactly
  one owner, nothing that has been freed is read, and nothing is freed twice.
-/
import Cagebreak.KeyModes

namespace Cagebreak

namespace KeyServer

open Parse Ownership

variable {L : Libraries} {moves : ℕ → Bool} {s t : KeyServer} {names : List Text} {n k : ℕ}
  {memory : Memory} {roots : List ℕ} {action : KeybindingAction}

/-! ### New keybindings -/

/-- The keybinding that data refer to. -/
def KeyData.root : KeyData → Option ℕ
  | .kb inner => some inner
  | .params _ => none

/-- A keybinding owns what its data refer to, if its action fits them. -/
theorem inner_eq_root {kb : Keybinding} (h : kb.data.root ≠ none → kb.action = .definekey) :
    kb.inner = kb.data.root := by
  obtain ⟨mode, modifiers, key, action, data⟩ := kb
  cases data with
  | kb inner =>
    obtain rfl : action = .definekey := h nofun
    rfl
  | params data => cases action <;> rfl

/-- The keybindings of a command are owned by one another, and the first one by
whoever has the data. -/
theorem store_owned {params : KeybindingParams} (hp : KeyServer.Indexed n action params)
    (hb : memory.Bounded) (ho : Owned Keybinding.inner memory.heap roots) :
    Owned Keybinding.inner (store params memory).2.heap
      ((store params memory).1.root.toList ++ roots) ∧
      ((store params memory).1.root ≠ none → action = .definekey) := by
  induction params generalizing action with
  | kb mode modifiers key inner data ih =>
    obtain ⟨rfl, -, hdata⟩ := hp
    obtain ⟨howned, hroot⟩ := ih hdata
    refine ⟨?_, fun _ => rfl⟩
    have hbound := (store_spec data hb).1
    refine Owned.alloc ?_ hbound.heap_next
    rw [inner_eq_root hroot]
    exact howned
  | _ => exact ⟨ho, fun h => absurd rfl h⟩

/-! ### Tidy states -/

/-- Every keybinding has one owner, and the pointers of the groups point to
entries that are in use. -/
structure Tidy (s : KeyServer) : Prop where
  owned : Owned Keybinding.inner s.memory.heap s.list.keybindings
  bounded : s.memory.Bounded
  entries : ∀ g group p, s.groups g = some group → group.repeatKeybinding = some p →
    p.index < s.list.keybindings.length

theorem Tidy.of_same (h : Tidy s) (hs : SameKeys s t) : Tidy t := by
  refine ⟨?_, ?_, fun g group p hg hp => ?_⟩
  · rw [hs.memory, hs.list]
    exact h.owned
  · rw [hs.memory]
    exact h.bounded
  · obtain ⟨group', hg', hr, -⟩ := hs.group hg
    rw [hs.list]
    exact h.entries g group' p hg' (hr.trans hp)

/-- Setting up a timer, or a repetition that points to an entry in use. -/
theorem Tidy.update_group (h : Tidy s) (g : ℕ) (group : KeyboardGroup)
    (hp : ∀ p, group.repeatKeybinding = some p → p.index < s.list.keybindings.length) :
    Tidy { s with groups := Function.update s.groups g (some group) } := by
  refine ⟨h.owned, h.bounded, fun g' group' p hg hr => ?_⟩
  by_cases hne : g' = g
  · subst hne
    have hg : Function.update s.groups g' (some group) g' = some group' := hg
    rw [Function.update_self] at hg
    cases hg
    exact hp p hr
  · have hg : Function.update s.groups g (some group) g' = some group' := hg
    rw [Function.update_of_ne hne] at hg
    exact h.entries g' group' p hg hr

theorem Tidy.live (h : Tidy s) (hk : k ∈ s.list.keybindings) : (s.memory.heap k).isSome :=
  h.owned.mem_live hk

/-- A chain has at most as many keybindings as addresses were used. -/
theorem length_le_next {heap : ℕ → Option Keybinding} {ks : List ℕ}
    (hb : ∀ k, (heap k).isSome → k < n) (hc : IsChain Keybinding.inner heap k ks)
    (hnodup : ks.Nodup) : ks.length ≤ n := by
  have hsub : ks ⊆ List.range n := fun a ha => List.mem_range.mpr (hb a (hc.live a ha))
  have hle := (hnodup.subperm hsub).length_le
  rwa [List.length_range] at hle

/-- A keybinding that nothing owns yet is pushed, and belongs to the array then. -/
theorem keybindingListPush_spec
    (ho : Owned Keybinding.inner s.memory.heap (k :: s.list.keybindings))
    (hb : s.memory.Bounded) :
    Exec.Gives (keybindingListPush moves k s) fun t =>
      Owned Keybinding.inner t.memory.heap t.list.keybindings ∧ t.memory.Bounded ∧
        s.list.keybindings.length ≤ t.list.keybindings.length ∧ k ∈ t.list.keybindings ∧
        t.groups = s.groups := by
  obtain ⟨kb, hkb⟩ := Option.isSome_iff_exists.mp (ho.mem_live List.mem_cons_self)
  unfold keybindingListPush
  dsimp only
  rw [keybindings_keybindingResize]
  refine Exec.Gives.nonNull hkb ?_
  have hlive : ∀ a ∈ s.list.keybindings, (s.memory.heap a).isSome := fun a ha =>
    ho.mem_live (List.mem_cons_of_mem _ ha)
  refine Exec.Gives.bind (findKeybinding_spec hlive) fun found hfound => ?_
  cases found with
  | none =>
    refine Exec.Gives.ok ⟨ho.perm (List.perm_append_singleton k _).symm, hb, ?_, ?_, rfl⟩
    · simp
    · simp
  | some i =>
    have hi := hfound i rfl
    refine Exec.Gives.nonNull (List.getElem?_eq_getElem hi) ?_
    -- the entry that is replaced is released from the array
    have hsplit : (k :: s.list.keybindings).Perm
        (s.list.keybindings[i] :: k :: s.list.keybindings.eraseIdx i) :=
      ((List.getElem_cons_eraseIdx_perm hi).symm.cons k).trans (.swap _ _ _)
    obtain ⟨ks, hc, hnodup, howned⟩ := (ho.perm hsplit).release
    have hfuel : ks.length ≤ s.memory.next := length_le_next hb hc hnodup
    rw [keybindingFree_spec hc hnodup hfuel, Exec.ok_bind]
    refine Exec.Gives.ok ⟨?_, hb.without ks, ?_, ?_, rfl⟩
    · exact howned.perm (List.set_perm_cons_eraseIdx hi k).symm
    · simp
    · exact List.mem_set hi k

theorem keybindingDefinekey_spec (h : Tidy s) {memory : Memory}
    (ho : Owned Keybinding.inner memory.heap (k :: s.list.keybindings)) (hb : memory.Bounded) :
    Exec.Gives (keybindingDefinekey moves k { s with memory }) Tidy := by
  refine Exec.Gives.bind (keybindingListPush_spec ho hb) fun t ht => ?_
  obtain ⟨howned, hbound, hle, hmem, hgroups⟩ := ht
  obtain ⟨kb, hkb⟩ := Option.isSome_iff_exists.mp (howned.mem_live hmem)
  refine Exec.Gives.nonNull hkb (Exec.Gives.ok ⟨howned, hbound, fun g group p hg hp => ?_⟩)
  rw [hgroups] at hg
  exact (h.entries g group p hg hp).trans_le hle

/-- An action other than `definekey` leaves a tidy state tidy. -/
theorem runAction_tidy {data : KeyData} (h : Tidy s) (hm : HasModes names s)
    (ho : Operand names.length action data) (ha : action ≠ .definekey) :
    Exec.Gives (runAction moves action data s) fun t => Tidy t ∧ SameKeys s t :=
  (runAction_spec hm ho ha).mono fun _ ht => ⟨h.of_same ht.2, ht.2⟩

theorem parseRcLine_tidy (h : Tidy s) (hm : HasModes names s) (line : Text) (errno : Errno) :
    Exec.Gives (parseRcLine L moves line errno s) Tidy := by
  unfold parseRcLine
  rw [hm.modeNames, Exec.ok_bind]
  cases hresult : (parseCommand L names 1).result line errno with
  | none => exact Exec.Gives.ok h
  | some r =>
    obtain ⟨action, params⟩ := r
    dsimp only
    have hindexed := (indexed_command (L := L) hm.two _).of_result hresult
    obtain ⟨hop, hmem⟩ := indexed_store hindexed hm.keybindings
    obtain ⟨howned, hroot⟩ := store_owned hindexed h.bounded h.owned
    have hbound := (store_spec params h.bounded).1
    by_cases ha : action = .definekey
    · subst ha
      obtain ⟨inner, hinner⟩ := hop.1 rfl
      rw [hinner] at howned ⊢
      exact keybindingDefinekey_spec h howned hbound
    · have hnone : (store params s.memory).1.root = none := by
        by_contra hne
        exact ha (hroot hne)
      rw [hnone] at howned
      have hstored : HasModes names { s with memory := (store params s.memory).2 } :=
        ⟨hm.modes, hm.modecursors, hm.two, hm.mode, hm.defaultMode, hmem⟩
      have htidy : Tidy { s with memory := (store params s.memory).2 } :=
        ⟨howned, hbound, h.entries⟩
      exact (runAction_tidy htidy hstored hop ha).mono fun t ht => ht.1

/-! ### Keys -/

/-- Handling the symbol runs no keybinding that defines a key. -/
def SymDefinesNoKey (g : ℕ) (pressed : Bool) (modifiers : UInt32) (st : KeyServer × Bool)
    (sym : UInt32) : Prop :=
  pressed = true → keyIsModifier sym = false → ∀ group, st.1.groups g = some group →
    group.enableKeybindings ≠ 0 → ∀ i k kb, BoundTo st.1 sym modifiers i k kb →
      kb.action ≠ .definekey

/-- The event runs no keybinding that defines a key, and nothing is repeated through
a pointer into an array that has been moved. -/
def DefinesNoKey (moves : ℕ → Bool) (s : KeyServer) : Event → Prop
  | .key g pressed syms modifiers =>
    Exec.Along (handleSym moves g pressed modifiers) (SymDefinesNoKey g pressed modifiers)
      (s, false) syms
  | .repeatTimer g => ∀ group p, s.groups g = some group → group.keyRepeatTimer ≠ 0 →
    group.repeatKeybinding = some p → p.block = s.list.block ∧
      ∀ k kb, Repeats s group p k kb → kb.action ≠ .definekey
  | _ => True

theorem handleCommandKeyBindings_tidy {g : ℕ} {sym modifiers : UInt32} {group : KeyboardGroup}
    (h : Tidy s) (hm : HasModes names s) (hgroup : s.groups g = some group)
    (hok : group.enableKeybindings ≠ 0 → ∀ i k kb, BoundTo s sym modifiers i k kb →
      kb.action ≠ .definekey) :
    Exec.Gives (handleCommandKeyBindings moves g sym modifiers s) fun r =>
      Tidy r.1 ∧ (r.1.groups g).isSome := by
  have hsome : (s.groups g).isSome := by
    rw [hgroup]
    rfl
  obtain ⟨hleave, hsame⟩ := leaveMode_spec hm
  unfold handleCommandKeyBindings
  refine Exec.Gives.nonNull hgroup (Exec.Gives.ite (fun _ => Exec.Gives.ok ⟨h, hsome⟩) ?_)
  intro henabled
  dsimp only
  have hspec : Exec.Gives
      (findKeybinding s.memory.heap s.mode modifiers sym s.list.keybindings) fun found =>
        ∀ i, found = some i → i < s.list.keybindings.length :=
    findKeybinding_spec fun k hk => h.live hk
  obtain ⟨found, hfind, hlt⟩ := hspec
  rw [hfind, Exec.ok_bind]
  cases found with
  | none =>
    refine Exec.Gives.ok ⟨h.of_same hsame, ?_⟩
    rw [hsame.isSome]
    exact hsome
  | some i =>
    have hi := hlt i rfl
    obtain ⟨kb, hkb⟩ := Option.isSome_iff_exists.mp (h.live (List.getElem_mem hi))
    have hk : s.leaveMode.list.keybindings[i]? = some s.list.keybindings[i] := by
      rw [leaveMode_list]
      exact List.getElem?_eq_getElem hi
    have hkb' : (s.leaveMode.armKeyRepeat g group i s.list.keybindings[i]).memory.heap
        s.list.keybindings[i] = some kb := by
      rw [armKeyRepeat_memory, leaveMode_memory]
      exact hkb
    refine Exec.Gives.nonNull hk (Exec.Gives.nonNull hkb' ?_)
    have haction := hok henabled i _ kb ⟨hfind, List.getElem?_eq_getElem hi, hkb⟩
    -- what is repeated is an entry of the list
    have harmed : Tidy (s.leaveMode.armKeyRepeat g group i s.list.keybindings[i]) := by
      unfold armKeyRepeat
      split
      · refine (h.of_same hsame).update_group g _ fun p hp => ?_
        cases hp
        rw [leaveMode_list]
        exact hi
      · exact h.of_same hsame
    have hsome' : ((s.leaveMode.armKeyRepeat g group i s.list.keybindings[i]).groups g).isSome := by
      unfold armKeyRepeat
      split
      · show (Function.update s.leaveMode.groups g _ g).isSome
        rw [Function.update_self]
        rfl
      · rw [leaveMode_groups]
        exact hsome
    refine Exec.Gives.bind (runAction_tidy harmed (hleave.armKeyRepeat g group i _)
      (hm.keybindings _ kb hkb).2 haction) fun t ht => Exec.Gives.ok ⟨ht.1, ?_⟩
    rw [ht.2.isSome]
    exact hsome'

theorem handleSym_tidy {g : ℕ} {pressed : Bool} {modifiers : UInt32} (st : KeyServer × Bool)
    (sym : UInt32) (h : Tidy st.1 ∧ Grown names st.1 ∧ (st.1.groups g).isSome)
    (hok : SymDefinesNoKey g pressed modifiers st sym) :
    Exec.Gives (handleSym moves g pressed modifiers st sym) fun st' =>
      Tidy st'.1 ∧ Grown names st'.1 ∧ (st'.1.groups g).isSome := by
  obtain ⟨htidy, hgrown, hsome⟩ := h
  obtain ⟨more, hm⟩ := id hgrown
  obtain ⟨group, hgroup⟩ := Option.isSome_iff_exists.mp hsome
  have htidy' : Exec.Gives (handleSym moves g pressed modifiers st sym) fun st' =>
      Tidy st'.1 ∧ (st'.1.groups g).isSome := by
    unfold handleSym
    refine Exec.Gives.ite (fun hpress => ?_) fun _ => ?_
    · refine Exec.Gives.bind (handleCommandKeyBindings_tidy htidy hm hgroup ?_) fun r hr =>
        Exec.Gives.ok hr
      exact hok hpress.1 hpress.2 group hgroup
    · refine Exec.Gives.nonNull hgroup (Exec.Gives.ok ?_)
      split
      · refine ⟨htidy.update_group g _ nofun, ?_⟩
        show (Function.update st.1.groups g _ g).isSome
        rw [Function.update_self]
        rfl
      · exact ⟨htidy, hsome⟩
  refine (htidy'.and (handleSym_hasModes st sym hgrown)).mono fun st' hst' => ?_
  exact ⟨hst'.1.1, hst'.2, hst'.1.2⟩

theorem handleKeyboardRepeat_tidy {g : ℕ} {group : KeyboardGroup} (h : Tidy s)
    (hm : HasModes names s) (hgroup : s.groups g = some group)
    (hok : ∀ p, group.repeatKeybinding = some p → p.block = s.list.block ∧
      ∀ k kb, Repeats s group p k kb → kb.action ≠ .definekey) :
    Exec.Gives (handleKeyboardRepeat moves g group s) Tidy := by
  have htimer : ∀ time, Tidy (s.setKeyRepeatTimer g group time) := fun time =>
    h.update_group g _ fun p hp => h.entries g group p hgroup hp
  unfold handleKeyboardRepeat
  cases hp : group.repeatKeybinding with
  | none => exact Exec.Gives.ok (htimer 0)
  | some p =>
    obtain ⟨hblock, haction⟩ := hok p hp
    have hi := h.entries g group p hgroup hp
    obtain ⟨kb, hkb⟩ := Option.isSome_iff_exists.mp (h.live (List.getElem_mem hi))
    dsimp only
    refine Exec.Gives.deref (decide_eq_true hblock) ?_
    refine Exec.Gives.nonNull (List.getElem?_eq_getElem hi) (Exec.Gives.nonNull hkb ?_)
    refine (runAction_tidy (htimer _) (hm.groups _) (hm.keybindings _ kb hkb).2 ?_).mono
      fun t ht => ht.1
    exact haction _ kb ⟨hp, hblock, List.getElem?_eq_getElem hi, hkb⟩

/-! ### Runs -/

theorem initial_tidy (renderer : Bool) : Tidy (initial renderer) := by
  refine ⟨Owned.nil, fun k hk => ?_, fun g group p hg => ?_⟩
  · cases hk
  · cases hg

/-- An event at which no key is defined returns, and leaves a tidy state. -/
theorem step_tidy (h : Tidy s) (hm : HasModes names s) {e : Event} (hok : DefinesNoKey moves s e) :
    Exec.Gives (step L moves s e) Tidy := by
  cases e with
  | line line errno => exact parseRcLine_tidy h hm line errno
  | key g pressed syms modifiers =>
    refine Exec.Gives.ifSome (fun _ => h) fun group hgroup => ?_
    have hsome : (s.groups g).isSome := by
      rw [hgroup]
      rfl
    refine Exec.Gives.bind (P := fun st => Tidy st.1 ∧ Grown names st.1 ∧ (st.1.groups g).isSome)
      ?_ fun st hst => Exec.Gives.ok hst.1
    exact Exec.Gives.along (fun st sym hst hsym => handleSym_tidy st sym hst hsym)
      ⟨h, hm.grown, hsome⟩ hok
  | repeatTimer g =>
    refine Exec.Gives.ifSome (fun _ => h) fun group hgroup => ?_
    refine Exec.Gives.ite (fun htimer => ?_) fun _ => Exec.Gives.ok h
    exact handleKeyboardRepeat_tidy h hm hgroup fun p hp => hok group p hgroup htimer hp
  | newKeyboard identifier rate delay =>
    have hnew := h.update_group s.nextGroup (cgInputManagerConfigureKeyboardGroup s.inputConfig
      ⟨identifier, 1, rate, delay, 0, none, none⟩) fun p hp => by cases hp
    exact Exec.Gives.ok ⟨hnew.owned, hnew.bounded, hnew.entries⟩
  | lastKeyboard g =>
    refine Exec.Gives.ok ⟨h.owned, h.bounded, fun g' group p hg hp => ?_⟩
    have hg : Function.update s.groups g none g' = some group := hg
    by_cases hne : g' = g
    · subst hne
      rw [Function.update_self] at hg
      cases hg
    · rw [Function.update_of_ne hne] at hg
      exact h.entries g' group p hg hp
  | pointers n => exact Exec.Gives.ok (h.of_same (.of_eq rfl rfl rfl))
  | requestSetCursor focused =>
    refine Exec.Gives.ite (fun _ => Exec.Gives.ok h) fun _ => ?_
    obtain ⟨cursor, hcursor⟩ := hm.getElem?_modecursors hm.mode
    refine Exec.Gives.nonNull hcursor (Exec.Gives.ok ?_)
    split
    · exact h.of_same (.of_eq rfl rfl rfl)
    · exact h

theorem steps_tidy (h : Tidy s) (hm : HasModes names s)
    (ht : Exec.Steps (step L moves) (DefinesNoKey moves) s t) : Tidy t ∧ Grown names t := by
  refine ht.invariant (I := fun t => Tidy t ∧ Grown names t) ⟨h, hm.grown⟩
    fun u e hu hok v hv => ?_
  obtain ⟨hu, more, hmu⟩ := hu
  obtain ⟨more', hmv⟩ := step_hasModes hmu e v hv
  exact ⟨(step_tidy hu hmu hok).ensures v hv, more ++ more', by rwa [← List.append_assoc]⟩

/-- The chains of all entries are freed one after the other. -/
theorem keybindingListFree_spec (h : Tidy s) :
    Exec.Gives (keybindingListFree s) fun heap => Owned Keybinding.inner heap [] := by
  obtain ⟨howned, hbound, -⟩ := h
  unfold Memory.Bounded at hbound
  unfold keybindingListFree
  generalize s.memory.heap = heap at howned hbound ⊢
  generalize s.list.keybindings = its at howned ⊢
  induction its generalizing heap with
  | nil => exact Exec.Gives.ok howned
  | cons it its ih =>
    obtain ⟨ks, hc, hnodup, hrest⟩ := howned.release
    have hfuel : ks.length ≤ s.memory.next := length_le_next hbound hc hnodup
    rw [List.foldlM_cons, keybindingFree_spec hc hnodup hfuel, Exec.ok_bind]
    refine ih (without heap ks) (fun k hk => hbound k ?_) hrest
    obtain ⟨kb, hkb⟩ := Option.isSome_iff_exists.mp hk
    rw [(eq_of_without hkb).2]
    rfl

/-- **Ownership.**  As long as no key runs a keybinding that defines a key, every
reference leads to a live keybinding, and each live keybinding has exactly one
owner; no such event reads or frees what has been freed, nor does the end of the
server. -/
theorem keybindings_owned (L : Libraries) (moves : ℕ → Bool) (renderer : Bool) {s : KeyServer}
    (hs : Exec.Steps (step L moves) (DefinesNoKey moves) (initial renderer) s) :
    (∀ o k, Owns Keybinding.inner s.memory.heap s.list.keybindings o k →
      (s.memory.heap k).isSome) ∧
    (∀ k, (s.memory.heap k).isSome →
      ∃! o, Owns Keybinding.inner s.memory.heap s.list.keybindings o k) ∧
    (∀ e, DefinesNoKey moves s e → ∃ t, step L moves s e = .ok t) ∧
    ∃ heap, keybindingListFree s = .ok heap := by
  obtain ⟨htidy, more, hm⟩ := steps_tidy (initial_tidy renderer) (initial_hasModes renderer) hs
  refine ⟨fun o k hk => htidy.owned.live hk, fun k hk => htidy.owned.existsUnique hk, ?_, ?_⟩
  · intro e he
    obtain ⟨t, ht, -⟩ := step_tidy htidy hm he
    exact ⟨t, ht⟩
  · obtain ⟨heap, hheap, -⟩ := keybindingListFree_spec htidy
    exact ⟨heap, hheap⟩

/-- A run in which a key is bound and pressed. -/
theorem exists_pressed :
    ∃ s, Exec.Steps (step letters fun _ => true) (DefinesNoKey fun _ => true) (initial true) s ∧
      s.list.keybindings = [0] ∧ (s.memory.heap 0).isSome := by
  obtain ⟨s, hs, htest⟩ := Exec.exists_of_returns (p := fun s : KeyServer =>
      decide (s.list.keybindings = [0] ∧ (s.memory.heap 0).map (·.action) = some .noop))
    (m := Exec.run (step letters fun _ => true) (initial true)
      [.newKeyboard [] 25 600, .line (ascii "definekey top a abort") .clear]) (by decide +kernel)
  obtain ⟨t, ht, htest'⟩ := Exec.exists_of_returns (p := fun s : KeyServer =>
      decide (s.list.keybindings = [0] ∧ (s.memory.heap 0).isSome))
    (m := Exec.run (step letters fun _ => true) (initial true)
      ([.newKeyboard [] 25 600, .line (ascii "definekey top a abort") .clear] ++
        [.key 0 true [97] 0])) (by decide +kernel)
  obtain ⟨hlist, haction⟩ := of_decide_eq_true htest
  obtain ⟨hlist', hlive⟩ := of_decide_eq_true htest'
  have hbefore : Exec.Steps (step letters fun _ => true) (DefinesNoKey fun _ => true)
      (initial true) s := by
    refine .of_run hs fun e he s => ?_
    rcases List.mem_pair.mp he with rfl | rfl
    · trivial
    · trivial
  have hkey : DefinesNoKey (fun _ => true) s (.key 0 true [97] 0) := by
    refine ⟨?_, fun _ _ => trivial⟩
    intro _ _ group _ _ i k kb hbound
    obtain ⟨-, hk, hkb⟩ := hbound
    have hk := List.mem_of_getElem? hk
    rw [hlist, List.mem_singleton] at hk
    rw [← hk, hkb, Option.map_some, Option.some.injEq] at haction
    rw [haction]
    decide
  exact ⟨t, hbefore.tail hkey (Exec.step_of_run hs ht), hlist', hlive⟩

/-- The keybinding is owned by the array. -/
theorem keybindings_owned_pressed :
    ∃ s, Exec.Steps (step letters fun _ => true) (DefinesNoKey fun _ => true) (initial true) s ∧
      s.list.keybindings = [0] ∧
      ∃! o, Owns Keybinding.inner s.memory.heap s.list.keybindings o 0 := by
  obtain ⟨s, hs, hlist, hlive⟩ := exists_pressed
  exact ⟨s, hs, hlist, (keybindings_owned letters _ true hs).2.1 0 hlive⟩

/-- A keybinding that defines a key is pressed: the one it defines is in the array,
and still its own. -/
theorem keybindings_owned_twice :
    ¬∀ (L : Libraries) (moves : ℕ → Bool) (renderer : Bool) (s : KeyServer),
      Exec.Steps (step L moves) (fun _ _ => True) (initial renderer) s →
      (∀ o k, Owns Keybinding.inner s.memory.heap s.list.keybindings o k →
        (s.memory.heap k).isSome) ∧
      ∀ k, (s.memory.heap k).isSome →
        ∃! o, Owns Keybinding.inner s.memory.heap s.list.keybindings o k := by
  intro h
  obtain ⟨s, hs, htest⟩ := Exec.exists_of_returns (p := fun s : KeyServer =>
      decide (s.list.keybindings = [1, 0] ∧ (s.memory.heap 1).bind Keybinding.inner = some 0))
    (m := Exec.run (step letters fun _ => true) (initial true)
      [.newKeyboard [] 25 600, .line (ascii "definekey top a definekey top b abort") .clear,
        .key 0 true [97] 0]) (by decide +kernel)
  obtain ⟨hlist, hinner⟩ := of_decide_eq_true htest
  obtain ⟨hlive, hunique⟩ := h letters _ true s (.of_run hs fun _ _ _ => trivial)
  have hroot : Owns Keybinding.inner s.memory.heap s.list.keybindings (.root 1) 0 := by
    show s.list.keybindings[1]? = some 0
    rw [hlist]
    rfl
  have hobject : Owns Keybinding.inner s.memory.heap s.list.keybindings (.object 1) 0 := hinner
  have heq := (hunique 0 (hlive _ 0 hroot)).unique hroot hobject
  cases heq

end KeyServer

end Cagebreak
