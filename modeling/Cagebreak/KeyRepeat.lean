/-
Keys that repeat.

A group repeats a keybinding through a pointer to the entry that it has found the
keybinding in.  When the array grows, `realloc` may move it; when an entry is
replaced, the keybinding in it is freed.  Neither is told to the group.

* `PushKeeps` — neither happens to an entry that is being repeated;
* `repeats_armed` — as long as every push is like that, a group repeats the
  keybinding that has armed it.
-/
import Cagebreak.KeyModes

namespace Cagebreak

namespace KeyServer

open Parse Ownership

variable {L : Libraries} {moves : ℕ → Bool} {s t : KeyServer} {names : List Text} {g k : ℕ}
  {group : KeyboardGroup} {action : KeybindingAction}

/-- A keybinding that a group repeats. -/
def Watched (s : KeyServer) (k : ℕ) : Prop :=
  ∃ g group, s.groups g = some group ∧ group.repeatKeybinding ≠ none ∧ group.armedBy = some k

/-- To push the keybinding `c`, a full array is not moved, and no keybinding that a
group repeats is freed. -/
def PushKeeps (moves : ℕ → Bool) (c : ℕ) (s : KeyServer) : Prop :=
  ∀ w, s.Watched w → (s.list.Full → moves (s.list.capacity * 2) = false) ∧
    ∀ kb i found ks, s.memory.heap c = some kb →
      findKeybinding s.memory.heap kb.mode kb.modifiers kb.key s.list.keybindings =
        .ok (some i) →
      s.list.keybindings[i]? = some found → IsChain Keybinding.inner s.memory.heap found ks →
      w ∉ ks

/-- The same of a symbol that is handled, for a keybinding that defines a key and
may begin to repeat. -/
def SymKeeps (moves : ℕ → Bool) (g : ℕ) (pressed : Bool) (modifiers : UInt32)
    (st : KeyServer × Bool) (sym : UInt32) : Prop :=
  pressed = true → keyIsModifier sym = false → ∀ group, st.1.groups g = some group →
    group.enableKeybindings ≠ 0 → ∀ i k kb c, BoundTo st.1 sym modifiers i k kb →
      kb.inner = some c → PushKeeps moves c (st.1.leaveMode.armKeyRepeat g group i k)

/-- The same of an event. -/
def Keeps (L : Libraries) (moves : ℕ → Bool) (s : KeyServer) : Event → Prop
  | .line line errno => ∀ names params k, modeNames s.modes = .ok names →
    (parseCommand L names 1).result line errno = some (.definekey, params) →
    (store params s.memory).1 = .kb k →
    PushKeeps moves k { s with memory := (store params s.memory).2 }
  | .key g pressed syms modifiers =>
    Exec.Along (handleSym moves g pressed modifiers) (SymKeeps moves g pressed modifiers)
      (s, false) syms
  | .repeatTimer g => ∀ group p k kb c, s.groups g = some group → group.keyRepeatTimer ≠ 0 →
    Repeats s group p k kb → kb.inner = some c → PushKeeps moves c s
  | _ => True

/-! ### Groups that repeat -/

/-- A group repeats what has armed it. -/
structure Armed (s : KeyServer) : Prop where
  bounded : s.memory.Bounded
  pointers : ∀ g group p, s.groups g = some group → group.repeatKeybinding = some p →
    p.block = s.list.block ∧ ∃ k, group.armedBy = some k ∧
      s.list.keybindings[p.index]? = some k ∧ (s.memory.heap k).isSome

theorem Armed.of_same (h : Armed s) (hs : SameKeys s t) : Armed t := by
  refine ⟨?_, fun g group p hg hp => ?_⟩
  · rw [hs.memory]
    exact h.bounded
  · obtain ⟨group', hg', hr, ha⟩ := hs.group hg
    rw [hs.list, hs.memory, ← ha]
    exact h.pointers g group' p hg' (hr.trans hp)

theorem Watched.of_same (hs : SameKeys s t) (hk : t.Watched k) : s.Watched k := by
  obtain ⟨g, group, hg, hr, ha⟩ := hk
  obtain ⟨group', hg', hr', ha'⟩ := hs.group hg
  exact ⟨g, group', hg', hr' ▸ hr, ha'.trans ha⟩

theorem PushKeeps.of_same {c : ℕ} (h : PushKeeps moves c s) (hs : SameKeys s t) :
    PushKeeps moves c t := by
  intro w hw
  rw [hs.list, hs.memory]
  exact h w (hw.of_same hs)

/-- A push that spares what is repeated. -/
theorem keybindingListPush_armed (h : Armed s) (hok : PushKeeps moves k s) :
    Exec.Ensures (keybindingListPush moves k s) Armed := by
  intro t ht
  have hpointer : ∀ g group p, s.groups g = some group → group.repeatKeybinding = some p →
      p.block = (keybindingResize moves s.list).block ∧ ∃ w, s.Watched w ∧
        group.armedBy = some w ∧ s.list.keybindings[p.index]? = some w ∧
        (s.memory.heap w).isSome := by
    intro g group p hg hp
    obtain ⟨hblock, w, hw, hentry, hlive⟩ := h.pointers g group p hg hp
    have hwatched : s.Watched w := ⟨g, group, hg, by rw [hp]; nofun, hw⟩
    exact ⟨hblock.trans (block_keybindingResize (hok w hwatched).1).symm, w, hwatched, hw, hentry,
      hlive⟩
  obtain ⟨kb, hkb, ⟨-, rfl⟩ | ⟨i, found, ks, hfind, hfound, hc, rfl⟩⟩ :=
    keybindingListPush_cases ht
  · refine ⟨h.bounded, fun g group p hg hp => ?_⟩
    obtain ⟨hblock, w, -, hw, hentry, hlive⟩ := hpointer g group p hg hp
    refine ⟨hblock, w, hw, ?_, hlive⟩
    obtain ⟨hi, -⟩ := List.getElem?_eq_some_iff.mp hentry
    exact (List.getElem?_append_left hi).trans hentry
  · refine ⟨h.bounded.without ks, fun g group p hg hp => ?_⟩
    obtain ⟨hblock, w, hwatched, hw, hentry, hlive⟩ := hpointer g group p hg hp
    have hspared := (hok w hwatched).2 kb i found ks hkb hfind hfound hc
    refine ⟨hblock, w, hw, ?_, ?_⟩
    · -- the entry that is replaced is another one
      have hne : i ≠ p.index := by
        rintro rfl
        rw [hfound] at hentry
        cases hentry
        exact hspared hc.head_mem
      exact (List.getElem?_set_ne hne).trans hentry
    · show (without s.memory.heap ks w).isSome
      rw [without_of_notMem hspared]
      exact hlive

theorem runAction_armed {data : KeyData} (h : Armed s) (hm : HasModes names s)
    (ho : Operand names.length action data)
    (hok : ∀ c, action = .definekey → data = .kb c → PushKeeps moves c s) :
    Exec.Ensures (runAction moves action data s) Armed := by
  by_cases ha : action = .definekey
  · subst ha
    obtain ⟨c, rfl⟩ := ho.1 rfl
    refine Exec.Ensures.bind (keybindingListPush_armed h (hok c rfl rfl)) fun t ht => ?_
    exact Exec.Ensures.nonNull fun kb _ => Exec.Ensures.ok ht
  · exact (runAction_spec hm ho ha).ensures.mono fun t ht => h.of_same ht.2

/-- What the data of a keybinding refer to, when it defines a key. -/
theorem inner_eq_some {kb : Keybinding} {c : ℕ} (ha : kb.action = .definekey)
    (hd : kb.data = .kb c) : kb.inner = some c := by
  rw [Keybinding.inner, ha, hd]

theorem parseRcLine_armed (h : Armed s) (hm : HasModes names s) {line : Text} {errno : Errno}
    (hok : Keeps L moves s (.line line errno)) :
    Exec.Ensures (parseRcLine L moves line errno s) Armed := by
  intro t ht
  obtain rfl | ⟨names', action, params, hnames, hresult, ht⟩ := parseRcLine_cases ht
  · exact h
  · have hok' := hok names' params
    rw [hm.modeNames] at hnames
    cases hnames
    have hindexed := (indexed_command (L := L) hm.two _).of_result hresult
    obtain ⟨hop, hmem⟩ := indexed_store hindexed hm.keybindings
    obtain ⟨hbound, hkeep⟩ := store_spec params h.bounded
    have hstored : HasModes names { s with memory := (store params s.memory).2 } :=
      ⟨hm.modes, hm.modecursors, hm.two, hm.mode, hm.defaultMode, hmem⟩
    have harmed : Armed { s with memory := (store params s.memory).2 } := by
      refine ⟨hbound, fun g group p hg hp => ?_⟩
      obtain ⟨hblock, w, hw, hentry, hlive⟩ := h.pointers g group p hg hp
      obtain ⟨kb, hkb⟩ := Option.isSome_iff_exists.mp hlive
      refine ⟨hblock, w, hw, hentry, ?_⟩
      show ((store params s.memory).2.heap w).isSome
      rw [hkeep w kb hkb]
      rfl
    refine runAction_armed harmed hstored hop (fun c ha hd => ?_) t ht
    subst ha
    exact hok' c hm.modeNames hresult hd

/-- A group that is armed points to the keybinding it has found. -/
theorem Armed.armKeyRepeat (h : Armed s) {i : ℕ} (hk : s.list.keybindings[i]? = some k)
    (hlive : (s.memory.heap k).isSome) : Armed (s.armKeyRepeat g group i k) := by
  unfold KeyServer.armKeyRepeat
  split
  · refine ⟨h.bounded, fun g' group' p hg hp => ?_⟩
    have hg : Function.update s.groups g _ g' = some group' := hg
    by_cases hne : g' = g
    · subst hne
      rw [Function.update_self] at hg
      cases hg
      cases hp
      exact ⟨rfl, k, rfl, hk, hlive⟩
    · rw [Function.update_of_ne hne] at hg
      exact h.pointers g' group' p hg hp
  · exact h

/-- A group that repeats what it has repeated, or nothing. -/
theorem Armed.update_group (h : Armed s) {group' : KeyboardGroup} (hg : s.groups g = some group)
    (hr : group'.repeatKeybinding = none ∨ group'.repeated = group.repeated) :
    Armed { s with groups := Function.update s.groups g (some group') } := by
  refine ⟨h.bounded, fun g1 group1 p hg1 hp => ?_⟩
  have hg1 : Function.update s.groups g (some group') g1 = some group1 := hg1
  by_cases hne : g1 = g
  · subst hne
    rw [Function.update_self] at hg1
    cases hg1
    rcases hr with hr | hr
    · rw [hr] at hp
      cases hp
    · obtain ⟨hr, ha⟩ := Prod.mk.inj hr
      rw [ha]
      exact h.pointers g1 group p hg (hr.symm.trans hp)
  · rw [Function.update_of_ne hne] at hg1
    exact h.pointers g1 group1 p hg1 hp

theorem handleSym_armed {pressed : Bool} {modifiers : UInt32} (st : KeyServer × Bool)
    (sym : UInt32) (h : Armed st.1 ∧ Grown names st.1)
    (hok : SymKeeps moves g pressed modifiers st sym) :
    Exec.Ensures (handleSym moves g pressed modifiers st sym) fun st' =>
      Armed st'.1 ∧ Grown names st'.1 := by
  obtain ⟨harmed, hgrown⟩ := h
  obtain ⟨more, hm⟩ := id hgrown
  refine Exec.Ensures.and ?_ (handleSym_hasModes st sym hgrown)
  intro st' hst'
  obtain ⟨hpressed, hsym, handled, hcommand⟩ | rfl | ⟨group, hgroup, hdisarm⟩ :=
    handleSym_cases hst'
  · obtain ⟨hleave, hsame⟩ := leaveMode_spec hm
    obtain ⟨group, hgroup, ⟨-, ht⟩ | ⟨-, ht⟩ | ⟨i, k, kb, henabled, hbound, ht⟩⟩ :=
      handleCommandKeyBindings_cases hcommand
    · rw [ht]
      exact harmed
    · rw [ht]
      exact harmed.of_same hsame
    · obtain ⟨-, hk, hkb⟩ := id hbound
      have harmed' : Armed (st.1.leaveMode.armKeyRepeat g group i k) := by
        refine (harmed.of_same hsame).armKeyRepeat ?_ ?_
        · rw [leaveMode_list]
          exact hk
        · rw [leaveMode_memory, hkb]
          rfl
      refine runAction_armed harmed' (hleave.armKeyRepeat g group i k)
        (hm.keybindings k kb hkb).2 (fun c ha hd => ?_) _ ht
      exact hok hpressed hsym group hgroup henabled i k kb c hbound (inner_eq_some ha hd)
  · exact harmed
  · rw [hdisarm]
    exact harmed.update_group hgroup (.inl rfl)

theorem handleKeyboardRepeat_armed (h : Armed s) (hm : HasModes names s)
    (hgroup : s.groups g = some group)
    (hok : ∀ p k kb c, Repeats s group p k kb → kb.inner = some c → PushKeeps moves c s) :
    Exec.Ensures (handleKeyboardRepeat moves g group s) Armed := by
  intro t ht
  have htimer : ∀ time, Armed (s.setKeyRepeatTimer g group time) := fun time =>
    h.update_group hgroup (.inr rfl)
  have hsame : ∀ time, SameKeys s (s.setKeyRepeatTimer g group time) := by
    intro time
    refine ⟨rfl, rfl, fun g' => ?_⟩
    show (Function.update s.groups g _ g').map _ = _
    by_cases hne : g' = g
    · subst hne
      rw [Function.update_self, hgroup]
      rfl
    · rw [Function.update_of_ne hne]
  obtain ⟨time, rfl | ⟨p, k, kb, hrepeats, ht⟩⟩ := handleKeyboardRepeat_cases ht
  · exact htimer time
  · obtain ⟨-, -, -, hkb⟩ := id hrepeats
    refine runAction_armed (htimer time) (hm.groups _) (hm.keybindings k kb hkb).2
      (fun c ha hd => ?_) t ht
    exact (hok p k kb c hrepeats (inner_eq_some ha hd)).of_same (hsame time)

/-! ### Runs -/

theorem initial_armed (renderer : Bool) : Armed (initial renderer) := by
  refine ⟨fun k hk => ?_, fun g group p hg => ?_⟩
  · cases hk
  · cases hg

theorem step_armed (h : Armed s) (hm : HasModes names s) {e : Event} (hok : Keeps L moves s e) :
    Exec.Ensures (step L moves s e) Armed := by
  cases e with
  | line line errno => exact parseRcLine_armed h hm hok
  | key g pressed syms modifiers =>
    refine Exec.Ensures.ifSome (fun _ => h) fun _ _ => ?_
    refine Exec.Ensures.bind (P := fun st => Armed st.1 ∧ Grown names st.1) ?_ fun st hst =>
      Exec.Ensures.ok hst.1
    exact Exec.Ensures.along (fun st sym hst hsym => handleSym_armed st sym hst hsym)
      ⟨h, hm.grown⟩ hok
  | repeatTimer g =>
    refine Exec.Ensures.ifSome (fun _ => h) fun group hgroup => ?_
    refine Exec.Ensures.ite (fun htimer => ?_) fun _ => Exec.Ensures.ok h
    exact handleKeyboardRepeat_armed h hm hgroup fun p k kb c => hok group p k kb c hgroup htimer
  | newKeyboard identifier rate delay =>
    refine Exec.Ensures.ok ⟨h.bounded, fun g group p hg hp => ?_⟩
    have hg : Function.update s.groups s.nextGroup _ g = some group := hg
    by_cases hne : g = s.nextGroup
    · subst hne
      rw [Function.update_self] at hg
      cases hg
      cases hp
    · rw [Function.update_of_ne hne] at hg
      exact h.pointers g group p hg hp
  | lastKeyboard g =>
    refine Exec.Ensures.ok ⟨h.bounded, fun g' group p hg hp => ?_⟩
    have hg : Function.update s.groups g none g' = some group := hg
    by_cases hne : g' = g
    · subst hne
      rw [Function.update_self] at hg
      cases hg
    · rw [Function.update_of_ne hne] at hg
      exact h.pointers g' group p hg hp
  | pointers n => exact Exec.Ensures.ok (h.of_same (.of_eq rfl rfl rfl))
  | requestSetCursor focused =>
    refine Exec.Ensures.ite (fun _ => Exec.Ensures.ok h) fun _ => ?_
    refine Exec.Ensures.nonNull fun cursor _ => Exec.Ensures.ok ?_
    split
    · exact h.of_same (.of_eq rfl rfl rfl)
    · exact h

/-- **Key repetition.**  As long as no push has the array moved, or frees a
keybinding, while a group repeats it, the pointer of every group that repeats is
one into the array, at the keybinding that has armed the group. -/
theorem repeats_armed (L : Libraries) (moves : ℕ → Bool) (renderer : Bool) {s : KeyServer}
    (hs : Exec.Steps (step L moves) (Keeps L moves) (initial renderer) s) :
    ∀ g group p, s.groups g = some group → group.repeatKeybinding = some p →
      p.block = s.list.block ∧ ∃ k kb, group.armedBy = some k ∧
        s.list.keybindings[p.index]? = some k ∧ s.memory.heap k = some kb := by
  have hinv : Armed s ∧ Grown [ascii "top", ascii "root", ascii "resize"] s := by
    refine hs.invariant
      (I := fun t => Armed t ∧ Grown [ascii "top", ascii "root", ascii "resize"] t)
      ⟨initial_armed renderer, (initial_hasModes renderer).grown⟩ fun t e ht hok u hu => ?_
    obtain ⟨harmed, more, hm⟩ := ht
    obtain ⟨more', hu'⟩ := step_hasModes hm e u hu
    exact ⟨step_armed harmed hm hok u hu, more ++ more', by rwa [← List.append_assoc]⟩
  intro g group p hg hp
  obtain ⟨hblock, k, hk, hentry, hlive⟩ := hinv.1.pointers g group p hg hp
  obtain ⟨kb, hkb⟩ := Option.isSome_iff_exists.mp hlive
  exact ⟨hblock, k, kb, hk, hentry, hkb⟩

/-- A key that is bound, pressed and held. -/
theorem repeats_armed_held :
    ∃ s group, Exec.Steps (step letters fun _ => true) (Keeps letters fun _ => true)
        (initial true) s ∧
      s.groups 0 = some group ∧ group.repeatKeybinding = some ⟨0, 0⟩ ∧
      ∃ k kb, group.armedBy = some k ∧ s.list.keybindings[0]? = some k ∧
        s.memory.heap k = some kb := by
  obtain ⟨s, hs, -⟩ := Exec.exists_of_returns (p := fun _ => true)
    (m := Exec.run (step letters fun _ => true) (initial true)
      [.line (ascii "definekey top a abort") .clear]) (by decide +kernel)
  obtain ⟨t, ht, htest⟩ := Exec.exists_of_returns (p := fun s : KeyServer =>
      decide (s.list.keybindings = [0] ∧ (s.memory.heap 0).map (·.action) = some .noop))
    (m := Exec.run (step letters fun _ => true) (initial true)
      ([.line (ascii "definekey top a abort") .clear] ++ [.newKeyboard [] 25 600]))
    (by decide +kernel)
  obtain ⟨u, hu, htest'⟩ := Exec.exists_of_returns (p := fun s : KeyServer =>
      decide ((s.groups 0).map (·.repeatKeybinding) = some (some ⟨0, 0⟩)))
    (m := Exec.run (step letters fun _ => true) (initial true)
      (([.line (ascii "definekey top a abort") .clear] ++ [.newKeyboard [] 25 600]) ++
        [.key 0 true [97] 0])) (by decide +kernel)
  obtain ⟨hlist, haction⟩ := of_decide_eq_true htest
  have hline : Keeps letters (fun _ => true) (initial true)
      (.line (ascii "definekey top a abort") .clear) := by
    rintro names params k - - - w ⟨g, group, hg, -⟩
    cases hg
  have hkey : Keeps letters (fun _ => true) t (.key 0 true [97] 0) := by
    refine ⟨?_, fun _ _ => trivial⟩
    intro _ _ group _ _ i k kb c hbound hinner
    obtain ⟨-, hk, hkb⟩ := hbound
    have hk := List.mem_of_getElem? hk
    rw [hlist, List.mem_singleton] at hk
    rw [← hk, hkb, Option.map_some, Option.some.injEq] at haction
    rw [Keybinding.inner, haction] at hinner
    cases hinner
  have hrun : Exec.Steps (step letters fun _ => true) (Keeps letters fun _ => true)
      (initial true) u := by
    have hbegin : Exec.run (step letters fun _ => true) (initial true) [] = .ok (initial true) :=
      rfl
    have hnew : Keeps letters (fun _ => true) s (.newKeyboard [] 25 600) := trivial
    exact .tail (.tail (.tail .refl hline (Exec.step_of_run hbegin hs)) hnew
      (Exec.step_of_run hs ht)) hkey (Exec.step_of_run ht hu)
  obtain ⟨group, hgroup, hpointer⟩ := Option.map_eq_some_iff.mp (of_decide_eq_true htest')
  exact ⟨u, group, hrun, hgroup, hpointer,
    (repeats_armed letters _ true hrun 0 group ⟨0, 0⟩ hgroup hpointer).2⟩

/-- A key is held while another one is bound, and the array is moved. -/
theorem repeats_armed_moved :
    ¬∀ (L : Libraries) (moves : ℕ → Bool) (renderer : Bool) (s : KeyServer),
      Exec.Steps (step L moves) (fun _ _ => True) (initial renderer) s →
      ∀ g group p, s.groups g = some group → group.repeatKeybinding = some p →
        p.block = s.list.block ∧ ∃ k kb, group.armedBy = some k ∧
          s.list.keybindings[p.index]? = some k ∧ s.memory.heap k = some kb := by
  intro h
  obtain ⟨s, hs, htest⟩ := Exec.exists_of_returns (p := fun s : KeyServer =>
      decide ((s.groups 0).map (·.repeatKeybinding) = some (some ⟨0, 0⟩) ∧ s.list.block = 1))
    (m := Exec.run (step letters fun _ => true) (initial true)
      [.newKeyboard [] 25 600, .line (ascii "definekey top a abort") .clear, .key 0 true [97] 0,
        .line (ascii "definekey top b abort") .clear]) (by decide +kernel)
  obtain ⟨hgroup, hblock⟩ := of_decide_eq_true htest
  obtain ⟨group, hgroup, hpointer⟩ := Option.map_eq_some_iff.mp hgroup
  have heq := (h letters _ true s (.of_run hs fun _ _ _ => trivial) 0 group ⟨0, 0⟩ hgroup
    hpointer).1
  rw [hblock] at heq
  cases heq

end KeyServer

end Cagebreak
