/-
Modes over whole runs.

* `ReturnsToDefault` — after a press the seat is in its default mode, unless the
  press has run the action `mode`: `returnsToDefault`;
* `modes_indexed` — as long as no key runs a keybinding that defines a key, every
  entry of the array is a keybinding whose mode and operand are modes.
-/
import Cagebreak.KeyOwners

namespace Cagebreak

namespace KeyServer

open Parse Ownership

variable {L : Libraries} {moves : ℕ → Bool} {s t : KeyServer} {names : List Text} {g : ℕ}
  {action : KeybindingAction}

/-! ### The mode after a press -/

/-- An action other than `mode` does not set the mode without the default mode. -/
theorem runAction_mode {data : KeyData} (ha : action ≠ .switchMode)
    (hs : s.mode = s.defaultMode) :
    Exec.Ensures (runAction moves action data s) fun t => t.mode = t.defaultMode := by
  unfold runAction
  split
  · intro t ht
    obtain ⟨u, hu, ht⟩ := Exec.bind_eq_ok.mp ht
    obtain ⟨_, -, ht⟩ := Exec.bind_eq_ok.mp ht
    cases ht
    obtain ⟨kb, -, ⟨-, rfl⟩ | ⟨i, found, ks, -, -, -, rfl⟩⟩ := keybindingListPush_cases hu
    · exact hs
    · exact hs
  · exact absurd rfl ha
  · exact Exec.Ensures.bind_any fun _ _ => Exec.Ensures.bind_any fun _ _ => Exec.Ensures.ok rfl
  · exact Exec.Ensures.bind_any fun _ _ => Exec.Ensures.ok hs
  · exact Exec.Ensures.bind_any fun _ _ => Exec.Ensures.ok hs
  · refine Exec.Ensures.ok ?_
    unfold setCursor
    split
    · exact hs
    · exact hs
  · exact Exec.Ensures.ok hs
  · exact Exec.Ensures.ok hs

theorem handleCommandKeyBindings_mode {sym modifiers : UInt32} {handled : Bool}
    {group : KeyboardGroup} (hgroup : s.groups g = some group)
    (henabled : group.enableKeybindings ≠ 0)
    (h : handleCommandKeyBindings moves g sym modifiers s = .ok (t, handled)) :
    t.mode = t.defaultMode ∨ ∃ i k kb, BoundTo s sym modifiers i k kb ∧
      kb.action = .switchMode := by
  obtain ⟨group', hgroup', ⟨hdisabled, -⟩ | ⟨-, rfl⟩ | ⟨i, k, kb, -, hbound, ht⟩⟩ :=
    handleCommandKeyBindings_cases h
  · rw [hgroup] at hgroup'
    cases hgroup'
    exact absurd hdisabled henabled
  · exact .inl leaveMode_mode
  · by_cases ha : kb.action = .switchMode
    · exact .inr ⟨i, k, kb, hbound, ha⟩
    · refine .inl (runAction_mode ha ?_ t ht)
      rw [armKeyRepeat_mode, armKeyRepeat_defaultMode]
      exact leaveMode_mode

/-- Symbols of modifiers change no mode. -/
theorem foldlM_modifiers {pressed : Bool} {modifiers : UInt32} {syms : List UInt32}
    {st st' : KeyServer × Bool} (hsyms : ∀ sym ∈ syms, keyIsModifier sym = true)
    (h : syms.foldlM (handleSym moves g pressed modifiers) st = .ok st') :
    st'.1.mode = st.1.mode ∧ st'.1.defaultMode = st.1.defaultMode := by
  refine Exec.Ensures.foldlM (I := fun u => u.1.mode = st.1.mode ∧
    u.1.defaultMode = st.1.defaultMode) (fun u sym hsym hu u' hu' => ?_) ⟨rfl, rfl⟩ st' h
  obtain ⟨-, hmodifier, -⟩ | rfl | ⟨group, -, hdisarm⟩ := handleSym_cases hu'
  · rw [hsyms sym hsym] at hmodifier
    cases hmodifier
  · exact hu
  · rw [hdisarm]
    exact hu

/-- After a press whose last symbol other than a modifier is `sym`, handled with the
keybindings of the group enabled, the seat is in the default mode, unless `sym` has
run `mode`. -/
def ReturnsToDefault (L : Libraries) (moves : ℕ → Bool) (s : KeyServer) : Prop :=
  ∀ g before sym after modifiers t, keyIsModifier sym = false →
    (∀ a ∈ after, keyIsModifier a = true) → (s.groups g).isSome →
    step L moves s (.key g true (before ++ sym :: after) modifiers) = .ok t →
    ∃ u handled, before.foldlM (handleSym moves g true modifiers) (s, false) = .ok (u, handled) ∧
      ∀ group, u.groups g = some group → group.enableKeybindings ≠ 0 →
        t.mode = t.defaultMode ∨ ∃ i k kb, BoundTo u sym modifiers i k kb ∧
          kb.action = .switchMode

theorem returnsToDefault (L : Libraries) (moves : ℕ → Bool) (s : KeyServer) :
    ReturnsToDefault L moves s := by
  intro g before sym after modifiers t hsym hafter hsome ht
  obtain ⟨group, hgroup⟩ := Option.isSome_iff_exists.mp hsome
  rw [step, hgroup, Exec.ifSome_some, handleKeyEvent, List.foldlM_append] at ht
  obtain ⟨st, hst, ht⟩ := Exec.bind_eq_ok.mp ht
  obtain ⟨u, hu, hst⟩ := Exec.bind_eq_ok.mp hst
  cases ht
  refine ⟨u.1, u.2, hu, fun group' hgroup' henabled => ?_⟩
  rw [List.foldlM_cons] at hst
  obtain ⟨v, hv, hst⟩ := Exec.bind_eq_ok.mp hst
  obtain ⟨hmode, hdefault⟩ := foldlM_modifiers hafter hst
  show st.1.mode = st.1.defaultMode ∨ _
  rw [hmode, hdefault]
  unfold handleSym at hv
  rw [if_pos ⟨rfl, hsym⟩] at hv
  obtain ⟨r, hr, hv⟩ := Exec.bind_eq_ok.mp hv
  cases hv
  exact handleCommandKeyBindings_mode hgroup' henabled hr

/-! ### Runs -/

/-- A name keeps its index when others are added. -/
theorem getElem?_append_of_some {i : ℕ} {mode : Text} {others : List (Option Text)}
    (h : (names.map some ++ [none])[i]? = some (some mode)) :
    (names.map some ++ others)[i]? = some (some mode) := by
  by_cases hi : i < (names.map some).length
  · rw [List.getElem?_append_left hi] at h
    rw [List.getElem?_append_left hi, h]
  · rw [List.getElem?_append_right (Nat.le_of_not_lt hi)] at h
    have hmem := List.mem_of_getElem? h
    rw [List.mem_singleton] at hmem
    cases hmem

/-- **Modes.**  As long as no key runs a keybinding that defines a key, the arrays
of modes end with `NULL` and have the same length, modes keep their indices, and
the modes of the seat, of every entry and every operand are modes; presses return
to the default mode. -/
theorem modes_indexed (L : Libraries) (moves : ℕ → Bool) (renderer : Bool) {s t : KeyServer}
    (hs : Exec.Steps (step L moves) (DefinesNoKey moves) (initial renderer) s)
    (ht : Exec.Steps (step L moves) (DefinesNoKey moves) s t) :
    ∃ names : List Text, t.modes = names.map some ++ [none] ∧
      t.modecursors.length = t.modes.length ∧
      (∀ (i : ℕ) (mode : Text), s.modes[i]? = some (some mode) →
        t.modes[i]? = some (some mode)) ∧
      t.mode.toNat < names.length ∧ t.defaultMode.toNat < names.length ∧
      (∀ k ∈ t.list.keybindings, ∃ kb, t.memory.heap k = some kb) ∧
      (∀ k kb, t.memory.heap k = some kb → kb.mode.toNat < names.length ∧
        Operand names.length kb.action kb.data) ∧
      ReturnsToDefault L moves t := by
  obtain ⟨htidy, more, hm⟩ := steps_tidy (initial_tidy renderer) (initial_hasModes renderer) hs
  obtain ⟨htidy', more', hm'⟩ := steps_tidy htidy hm ht
  refine ⟨_, hm'.modes, hm'.modecursors, fun i mode hi => ?_, hm'.mode, hm'.defaultMode,
    fun k hk => ?_, hm'.keybindings, returnsToDefault L moves t⟩
  · rw [hm.modes] at hi
    rw [hm'.modes, List.map_append, List.append_assoc]
    exact getElem?_append_of_some hi
  · exact Option.isSome_iff_exists.mp (htidy'.live hk)

/-- After a press the server still has the modes it began with. -/
theorem modes_indexed_pressed :
    ∃ s, Exec.Steps (step letters fun _ => true) (DefinesNoKey fun _ => true) (initial true) s ∧
      (∃ kb, s.memory.heap 0 = some kb) ∧ s.modes[1]? = some (some (ascii "root")) := by
  obtain ⟨s, hs, hlist, -⟩ := exists_pressed
  obtain ⟨names, -, -, hkeep, -, -, hentries, -⟩ := modes_indexed letters _ true .refl hs
  refine ⟨s, hs, hentries 0 ?_, hkeep 1 (ascii "root") rfl⟩
  rw [hlist]
  exact List.mem_singleton_self 0

/-- A keybinding is bound again that has defined a key: the keybinding it has
defined is freed, and still in the array. -/
theorem modes_indexed_freed :
    ¬∀ (L : Libraries) (moves : ℕ → Bool) (renderer : Bool) (s : KeyServer),
      Exec.Steps (step L moves) (fun _ _ => True) (initial renderer) s →
      ∀ k ∈ s.list.keybindings, ∃ kb names, s.memory.heap k = some kb ∧
        modeNames s.modes = .ok names ∧ kb.mode.toNat < names.length := by
  intro h
  obtain ⟨s, hs, htest⟩ := Exec.exists_of_returns (p := fun s : KeyServer =>
      decide (s.list.keybindings = [2, 0] ∧ (s.memory.heap 0).isNone))
    (m := Exec.run (step letters fun _ => true) (initial true)
      [.newKeyboard [] 25 600, .line (ascii "definekey top a definekey top b abort") .clear,
        .key 0 true [97] 0, .line (ascii "definekey top a abort") .clear]) (by decide +kernel)
  obtain ⟨hlist, hfreed⟩ := of_decide_eq_true htest
  obtain ⟨kb, -, hkb, -⟩ := h letters _ true s (.of_run hs fun _ _ _ => trivial) 0 (by
    rw [hlist]
    decide)
  rw [hkb] at hfreed
  cases hfreed

end KeyServer

end Cagebreak
