/-
What lines, keys and timers do: each of them runs at most one action.

* `parseRcLine_cases`, `handleCommandKeyBindings_cases`,
  `handleKeyboardRepeat_cases` — the action that is run, and the state it is run
  in.
-/
import Cagebreak.KeyMemory

namespace Cagebreak

namespace KeyServer

open Parse

variable {L : Libraries} {moves : ℕ → Bool} {s t : KeyServer} {g i k : ℕ} {group : KeyboardGroup}

/-! ### The state that an action is run in -/

@[simp] theorem leaveMode_memory : s.leaveMode.memory = s.memory := by
  unfold leaveMode
  split
  · rfl
  · rfl

@[simp] theorem leaveMode_list : s.leaveMode.list = s.list := by
  unfold leaveMode
  split
  · rfl
  · rfl

@[simp] theorem leaveMode_groups : s.leaveMode.groups = s.groups := by
  unfold leaveMode
  split
  · rfl
  · rfl

/-- The mode is the default mode after the return to it. -/
theorem leaveMode_mode : s.leaveMode.mode = s.leaveMode.defaultMode := by
  unfold leaveMode
  split
  · rfl
  · next h => exact not_not.mp h

@[simp] theorem armKeyRepeat_memory : (s.armKeyRepeat g group i k).memory = s.memory := by
  unfold armKeyRepeat
  split
  · rfl
  · rfl

@[simp] theorem armKeyRepeat_list : (s.armKeyRepeat g group i k).list = s.list := by
  unfold armKeyRepeat
  split
  · rfl
  · rfl

@[simp] theorem armKeyRepeat_modes : (s.armKeyRepeat g group i k).modes = s.modes := by
  unfold armKeyRepeat
  split
  · rfl
  · rfl

@[simp] theorem armKeyRepeat_mode : (s.armKeyRepeat g group i k).mode = s.mode := by
  unfold armKeyRepeat
  split
  · rfl
  · rfl

@[simp] theorem armKeyRepeat_defaultMode :
    (s.armKeyRepeat g group i k).defaultMode = s.defaultMode := by
  unfold armKeyRepeat
  split
  · rfl
  · rfl

@[simp] theorem armKeyRepeat_modecursors :
    (s.armKeyRepeat g group i k).modecursors = s.modecursors := by
  unfold armKeyRepeat
  split
  · rfl
  · rfl

/-! ### The action that is run -/

theorem parseRcLine_cases {line : Text} {errno : Errno}
    (h : parseRcLine L moves line errno s = .ok t) :
    t = s ∨ ∃ names action params, modeNames s.modes = .ok names ∧
      (parseCommand L names 1).result line errno = some (action, params) ∧
      runAction moves action (store params s.memory).1
        { s with memory := (store params s.memory).2 } = .ok t := by
  unfold parseRcLine at h
  obtain ⟨names, hnames, h⟩ := Exec.bind_eq_ok.mp h
  cases hresult : (parseCommand L names 1).result line errno with
  | none =>
    rw [hresult] at h
    cases h
    exact .inl rfl
  | some r =>
    rw [hresult] at h
    exact .inr ⟨names, r.1, r.2, hnames, hresult, h⟩

/-- The keybinding that a key is bound to in the mode of the seat, and its entry. -/
def BoundTo (s : KeyServer) (sym modifiers : UInt32) (i k : ℕ) (kb : Keybinding) : Prop :=
  findKeybinding s.memory.heap s.mode modifiers sym s.list.keybindings = .ok (some i) ∧
    s.list.keybindings[i]? = some k ∧ s.memory.heap k = some kb

theorem handleCommandKeyBindings_cases {sym modifiers : UInt32} {handled : Bool}
    (h : handleCommandKeyBindings moves g sym modifiers s = .ok (t, handled)) :
    ∃ group, s.groups g = some group ∧
      ((group.enableKeybindings = 0 ∧ t = s) ∨
        (group.enableKeybindings ≠ 0 ∧ t = s.leaveMode) ∨
        ∃ i k kb, group.enableKeybindings ≠ 0 ∧ BoundTo s sym modifiers i k kb ∧
          runAction moves kb.action kb.data (s.leaveMode.armKeyRepeat g group i k) = .ok t) := by
  unfold handleCommandKeyBindings at h
  obtain ⟨group, hgroup, h⟩ := Exec.bind_eq_ok.mp h
  refine ⟨group, Exec.nonNull_eq_ok.mp hgroup, ?_⟩
  split at h
  · next hdisabled =>
    cases h
    exact .inl ⟨hdisabled, rfl⟩
  · next henabled =>
    dsimp only at h
    obtain ⟨found, hfind, h⟩ := Exec.bind_eq_ok.mp h
    cases found with
    | none =>
      cases h
      exact .inr (.inl ⟨henabled, rfl⟩)
    | some i =>
      obtain ⟨k, hk, h⟩ := Exec.bind_eq_ok.mp h
      obtain ⟨kb, hkb, h⟩ := Exec.bind_eq_ok.mp h
      obtain ⟨u, hu, h⟩ := Exec.bind_eq_ok.mp h
      cases h
      rw [Exec.nonNull_eq_ok, leaveMode_list] at hk
      rw [Exec.nonNull_eq_ok, armKeyRepeat_memory, leaveMode_memory] at hkb
      exact .inr (.inr ⟨i, k, kb, henabled, ⟨hfind, hk, hkb⟩, hu⟩)

/-- The keybinding that a group repeats. -/
def Repeats (s : KeyServer) (group : KeyboardGroup) (p : EntryPointer) (k : ℕ)
    (kb : Keybinding) : Prop :=
  group.repeatKeybinding = some p ∧ p.block = s.list.block ∧
    s.list.keybindings[p.index]? = some k ∧ s.memory.heap k = some kb

theorem handleKeyboardRepeat_cases (h : handleKeyboardRepeat moves g group s = .ok t) :
    ∃ time, t = s.setKeyRepeatTimer g group time ∨ ∃ p k kb, Repeats s group p k kb ∧
      runAction moves kb.action kb.data (s.setKeyRepeatTimer g group time) = .ok t := by
  unfold handleKeyboardRepeat at h
  split at h
  · cases h
    exact ⟨0, .inl rfl⟩
  · next p hp =>
    dsimp only at h
    obtain ⟨_, hblock, h⟩ := Exec.bind_eq_ok.mp h
    obtain ⟨k, hk, h⟩ := Exec.bind_eq_ok.mp h
    obtain ⟨kb, hkb, h⟩ := Exec.bind_eq_ok.mp h
    rw [Exec.deref_eq_ok, decide_eq_true_iff] at hblock
    exact ⟨_, .inr ⟨p, k, kb,
      ⟨hp, hblock, Exec.nonNull_eq_ok.mp hk, Exec.nonNull_eq_ok.mp hkb⟩, h⟩⟩

/-- A symbol is handled as a command, or a repetition ends. -/
theorem handleSym_cases {pressed : Bool} {modifiers sym : UInt32} {st st' : KeyServer × Bool}
    (h : handleSym moves g pressed modifiers st sym = .ok st') :
    (pressed = true ∧ keyIsModifier sym = false ∧
      ∃ handled, handleCommandKeyBindings moves g sym modifiers st.1 = .ok (st'.1, handled)) ∨
    st' = st ∨
    ∃ group, st.1.groups g = some group ∧ st'.1 = st.1.keyboardDisarmKeyRepeat g group := by
  unfold handleSym at h
  split at h
  · next hpress =>
    obtain ⟨r, hr, h⟩ := Exec.bind_eq_ok.mp h
    cases h
    exact .inl ⟨hpress.1, hpress.2, r.2, hr⟩
  · obtain ⟨group, hgroup, h⟩ := Exec.bind_eq_ok.mp h
    cases h
    split
    · exact .inr (.inr ⟨group, Exec.nonNull_eq_ok.mp hgroup, rfl⟩)
    · exact .inr (.inl rfl)

end KeyServer

end Cagebreak
