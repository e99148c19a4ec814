/-
Two ways to define a key (`parse_bind`, `parse_escape`, `parse_definekey`).

`bind` gives its keybinding the mode with the index 1, and `escape` the mode 0 and the
action itself; `definekey` looks a mode up by its name and parses the command.

* `bind_eq_definekey`, `escape_eq_definekey` — both ways in a table of modes that
  begins with `top` and `root`;
* `key_definitions_agree` — in every state the server reaches.
-/
import Cagebreak.KeyModes
import Cagebreak.ParseHistory
import Cagebreak.ParseLines

namespace Cagebreak

namespace Parse

open Strto Reader

variable {L : Libraries} {modes : List Text} {t : Text} {e : Errno} {room : ℕ}

/-! ### Lines -/

/-- `bind <key> <command>`; `rest` is the key and the command. -/
def bindLine (rest : Text) : Text := ascii "bind" ++ 32 :: rest

/-- `definekey root <key> <command>`. -/
def definekeyRootLine (rest : Text) : Text :=
  ascii "definekey" ++ 32 :: (ascii "root" ++ 32 :: rest)

/-- `escape <key>`. -/
def escapeLine (key : Word) : Text := ascii "escape" ++ 32 :: key.text

/-- `definekey top <key> mode root`. -/
def definekeyTopLine (key : Word) : Text :=
  ascii "definekey" ++ 32 :: (ascii "top" ++ 32 :: (key.text ++ 32 :: ascii "mode root"))

/-- A table of modes that begins with `top` and `root`. -/
def FirstModes (modes : List Text) : Prop := ∃ more, modes = ascii "top" :: ascii "root" :: more

theorem FirstModes.top (h : FirstModes modes) :
    getModeIndexFromName modes (ascii "top") = some 0 := by
  obtain ⟨more, rfl⟩ := h
  rfl

theorem FirstModes.root (h : FirstModes modes) :
    getModeIndexFromName modes (ascii "root") = some 1 := by
  obtain ⟨more, rfl⟩ := h
  rfl

/-! ### `bind` -/

/-- A command that is a keybinding. -/
theorem definekey_result {mode rest : Text} {modeIdx : ℕ}
    (hmode : strtok space t = (some mode, rest))
    (hidx : getModeIndexFromName modes mode = some modeIdx) :
    (parseBranch L modes (command L modes room) .definekey).result t e =
      ((parseKeybinding L modeIdx.toUInt16 (command L modes room)).result rest e).map
        (KeybindingAction.definekey, ·) := by
  rw [parseBranch, result_map, parseDefinekey, require_result hmode, hidx]

theorem bind_eq_definekey (h : FirstModes modes) (rest : Text) :
    (command L modes room).result (bindLine rest) e =
      (command L modes room).result (definekeyRootLine rest) e := by
  cases room with
  | zero => rfl
  | succ room =>
    have hbind : branchOf (ascii "bind") = some .bind := rfl
    have hdefine : branchOf (ascii "definekey") = some .definekey := rfl
    rw [bindLine, definekeyRootLine, command_result (strtok_ascii "bind") hbind,
      command_result (strtok_ascii "definekey") hdefine,
      definekey_result (strtok_ascii "root") h.root, parseBranch, result_map]
    rfl

/-! ### `escape` -/

/-- What follows a key definition is read if the key is accepted. -/
theorem parseKey_result (key : Text) :
    (¬IsKey L key ∧ ∀ {α : Type} (f : UInt32 × UInt32 → Reader α) u e,
      (parseKey L (some key) >>= f).result u e = none) ∨
    (IsKey L key ∧ ∃ modifiers keysym, ∀ {α : Type} (f : UInt32 × UInt32 → Reader α) u e,
      (parseKey L (some key) >>= f).result u e = (f (modifiers, keysym)).result u e) := by
  obtain ⟨hkey, ⟨modifiers, keysym⟩, hr⟩ | ⟨hkey, hr⟩ := parseKey_run (L := L) key
  · right
    refine ⟨hkey, modifiers, keysym, fun f u e => ?_⟩
    rw [result, run_bind, hr]
    rfl
  · left
    refine ⟨hkey, fun f u e => ?_⟩
    rw [result, run_bind, hr]
    rfl

/-- `mode root` is read, unless commands are nested too deep. -/
theorem mode_root_result (h : FirstModes modes) :
    (command L modes (room + 1)).result (ascii "mode root") e = some (.switchMode, .u 1) := by
  have hword : strtok space (ascii "mode root") = (some (ascii "mode"), ascii "root") := by decide
  have hbranch : branchOf (ascii "mode") =
      some (.mode .switchMode "Expected mode after \"mode\". Got nothing." "\" for \"mode\"") := rfl
  have hroot : strtok space (ascii "root") = (some (ascii "root"), []) := by decide
  rw [command_result hword hbranch, parseBranch, result_map, parseMode, argument_bind,
    require_result hroot, h.root]
  rfl

/-- What both ways to define a key for the mode `root` come down to. -/
theorem escape_result (h : FirstModes modes) (key : Word) (e : Errno) :
    (¬IsKey L key.text ∧ (command L modes (room + 1)).result (escapeLine key) e = none ∧
      (command L modes (room + 1)).result (definekeyTopLine key) e = none) ∨
    (IsKey L key.text ∧ ∃ modifiers keysym,
      (command L modes (room + 1)).result (escapeLine key) e =
        some (.definekey, .kb 0 modifiers keysym .switchMode (.u 1)) ∧
      (command L modes (room + 1)).result (definekeyTopLine key) e =
        ((command L modes room).result (ascii "mode root") e).map fun c =>
          (.definekey, .kb 0 modifiers keysym c.1 c.2)) := by
  have hescape : branchOf (ascii "escape") = some .escape := rfl
  have hdefine : branchOf (ascii "definekey") = some .definekey := rfl
  have hleft : (command L modes (room + 1)).result (escapeLine key) e =
      ((parseKey L (some key.text) >>= fun r =>
        pure (KeybindingParams.kb 0 r.1 r.2 .switchMode (.u 1))).result [] e).map
          (KeybindingAction.definekey, ·) := by
    rw [escapeLine, command_result (strtok_ascii "escape") hescape, parseBranch, result_map,
      parseEscape, token_result key.strtok_end]
  have hright : (command L modes (room + 1)).result (definekeyTopLine key) e =
      ((parseKey L (some key.text) >>= fun r => do
        let c ← command L modes room
        pure (KeybindingParams.kb 0 r.1 r.2 c.1 c.2)).result (ascii "mode root") e).map
          (KeybindingAction.definekey, ·) := by
    rw [definekeyTopLine, command_result (strtok_ascii "definekey") hdefine,
      definekey_result (strtok_ascii "top") h.top, parseKeybinding,
      token_result key.strtok_blank]
    rfl
  rw [hleft, hright]
  obtain ⟨hkey, hnone⟩ | ⟨hkey, modifiers, keysym, hsome⟩ := parseKey_result (L := L) key.text
  · left
    refine ⟨hkey, ?_, ?_⟩
    · rw [hnone]
      rfl
    · rw [hnone]
      rfl
  · right
    refine ⟨hkey, modifiers, keysym, ?_, ?_⟩
    · rw [hsome]
      rfl
    · rw [hsome, result_map, Option.map_map]
      rfl

/-- **`escape` and `definekey top <key> mode root`** agree, but where commands may not be
nested any more and the key is valid. -/
theorem escape_eq_definekey (h : FirstModes modes) (key : Word) :
    (command L modes room).result (escapeLine key) e =
        (command L modes room).result (definekeyTopLine key) e ↔
      room ≠ 1 ∨ ¬IsKey L key.text := by
  cases room with
  | zero => exact iff_of_true rfl (.inl (by decide))
  | succ room =>
    obtain ⟨hkey, hnone, hnone'⟩ | ⟨hkey, modifiers, keysym, hsome, hsome'⟩ :=
      @escape_result L modes room h key e
    · exact iff_of_true (by rw [hnone, hnone']) (.inr hkey)
    · rw [hsome, hsome', or_iff_left (not_not_intro hkey)]
      cases room with
      | zero => exact iff_of_false (fun heq => nomatch heq) fun hne => hne rfl
      | succ room =>
        rw [mode_root_result h]
        exact iff_of_true rfl (by omega)

end Parse

namespace KeyServer

open Strto Reader Parse

/-- The server begins with `top`, `root` and `resize`, and keeps its modes in order. -/
theorem steps_firstModes {L : Libraries} {moves : ℕ → Bool} {renderer : Bool} {s : KeyServer}
    {ok : KeyServer → Event → Prop} (h : Exec.Steps (step L moves) ok (initial renderer) s) :
    ∃ modes, modeNames s.modes = .ok modes ∧ FirstModes modes := by
  obtain ⟨more, hmodes⟩ := steps_hasModes (initial_hasModes renderer) h
  exact ⟨_, hmodes.modeNames, ascii "resize" :: more, rfl⟩

/-- **Both ways to define a key** make the same keybinding in every state that the server
reaches, for `escape` but where the command `mode root` is nested too deep to be read. -/
theorem key_definitions_agree (L : Libraries) (moves : ℕ → Bool) (renderer : Bool)
    (s : KeyServer) (h : Exec.Steps (step L moves) (fun _ _ => True) (initial renderer) s) :
    ∃ modes, modeNames s.modes = .ok modes ∧ ∀ nestingLevel e,
      (∀ rest, (parseCommand L modes nestingLevel).result (bindLine rest) e =
        (parseCommand L modes nestingLevel).result (definekeyRootLine rest) e) ∧
      ∀ key : Word, (parseCommand L modes nestingLevel).result (escapeLine key) e =
          (parseCommand L modes nestingLevel).result (definekeyTopLine key) e ↔
        nestingLevel + 1 ≠ maxNestingLevel ∨ ¬IsKey L key.text := by
  obtain ⟨modes, hmodes, hfirst⟩ := steps_firstModes h
  refine ⟨modes, hmodes, fun nestingLevel e => ⟨fun rest => ?_, fun key => ?_⟩⟩
  · exact bind_eq_definekey hfirst rest
  · have hroom : maxNestingLevel - nestingLevel ≠ 1 ↔ nestingLevel + 1 ≠ maxNestingLevel := by
      unfold maxNestingLevel
      omega
    rw [← hroom]
    exact escape_eq_definekey hfirst key

/-- After `definemode layout`. -/
theorem key_definitions_agree_defined : ∃ s modes,
    Exec.Steps (step letters fun _ => true) (fun _ _ => True) (initial true) s ∧
    modeNames s.modes = .ok modes ∧ modes.length = 4 ∧ ∀ nestingLevel e,
      (∀ rest, (parseCommand letters modes nestingLevel).result (bindLine rest) e =
        (parseCommand letters modes nestingLevel).result (definekeyRootLine rest) e) ∧
      ∀ key : Word, (parseCommand letters modes nestingLevel).result (escapeLine key) e =
          (parseCommand letters modes nestingLevel).result (definekeyTopLine key) e ↔
        nestingLevel + 1 ≠ maxNestingLevel ∨ ¬IsKey letters key.text := by
  have hret : Exec.returns (Exec.run (step letters fun _ => true) (initial true)
      [.line (ascii "definemode layout") .clear]) (fun s =>
        Exec.returns (modeNames s.modes) fun modes => decide (modes.length = 4)) = true := by
    decide
  obtain ⟨s, hs, htest⟩ := Exec.exists_of_returns hret
  obtain ⟨modes, hmodes, hlen⟩ := Exec.exists_of_returns htest
  have hrun : Exec.Steps (step letters fun _ => true) (fun _ _ => True) (initial true) s :=
    Exec.Steps.of_run hs fun _ _ _ => trivial
  obtain ⟨modes', hmodes', h⟩ := key_definitions_agree letters (fun _ => true) true s hrun
  obtain rfl := Except.ok.inj (hmodes.symm.trans hmodes')
  exact ⟨s, modes, hrun, hmodes, of_decide_eq_true hlen, h⟩

/-- Where only one more command may be nested, `escape a` is accepted and
`definekey top a mode root` is not. -/
theorem escape_nested_deepest :
    ∃ modes, modeNames (initial true).modes = .ok modes ∧
      (parseCommand letters modes 49).result (escapeLine (.ofString "a")) .clear =
        some (.definekey, .kb 0 0 97 .switchMode (.u 1)) ∧
      (parseCommand letters modes 49).result (definekeyTopLine (.ofString "a")) .clear = none := by
  exact ⟨_, rfl, rfl, rfl⟩

end KeyServer

end Cagebreak
