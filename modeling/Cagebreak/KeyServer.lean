/-
Keybindings, the modes they belong to and the keyboards that run them
(`keybinding.c`, `seat.c`).

The server keeps its keybindings in an array of pointers that grows.  A
keybinding that defines a key owns the keybinding it defines, until that one is
put into the array.  A keyboard group repeats a keybinding through a pointer
into the array.

Allocations succeed.  The address of a keybinding is not used again; `moves c`
says whether the array is moved when it is resized to the capacity `c`.
-/
import Cagebreak.Lib.Exec
import Cagebreak.Lib.Ownership
import Cagebreak.Parse

namespace Cagebreak

namespace KeyServer

open Parse

/-! ### Keybindings -/

/-- `union keybinding_params` of a keybinding on the heap: the address of a
keybinding, or another member. -/
inductive KeyData
  | kb (inner : ℕ)
  | params (data : KeybindingParams)

/-- `struct keybinding`. -/
structure Keybinding where
  mode : UInt16
  modifiers : UInt32
  key : UInt32
  action : KeybindingAction
  data : KeyData

/-- The keybinding that a keybinding owns. -/
def Keybinding.inner (kb : Keybinding) : Option ℕ :=
  match kb.action, kb.data with
  | .definekey, .kb inner => some inner
  | _, _ => none

/-- The keybindings on the heap, and the first address that was not used yet. -/
structure Memory where
  heap : ℕ → Option Keybinding
  next : ℕ

/-- `malloc`, and the assignments that follow it. -/
def Memory.alloc (memory : Memory) (kb : Keybinding) : Memory :=
  ⟨Function.update memory.heap memory.next (some kb), memory.next + 1⟩

@[simp] theorem Memory.alloc_heap_self (memory : Memory) (kb : Keybinding) :
    (memory.alloc kb).heap memory.next = some kb :=
  Function.update_self ..

theorem Memory.alloc_heap_of_ne (memory : Memory) (kb : Keybinding) {k : ℕ}
    (hk : k ≠ memory.next) : (memory.alloc kb).heap k = memory.heap k :=
  Function.update_of_ne hk ..

/-- The keybindings that the parser has allocated for a command. -/
def store : KeybindingParams → Memory → KeyData × Memory
  | .kb mode modifiers key action data, memory =>
    let (data, memory) := store data memory
    (.kb memory.next, memory.alloc ⟨mode, modifiers, key, action, data⟩)
  | data, memory => (.params data, memory)

/-- `keybinding_free`.  The strings of a keybinding are freed with it. -/
def keybindingFree :
    ℕ → (ℕ → Option Keybinding) → ℕ → Bool → Exec (ℕ → Option Keybinding)
  | 0, _, _, _ => .error .diverges
  | fuel + 1, heap, keybinding, recursive => do
    let kb ← Exec.nonNull (heap keybinding)
    let heap ← (match kb.inner with
      | some inner => if recursive then keybindingFree fuel heap inner true else .ok heap
      | none => .ok heap)
    Exec.deref (heap keybinding).isSome
    .ok (Function.update heap keybinding none)

/-! ### The array -/

/-- `struct keybinding_list`: the array, its capacity and the entries in use. -/
structure KeybindingList where
  block : ℕ
  capacity : ℕ
  keybindings : List ℕ
  deriving DecidableEq, Repr

/-- The whole array is in use. -/
def KeybindingList.Full (list : KeybindingList) : Prop := list.keybindings.length = list.capacity

instance (list : KeybindingList) : Decidable list.Full := Nat.decEq _ _

variable (L : Libraries) (moves : ℕ → Bool)

/-- `keybinding_resize`. -/
def keybindingResize (list : KeybindingList) : KeybindingList :=
  if list.Full then
    { list with
      capacity := list.capacity * 2
      block := if moves (list.capacity * 2) then list.block + 1 else list.block }
  else list

/-- `find_keybinding`: the index of the entry. -/
def findKeybinding (heap : ℕ → Option Keybinding) (mode : UInt16) (modifiers key : UInt32) :
    List ℕ → Exec (Option ℕ)
  | [] => .ok none
  | it :: its => do
    let kb ← Exec.nonNull (heap it)
    if modifiers = kb.modifiers ∧ mode = kb.mode ∧ key = kb.key then .ok (some 0)
    else do
      let found ← findKeybinding heap mode modifiers key its
      .ok (found.map (· + 1))

/-! ### The server -/

/-- What is shown as the cursor. -/
inductive CursorImage
  | unset
  | xcursor (name : Text)
  | surface
  deriving DecidableEq, Repr

/-- A `struct keybinding **` into the array at `block`. -/
structure EntryPointer where
  block : ℕ
  index : ℕ
  deriving DecidableEq, Repr

/-- `struct cg_keyboard_group`, with the time its timer is set to (0 when it is
not), and the keybinding that was armed last, which the source does not keep. -/
structure KeyboardGroup where
  identifier : Text
  enableKeybindings : ℤ
  repeatRate : ℤ
  repeatDelay : ℤ
  keyRepeatTimer : ℤ
  repeatKeybinding : Option EntryPointer
  armedBy : Option ℕ

end KeyServer

open KeyServer in
/-- The parts of the server and its seat that keys depend on. -/
structure KeyServer where
  memory : Memory
  list : KeybindingList
  modes : List (Option Text)
  modecursors : List (Option Text)
  mode : UInt16
  defaultMode : UInt16
  numPointers : ℕ
  enableCursor : Bool
  renderer : Bool
  image : CursorImage
  groups : ℕ → Option KeyServer.KeyboardGroup
  nextGroup : ℕ
  inputConfig : List InputConfig

namespace KeyServer

open Parse

variable (L : Libraries) (moves : ℕ → Bool)

/-- `DEFAULT_XCURSOR`. -/
def defaultXcursor : Text := ascii "left_ptr"

/-- The server before the configuration is read (`main`, `keybinding_list_init`,
`seat_create`). -/
def initial (renderer : Bool) : KeyServer where
  memory := ⟨fun _ => none, 0⟩
  list := ⟨0, 1, []⟩
  modes := [some (ascii "top"), some (ascii "root"), some (ascii "resize"), none]
  modecursors := [none, some (ascii "cell"), none, none]
  mode := 0
  defaultMode := 0
  numPointers := 0
  enableCursor := true
  renderer := renderer
  image := .unset
  groups := fun _ => none
  nextGroup := 0
  inputConfig := []

/-! ### Modes -/

/-- The names up to the `NULL` that ends the array. -/
def modeNames : List (Option Text) → Exec (List Text)
  | [] => .error .undefined
  | none :: _ => .ok []
  | some mode :: modes => do
    let names ← modeNames modes
    .ok (mode :: names)

/-- What `realloc` makes of an array of pointers; entries that it adds are not
initialised, and stand as `none`. -/
def reallocArray {α : Type} (array : List (Option α)) (n : ℕ) : List (Option α) :=
  array.take n ++ List.replicate (n - array.length) none

/-- `keybinding_definemode`, up to the event it sends. -/
def keybindingDefinemode (mode : Text) (s : KeyServer) : Exec KeyServer := do
  let names ← modeNames s.modes
  let length := names.length + 1
  .ok { s with
    modes := ((reallocArray s.modes (length + 1)).set length none).set (length - 1) (some mode)
    modecursors := (reallocArray s.modecursors (length + 1)).set length none }

/-- The loop of `KEYBINDING_SETMODECURSOR`. -/
def setModeCursor (mode cursor : Text) :
    List (Option Text) → List (Option Text) → Exec (List (Option Text))
  | [], _ => .error .undefined
  | none :: _, cursors => .ok cursors
  | some name :: modes, [] =>
    if name = mode then .error .undefined else setModeCursor mode cursor modes []
  | some name :: modes, c :: cursors => do
    let cursors ← setModeCursor mode cursor modes cursors
    .ok ((if name = mode then some cursor else c) :: cursors)

/-- `wlr_cursor_set_xcursor`. -/
def setXcursor (name : Text) (s : KeyServer) : KeyServer := { s with image := .xcursor name }

/-- `KEYBINDING_SWITCH_MODE`. -/
def switchMode (n : UInt32) (s : KeyServer) : Exec KeyServer := do
  let names ← modeNames s.modes
  let s ← (if n.toNat ≠ s.defaultMode.toNat ∧ n.toNat < names.length ∧ 0 < s.numPointers ∧
      s.enableCursor = true then do
    let cursor ← Exec.nonNull s.modecursors[n.toNat]?
    match cursor with
    | some name => .ok (if s.renderer then s.setXcursor name else s)
    | none => .ok s
  else .ok s)
  .ok { s with mode := n.toUInt16 }

/-- `KEYBINDING_SWITCH_DEFAULT_MODE`, but for the event it sends. -/
def switchDefaultMode (n : UInt32) (s : KeyServer) : Exec KeyServer := do
  let names ← modeNames s.modes
  let s ← (if n.toNat ≠ s.defaultMode.toNat ∧ n.toNat < names.length ∧ s.enableCursor = true ∧
      0 < s.numPointers ∧ s.renderer = true then do
    let cursor ← Exec.nonNull s.modecursors[n.toNat]?
    .ok (s.setXcursor (cursor.getD defaultXcursor))
  else .ok s)
  .ok { s with mode := n.toUInt16, defaultMode := n.toUInt16 }

/-- `set_cursor`. -/
def setCursor (enabled : ℤ) (s : KeyServer) : KeyServer :=
  if enabled ≠ 0 then
    { s with
      enableCursor := true
      image := if s.renderer then .xcursor defaultXcursor else s.image }
  else
    { s with
      enableCursor := false
      image := if s.renderer then .unset else s.image }

/-! ### Keyboard groups -/

/-- `apply_keyboard_group_config`. -/
def applyKeyboardGroupConfig (config : InputConfig) (group : KeyboardGroup) : KeyboardGroup :=
  { group with
    enableKeybindings :=
      if config.enableKeybindings ≠ -1 then config.enableKeybindings else group.enableKeybindings
    repeatDelay := if config.repeatDelay ≠ -1 then config.repeatDelay else 600
    repeatRate := if config.repeatRate ≠ -1 then config.repeatRate else 25 }

/-- A record for a group with this identifier. -/
def groupMatches (identifier : Text) (config : InputConfig) : Bool :=
  config.identifier.any fun ident =>
    decide (ident = identifier) || decide (ident = ascii "*") ||
      (decide (ident.take 5 = ascii "type:") && decide (ident.drop 5 = ascii "keyboard"))

/-- The loop of `cg_input_manager_configure_keyboard_group`. -/
def totalConfig (inputConfig : List InputConfig) (identifier : Text) : InputConfig :=
  inputConfig.foldl (fun tot config =>
    if groupMatches identifier config then
      if tot.identifier = none ∨ tot.identifier = some (ascii "*") ∨
          config.identifier ≠ some identifier then
        inputManagerMergeInputConfigs config tot
      else inputManagerMergeInputConfigs tot config
    else tot) emptyInputConfig

/-- `cg_input_manager_configure_keyboard_group`. -/
def cgInputManagerConfigureKeyboardGroup (inputConfig : List InputConfig)
    (group : KeyboardGroup) : KeyboardGroup :=
  applyKeyboardGroupConfig (totalConfig inputConfig group.identifier) group

/-- `keybinding_configure_input`, for keyboard groups. -/
def keybindingConfigureInput (cfg : InputConfig) (s : KeyServer) : KeyServer :=
  let inputConfig := inputManagerMergeInputConfigs cfg emptyInputConfig :: s.inputConfig
  { s with
    inputConfig
    groups := fun g => (s.groups g).map (cgInputManagerConfigureKeyboardGroup inputConfig) }

/-- A new group (`cg_keyboard_group_add`) for a keyboard that none of the others
takes. -/
def cgKeyboardGroupAdd (identifier : Text) (rate delay : ℤ) (s : KeyServer) : KeyServer :=
  { s with
    groups := Function.update s.groups s.nextGroup
      (some (cgInputManagerConfigureKeyboardGroup s.inputConfig
        ⟨identifier, 1, rate, delay, 0, none, none⟩))
    nextGroup := s.nextGroup + 1 }

/-- `remove_keyboard`, for the last keyboard of a group. -/
def removeKeyboard (g : ℕ) (s : KeyServer) : KeyServer :=
  { s with groups := Function.update s.groups g none }

/-! ### Actions -/

/-- `keybinding_list_push`. -/
def keybindingListPush (keybinding : ℕ) (s : KeyServer) : Exec KeyServer := do
  let list := keybindingResize moves s.list
  let kb ← Exec.nonNull (s.memory.heap keybinding)
  match ← findKeybinding s.memory.heap kb.mode kb.modifiers kb.key list.keybindings with
  | some i => do
    let found ← Exec.nonNull list.keybindings[i]?
    let heap ← keybindingFree s.memory.next s.memory.heap found true
    .ok { s with
      memory := { s.memory with heap := heap }
      list := { list with keybindings := list.keybindings.set i keybinding } }
  | none => .ok { s with list := { list with keybindings := list.keybindings ++ [keybinding] } }

/-- `keybinding_definekey`; the event shows the keybinding. -/
def keybindingDefinekey (keybinding : ℕ) (s : KeyServer) : Exec KeyServer := do
  let s ← keybindingListPush moves keybinding s
  let _ ← Exec.nonNull (s.memory.heap keybinding)
  .ok s

/-- `run_action`; the other actions do nothing to what keys depend on. -/
def runAction (action : KeybindingAction) (data : KeyData) (s : KeyServer) : Exec KeyServer :=
  match action, data with
  | .definekey, .kb keybinding => keybindingDefinekey moves keybinding s
  | .switchMode, .params (.u n) => switchMode n s
  | .switchDefaultMode, .params (.u n) => switchDefaultMode n s
  | .definemode, .params (.c (some mode)) => keybindingDefinemode mode s
  | .setmodecursor, .params (.cs mode cursor) => do
    let modecursors ← setModeCursor mode cursor s.modes s.modecursors
    .ok { s with modecursors }
  | .cursor, .params (.i enabled) => .ok (s.setCursor enabled)
  | .configureInput, .params (.iCfg cfg) => .ok (keybindingConfigureInput cfg s)
  | _, _ => .ok s

/-- `parse_rc_line`.  Of the keybinding that the line is parsed into, only the
action and the data are used, and it is freed alone. -/
def parseRcLine (line : Text) (errno : Errno) (s : KeyServer) : Exec KeyServer := do
  let names ← modeNames s.modes
  match (parseCommand L names 1).result line errno with
  | none => .ok s
  | some (action, params) =>
    let (data, memory) := store params s.memory
    runAction moves action data { s with memory }

/-! ### Keys -/

/-- The return to the default mode in `handle_command_key_bindings`. -/
def leaveMode (s : KeyServer) : KeyServer :=
  if s.mode ≠ s.defaultMode then
    { s with
      mode := s.defaultMode
      image := if s.enableCursor && s.renderer then .xcursor defaultXcursor else s.image }
  else s

/-- The repetition of the entry `i`, which is the keybinding `k`, is set up. -/
def armKeyRepeat (g : ℕ) (group : KeyboardGroup) (i k : ℕ) (s : KeyServer) : KeyServer :=
  if 0 < group.repeatDelay then
    { s with
      groups := Function.update s.groups g (some { group with
        repeatKeybinding := some ⟨s.list.block, i⟩
        keyRepeatTimer := group.repeatDelay
        armedBy := some k }) }
  else s

/-- `keyboard_disarm_key_repeat`. -/
def keyboardDisarmKeyRepeat (g : ℕ) (group : KeyboardGroup) (s : KeyServer) : KeyServer :=
  { s with
    groups := Function.update s.groups g (some { group with
      repeatKeybinding := none
      keyRepeatTimer := 0 }) }

/-- `handle_command_key_bindings`, called with the mode of the seat. -/
def handleCommandKeyBindings (g : ℕ) (sym modifiers : UInt32) (s : KeyServer) :
    Exec (KeyServer × Bool) := do
  let group ← Exec.nonNull (s.groups g)
  if group.enableKeybindings = 0 then .ok (s, false)
  else do
    let mode := s.mode
    let keybinding ← findKeybinding s.memory.heap mode modifiers sym s.list.keybindings
    let s := s.leaveMode
    match keybinding with
    | some i => do
      let k ← Exec.nonNull s.list.keybindings[i]?
      let s := s.armKeyRepeat g group i k
      let kb ← Exec.nonNull (s.memory.heap k)
      let s ← runAction moves kb.action kb.data s
      .ok (s, true)
    | none => .ok (s, decide (mode ≠ 0))

/-- `key_is_modifier`: the keysyms of shift, control, alt, super and hyper. -/
def keyIsModifier (key : UInt32) : Bool :=
  [0xffe1, 0xffe2, 0xffe3, 0xffe4, 0xffe9, 0xffea, 0xffeb, 0xffec, 0xffed, 0xffee].contains key

/-- The body of the loop of `handle_key_event`, with the flag `handled`. -/
def handleSym (g : ℕ) (pressed : Bool) (modifiers : UInt32) (st : KeyServer × Bool)
    (sym : UInt32) : Exec (KeyServer × Bool) :=
  if pressed = true ∧ keyIsModifier sym = false then do
    let (s, handled) ← handleCommandKeyBindings moves g sym modifiers st.1
    .ok (s, handled || st.2)
  else do
    let group ← Exec.nonNull (st.1.groups g)
    .ok (if group.repeatKeybinding ≠ none ∧ st.2 = false then
      (st.1.keyboardDisarmKeyRepeat g group, st.2) else st)

/-- `handle_key_event`; the modifiers are those that are not consumed. -/
def handleKeyEvent (g : ℕ) (pressed : Bool) (syms : List UInt32) (modifiers : UInt32)
    (s : KeyServer) : Exec KeyServer := do
  let (s, _) ← syms.foldlM (handleSym moves g pressed modifiers) (s, false)
  .ok s

/-- `wl_event_source_timer_update`. -/
def setKeyRepeatTimer (g : ℕ) (group : KeyboardGroup) (time : ℤ) (s : KeyServer) : KeyServer :=
  { s with groups := Function.update s.groups g (some { group with keyRepeatTimer := time }) }

/-- `handle_keyboard_repeat`. -/
def handleKeyboardRepeat (g : ℕ) (group : KeyboardGroup) (s : KeyServer) : Exec KeyServer :=
  match group.repeatKeybinding with
  | none => .ok (s.setKeyRepeatTimer g group 0)
  | some p => do
    let time := if 0 < group.repeatRate then 1000 / group.repeatRate else 0
    let s := s.setKeyRepeatTimer g group time
    Exec.deref (decide (p.block = s.list.block))
    let k ← Exec.nonNull s.list.keybindings[p.index]?
    let kb ← Exec.nonNull (s.memory.heap k)
    runAction moves kb.action kb.data s

/-! ### Runs -/

/-- What happens to the server. -/
inductive Event
  /-- a line of the configuration or of a client, with `errno` as it is then -/
  | line (line : Text) (errno : Errno)
  | key (g : ℕ) (pressed : Bool) (syms : List UInt32) (modifiers : UInt32)
  /-- the timer of a group fires -/
  | repeatTimer (g : ℕ)
  | newKeyboard (identifier : Text) (rate delay : ℤ)
  | lastKeyboard (g : ℕ)
  | pointers (n : ℕ)
  /-- a client sets a cursor, and has the focus of the pointer or not -/
  | requestSetCursor (focused : Bool)

/-- `handle_request_set_cursor`. -/
def handleRequestSetCursor (focused : Bool) (s : KeyServer) : Exec KeyServer :=
  if s.enableCursor = false then .ok s
  else do
    let cursor ← Exec.nonNull s.modecursors[s.mode.toNat]?
    .ok (if cursor = none ∧ focused = true ∧ s.renderer = true then { s with image := .surface }
      else s)

def step (s : KeyServer) : Event → Exec KeyServer
  | .line line errno => parseRcLine L moves line errno s
  | .key g pressed syms modifiers =>
    -- a group that is gone sends no events, and its timer is removed
    Exec.ifSome (s.groups g) s fun _ => handleKeyEvent moves g pressed syms modifiers s
  | .repeatTimer g => Exec.ifSome (s.groups g) s fun group =>
    if group.keyRepeatTimer ≠ 0 then handleKeyboardRepeat moves g group s else .ok s
  | .newKeyboard identifier rate delay => .ok (s.cgKeyboardGroupAdd identifier rate delay)
  | .lastKeyboard g => .ok (s.removeKeyboard g)
  | .pointers n => .ok { s with numPointers := n }
  | .requestSetCursor focused => handleRequestSetCursor focused s

/-- `keybinding_list_free`. -/
def keybindingListFree (s : KeyServer) : Exec (ℕ → Option Keybinding) :=
  s.list.keybindings.foldlM (fun heap k => keybindingFree s.memory.next heap k true) s.memory.heap

end KeyServer

end Cagebreak
