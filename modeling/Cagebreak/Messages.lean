/-
The messages on the outputs.

A message is put on an output, with a box, a buffer and a node of the scene of its own,
and an alarm is set.  When the alarm expires, all messages of the outputs in use are
cleared.  A key press, a line from a client and the end of an output clear the messages
of one output.

* `messages_owned` — in all runs the memory is that of the messages shown, and clearing
  them is defined exactly if each of them has been given a node;
* `messages_expire` — no message is left without an alarm, unless the time for messages
  is `0`;
* `print_fits_iff` — when a message lies inside its output.
-/
import Cagebreak.Lib.Exec
import Cagebreak.Lib.Rect
import Cagebreak.ParseConfigs
import Mathlib.Data.Finset.Basic
import Mathlib.Data.Rat.Floor

namespace Cagebreak

open Exec

/-- What is allocated for a message: the `struct cg_message`, its box, its buffer and its
node. -/
inductive MessagePart
  | record
  | position
  | buffer
  | node
  deriving DecidableEq

/-- `struct cg_message`. -/
structure ScreenMessage where
  id : ℕ
  position : Rect
  /-- the box of `message` in the layout; `message` and `buf` are not initialised if
  there is none -/
  shown : Option Rect

/-- Which of the allocations for a message succeed. -/
structure MessageAlloc where
  text : Bool
  position : Bool
  record : Bool
  texture : Bool
  node : Bool

/-- The outputs and their messages. -/
structure MessageServer where
  /-- `server->outputs` -/
  outputs : List ℕ
  /-- `output->messages` -/
  messages : ℕ → List ScreenMessage
  destroyed : ℕ → Bool
  hasSceneOutput : ℕ → Bool
  layoutBox : ℕ → Rect
  scale : ℕ → ℚ
  messageConfig : Dump.MessageConfig
  /-- what is allocated -/
  heap : Finset (ℕ × MessagePart)
  next : ℕ
  /-- an alarm is set -/
  alarm : Bool
  /-- `SIGALRM` has been sent, but not yet handled -/
  signalled : Bool

/-- What happens to the messages. -/
inductive MessageEvent
  /-- `message_printf` -/
  | print (o : ℕ) (text : Text) (alloc : MessageAlloc)
  /-- `workspace_focus_tile` of a tile on the output -/
  | focusTile (o : ℕ) (tile : Rect) (alloc : MessageAlloc)
  /-- a key binding is pressed, or a line is read from a client -/
  | clear (o : ℕ)
  /-- the alarm expires -/
  | expire
  /-- `handle_signal` is called for `SIGALRM` -/
  | signal
  | configure (config : Parse.MessageConfig)
  /-- the output is enabled, with or without a scene output -/
  | enable (o : ℕ) (box : Rect) (scale : ℚ) (scene : Bool)
  /-- `output_clear` -/
  | remove (o : ℕ)
  /-- the monitor of a permanent output is unplugged -/
  | unplug (o : ℕ)

/-- Where a box of the given size is put by `message_set_output`. -/
def placed (anchor : Dump.MessageAnchor) (box : Rect) (width height : ℤ) : Rect :=
  match anchor with
  | .topLeft => ⟨0, 0, width, height⟩
  | .topCenter => ⟨box.x - width.tdiv 2, 0, width, height⟩
  | .topRight => ⟨box.x - width, 0, width, height⟩
  | .bottomLeft => ⟨0, box.y - height, width, height⟩
  | .bottomCenter => ⟨box.x - width.tdiv 2, box.y - height, width, height⟩
  | .bottomRight => ⟨box.x - width, box.y - height, width, height⟩
  | .center => ⟨box.x - width.tdiv 2, box.y - height.tdiv 2, width, height⟩
  | .noOpt => ⟨box.x, box.y, width, height⟩

/-- The box that `message_printf` begins with.  It is not initialised if there is no
anchor; `x` and `y` are what it holds then. -/
def anchorPoint (anchor : Dump.MessageAnchor) (output : Rect) (x y : ℤ) : Rect :=
  match anchor with
  | .topLeft => ⟨0, 0, 0, 0⟩
  | .topCenter => ⟨output.width.tdiv 2, 0, 0, 0⟩
  | .topRight => ⟨output.width, 0, 0, 0⟩
  | .bottomLeft => ⟨0, output.height, 0, 0⟩
  | .bottomCenter => ⟨output.width.tdiv 2, output.height, 0, 0⟩
  | .bottomRight => ⟨output.width, output.height, 0, 0⟩
  | .center => ⟨output.width.tdiv 2, output.height.tdiv 2, 0, 0⟩
  | .noOpt => ⟨x, y, 0, 0⟩

/-- The colour of a configuration is not set: its first component is `-1`. -/
def colorUnset (v : Vector CFloat 4) : Bool := (v.toList.headD (.fin (-1))).eq (.fin (-1))

/-- `keybinding_configure_message`. -/
def keybindingConfigureMessage (old : Dump.MessageConfig) (config : Parse.MessageConfig) :
    Dump.MessageConfig where
  font := config.font.getD old.font
  displayTime := if config.displayTime ≠ -1 then config.displayTime else old.displayTime
  bgColor := if colorUnset config.bgColor then old.bgColor else config.bgColor
  fgColor := if colorUnset config.fgColor then old.fgColor else config.fgColor
  enabled := if config.enabled ≠ -1 then config.enabled else old.enabled
  anchor := match config.anchor with
    | .noOpt => old.anchor
    | anchor => anchor

namespace MessageServer

/-- `malloc`. -/
def new (s : MessageServer) (x : ℕ × MessagePart) : MessageServer :=
  { s with heap := insert x s.heap }

/-- `free`. -/
def free (s : MessageServer) (x : ℕ × MessagePart) : Exec MessageServer :=
  if x ∈ s.heap then .ok { s with heap := s.heap.erase x } else .error .undefined

/-- `wl_list_insert(&output->messages, …)`. -/
def insertMessage (s : MessageServer) (o : ℕ) (m : ScreenMessage) : MessageServer :=
  { s with messages := Function.update s.messages o (m :: s.messages o) }

/-- The size of a text on an output: the text with its margins, in the units of the
layout.  `textSize` is `get_text_size`. -/
def messageSize (s : MessageServer) (textSize : Text → ℚ → ℕ × ℕ) (o : ℕ) (text : Text) : ℤ × ℤ :=
  let size := textSize text (s.scale o)
  (⌊((size.1 + 2 * 8 : ℕ) : ℚ) / s.scale o⌋, ⌊((size.2 + 2 * 2 : ℕ) : ℚ) / s.scale o⌋)

/-- `message_set_output`, for the box of the message `id`. -/
def messageSetOutput (s : MessageServer) (textSize : Text → ℚ → ℕ × ℕ) (o id : ℕ) (text : Text)
    (box : Rect) (anchor : Dump.MessageAnchor) (alloc : MessageAlloc) : Exec MessageServer :=
  if alloc.record = false then s.free (id, .position)
  else do
    let s := s.new (id, .record)
    if alloc.texture = false then
      let s ← s.free (id, .position)
      s.free (id, .record)
    else
      let s := s.new (id, .buffer)
      let (width, height) := s.messageSize textSize o text
      let box := placed anchor box width height
      if s.hasSceneOutput o = false then .ok (s.insertMessage o ⟨id, box, none⟩)
      else
        deref alloc.node
        let s := s.new (id, .node)
        .ok (s.insertMessage o ⟨id, box, some { box with
          x := box.x + (s.layoutBox o).x
          y := box.y + (s.layoutBox o).y }⟩)

/-- `alarm`. -/
def setAlarm (s : MessageServer) (seconds : ℤ) : MessageServer :=
  { s with alarm := seconds ≠ 0 }

/-- `message_printf`, for a text that has been formatted.  The memory for the text is
used before it is checked. -/
def messagePrintf (s : MessageServer) (textSize : Text → ℚ → ℕ × ℕ) (o : ℕ) (text : Text)
    (alloc : MessageAlloc) : Exec MessageServer :=
  if s.destroyed o = true ∨ s.messageConfig.enabled = 0 then .ok s
  else do
    deref alloc.text
    if alloc.position = false then .ok s
    else
      let id := s.next
      let box := anchorPoint s.messageConfig.anchor (s.layoutBox o) 0 0
      let s := { s with next := s.next + 1 }.new (id, .position)
      let s ← s.messageSetOutput textSize o id text box s.messageConfig.anchor alloc
      .ok (s.setAlarm s.messageConfig.displayTime)

/-- `message_printf_pos`, for the box of the message `id`. -/
def messagePrintfPos (s : MessageServer) (textSize : Text → ℚ → ℕ × ℕ) (o id : ℕ) (box : Rect)
    (anchor : Dump.MessageAnchor) (text : Text) (alloc : MessageAlloc) : Exec MessageServer :=
  if s.destroyed o = true ∨ s.messageConfig.enabled = 0 then s.free (id, .position)
  else do
    deref alloc.text
    let s ← s.messageSetOutput textSize o id text box anchor alloc
    .ok (s.setAlarm s.messageConfig.displayTime)

/-- `workspace_focus_tile`, apart from the tile. -/
def workspaceFocusTile (s : MessageServer) (textSize : Text → ℚ → ℕ × ℕ) (o : ℕ) (tile : Rect)
    (alloc : MessageAlloc) : Exec MessageServer :=
  if alloc.position = false then .ok s
  else
    let box := ⟨tile.x + tile.width.tdiv 2, tile.y + tile.height.tdiv 2, 0, 0⟩
    ({ s with next := s.next + 1 }.new (s.next, .position)).messagePrintfPos textSize o s.next box
      .center (ascii "Current tile") alloc

/-- One iteration of `message_clear`. -/
def clearMessage (s : MessageServer) (m : ScreenMessage) : Exec MessageServer := do
  -- `message->message` is followed
  deref m.shown.isSome
  let s ← s.free (m.id, .node)
  let s ← s.free (m.id, .position)
  let s ← s.free (m.id, .buffer)
  s.free (m.id, .record)

/-- `message_clear`. -/
def messageClear (s : MessageServer) (o : ℕ) : Exec MessageServer := do
  let s ← (s.messages o).foldlM clearMessage s
  .ok { s with messages := Function.update s.messages o [] }

/-- Handle one event. -/
def step (textSize : Text → ℚ → ℕ × ℕ) (s : MessageServer) : MessageEvent → Exec MessageServer
  | .print o text alloc => s.messagePrintf textSize o text alloc
  | .focusTile o tile alloc => s.workspaceFocusTile textSize o tile alloc
  | .clear o => s.messageClear o
  | .expire => .ok { s with alarm := false, signalled := s.alarm || s.signalled }
  | .signal =>
    if s.signalled then s.outputs.foldlM messageClear { s with signalled := false } else .ok s
  | .configure config =>
    .ok { s with messageConfig := keybindingConfigureMessage s.messageConfig config }
  | .enable o box scale scene =>
    .ok { s with
      outputs := if o ∈ s.outputs then s.outputs else s.outputs ++ [o]
      hasSceneOutput := Function.update s.hasSceneOutput o scene
      destroyed := Function.update s.destroyed o false
      layoutBox := Function.update s.layoutBox o box
      scale := Function.update s.scale o scale }
  | .remove o =>
    { s with
      outputs := s.outputs.erase o
      hasSceneOutput := Function.update s.hasSceneOutput o false }.messageClear o
  | .unplug o => .ok { s with destroyed := Function.update s.destroyed o true }

/-- The configuration that `main` begins with. -/
def initialConfig : Dump.MessageConfig where
  font := ascii "pango:Monospace 10"
  displayTime := 2
  bgColor := #v[.fin (mkRat 15099494 16777216), .fin (mkRat 14260634 16777216),
    .fin (mkRat 14260634 16777216), .fin 1]
  fgColor := (Vector.replicate 3 (.fin 0)).push (.fin 1)
  enabled := 1
  anchor := .topRight

/-- The server before the first output. -/
def init : MessageServer where
  outputs := []
  messages _ := []
  destroyed _ := false
  hasSceneOutput _ := false
  layoutBox _ := ⟨0, 0, 0, 0⟩
  scale _ := 1
  messageConfig := initialConfig
  heap := ∅
  next := 0
  alarm := false
  signalled := false

variable {s s' : MessageServer} {textSize : Text → ℚ → ℕ × ℕ} {o p id : ℕ} {m : ScreenMessage}
  {x : ℕ × MessagePart} {xs : List (ℕ × MessagePart)} {e : MessageEvent}

/-! ### The memory of the messages -/

/-- A part of a message of some output. -/
def Owned (s : MessageServer) (x : ℕ × MessagePart) : Prop :=
  ∃ o, ∃ m ∈ s.messages o, x.1 = m.id ∧ (x.2 = .node → m.shown.isSome = true)

/-- No two messages are the same, and outputs that are not in use have none. -/
structure Filed (s : MessageServer) : Prop where
  fresh : ∀ o, ∀ m ∈ s.messages o, m.id < s.next
  single : ∀ o p, ∀ m ∈ s.messages o, ∀ n ∈ s.messages p, m.id = n.id → o = p
  nodup : ∀ o, ((s.messages o).map ScreenMessage.id).Nodup
  listed : ∀ o, s.messages o ≠ [] → o ∈ s.outputs

/-- What is allocated is what the messages consist of, and `xs`. -/
def Holds (s : MessageServer) (xs : List (ℕ × MessagePart)) : Prop :=
  ∀ x, x ∈ s.heap ↔ x ∈ xs ∨ s.Owned x

/-- The memory in use is that of the messages. -/
structure Kept (s : MessageServer) : Prop where
  filed : s.Filed
  heap : s.Holds []
  anchor : s.messageConfig.anchor ≠ .noOpt

/-- Every message has a node. -/
def AllShown (s : MessageServer) : Prop := ∀ o, ∀ m ∈ s.messages o, m.shown.isSome = true

theorem free_of_mem (hx : x ∈ s.heap) : s.free x = .ok { s with heap := s.heap.erase x } :=
  if_pos hx

/-- The parts of one message are freed. -/
theorem clearMessage_exactly
    (hm : ∀ k, (k = .node → m.shown.isSome = true) → (m.id, k) ∈ s.heap) :
    Exactly (m.shown.isSome = true) (s.clearMessage m) fun s' => ∃ H,
      s' = { s with heap := H } ∧ ∀ x, x ∈ H ↔ x ∈ s.heap ∧ x.1 ≠ m.id := by
  rw [clearMessage]
  by_cases hshown : m.shown.isSome = true
  · have hnode : (m.id, MessagePart.node) ∈ s.heap := hm _ fun _ => hshown
    have hposition : (m.id, MessagePart.position) ∈ s.heap := hm _ (by simp)
    have hbuffer : (m.id, MessagePart.buffer) ∈ s.heap := hm _ (by simp)
    have hrecord : (m.id, MessagePart.record) ∈ s.heap := hm _ (by simp)
    rw [hshown, deref_eq_ok.mpr rfl, ok_bind, free_of_mem hnode, ok_bind,
      free_of_mem (by simp [hposition]), ok_bind, free_of_mem (by simp [hbuffer]), ok_bind,
      free_of_mem (by simp [hrecord])]
    refine (Exactly.ok ⟨_, rfl, fun x => ?_⟩).congr (by simp)
    obtain ⟨i, k⟩ := x
    by_cases hi : i = m.id
    · subst hi
      cases k <;> simp
    · simp [hi]
  · rw [Bool.not_eq_true] at hshown
    rw [hshown]
    exact .inr ⟨by simp, rfl⟩

/-- Some messages are freed one after the other. -/
theorem clearMessages_exactly {l : List ScreenMessage} (hn : (l.map ScreenMessage.id).Nodup)
    (hl : ∀ m ∈ l, ∀ k, (k = .node → m.shown.isSome = true) → (m.id, k) ∈ s.heap) :
    Exactly (∀ m ∈ l, m.shown.isSome = true) (l.foldlM clearMessage s) fun s' => ∃ H,
      s' = { s with heap := H } ∧ ∀ x, x ∈ H ↔ x ∈ s.heap ∧ ∀ m ∈ l, x.1 ≠ m.id := by
  induction l generalizing s with
  | nil => exact (Exactly.ok ⟨_, rfl, by simp⟩).congr (by simp)
  | cons m l ih =>
    rw [List.map_cons, List.nodup_cons] at hn
    rw [List.foldlM_cons]
    refine ((clearMessage_exactly (hl m List.mem_cons_self)).bind (e := ∀ m ∈ l,
      m.shown.isSome = true) ?_).congr List.forall_mem_cons
    rintro s₁ ⟨H, rfl, hH⟩
    refine (ih hn.2 ?_).mono ?_
    · intro n hmem k hk
      refine (hH _).mpr ⟨hl n (List.mem_cons_of_mem _ hmem) k hk, fun heq => hn.1 ?_⟩
      rw [← heq]
      exact List.mem_map_of_mem hmem
    · rintro s₂ ⟨H', rfl, hH'⟩
      refine ⟨H', rfl, fun x => ?_⟩
      rw [hH' x, List.forall_mem_cons]
      show x ∈ H ∧ _ ↔ _
      rw [hH x, and_assoc]

/-- The messages of `o` are gone, and it may be in use no more. -/
theorem Filed.cleared {t : MessageServer} (h : s.Filed)
    (hm : t.messages = Function.update s.messages o []) (hn : t.next = s.next)
    (ho : ∀ p, p ≠ o → p ∈ s.outputs → p ∈ t.outputs) : t.Filed := by
  have hsub : ∀ p, ∀ m ∈ t.messages p, m ∈ s.messages p := by
    intro p m hmem
    rw [hm] at hmem
    by_cases hp : p = o
    · subst hp
      rw [Function.update_self] at hmem
      exact absurd hmem List.not_mem_nil
    · rwa [Function.update_of_ne hp] at hmem
  refine ⟨?_, ?_, ?_, ?_⟩
  · intro p m hmem
    rw [hn]
    exact h.fresh p m (hsub p m hmem)
  · intro p q m hmem n hmem'
    exact h.single p q m (hsub p m hmem) n (hsub q n hmem')
  · intro p
    rw [hm]
    by_cases hp : p = o
    · subst hp
      rw [Function.update_self]
      exact List.nodup_nil
    · rw [Function.update_of_ne hp]
      exact h.nodup p
  · intro p hne
    rw [hm] at hne
    by_cases hp : p = o
    · subst hp
      rw [Function.update_self] at hne
      exact absurd rfl hne
    · rw [Function.update_of_ne hp] at hne
      exact ho p hp (h.listed p hne)

/-- **Clearing the messages of an output**, which may have been taken off the list
before. -/
theorem messageClear_exactly {t : MessageServer} (h : s.Kept) (hm : t.messages = s.messages)
    (hh : t.heap = s.heap) (hn : t.next = s.next) (hc : t.messageConfig = s.messageConfig)
    (ho : ∀ p, p ≠ o → p ∈ s.outputs → p ∈ t.outputs) :
    Exactly (∀ m ∈ s.messages o, m.shown.isSome = true) (t.messageClear o) fun s' => s'.Kept ∧
      ∃ H, s' = { t with heap := H, messages := Function.update s.messages o [] } := by
  have hheap := h.heap
  have hparts : ∀ m ∈ s.messages o, ∀ k, (k = .node → m.shown.isSome = true) →
      (m.id, k) ∈ t.heap := by
    intro m hmem k hk
    rw [hh]
    exact (hheap (m.id, k)).mpr (.inr ⟨o, m, hmem, rfl, hk⟩)
  rw [messageClear, hm]
  refine ((clearMessages_exactly (h.filed.nodup o) hparts).bind (e := True) ?_).congr (by simp)
  rintro s' ⟨H, rfl, hH⟩
  have hmsg : ({ t with heap := H } : MessageServer).messages = s.messages := hm
  refine Exactly.ok ⟨⟨h.filed.cleared ?_ hn ho, ?_, hc ▸ h.anchor⟩, H, ?_⟩
  · show Function.update t.messages o [] = _
    rw [hm]
  · intro x
    show x ∈ H ↔ x ∈ [] ∨ ∃ p, ∃ m ∈ Function.update t.messages o [] p, _
    rw [hH x, hh, hheap x, hm]
    constructor
    · rintro ⟨hx | ⟨p, m, hmem, hid, hk⟩, hout⟩
      · exact absurd hx List.not_mem_nil
      · refine .inr ⟨p, m, ?_, hid, hk⟩
        rw [Function.update_of_ne]
        · exact hmem
        · rintro rfl
          exact hout m hmem hid
    · rintro (hx | ⟨p, m, hmem, hid, hk⟩)
      · exact absurd hx List.not_mem_nil
      · by_cases hp : p = o
        · subst hp
          rw [Function.update_self] at hmem
          exact absurd hmem List.not_mem_nil
        · rw [Function.update_of_ne hp] at hmem
          refine ⟨.inr ⟨p, m, hmem, hid, hk⟩, fun n hn heq => hp ?_⟩
          exact h.filed.single p o m hmem n hn (hid.symm.trans heq)
  · rw [← hm]

/-! ### Printing a message -/

/-- The message that `message_set_output` puts on the output. -/
def newMessage (s : MessageServer) (textSize : Text → ℚ → ℕ × ℕ) (o id : ℕ) (text : Text)
    (box : Rect) (anchor : Dump.MessageAnchor) : ScreenMessage :=
  let size := s.messageSize textSize o text
  let box := placed anchor box size.1 size.2
  ⟨id, box, if s.hasSceneOutput o then
    some { box with x := box.x + (s.layoutBox o).x, y := box.y + (s.layoutBox o).y } else none⟩

/-- A message may be put on the output, and nothing else changes but the memory. -/
structure Printed (s : MessageServer) (o : ℕ) (m : ScreenMessage) (alloc : MessageAlloc)
    (s' : MessageServer) : Prop where
  kept : s'.Kept
  outputs : s'.outputs = s.outputs
  hasSceneOutput : s'.hasSceneOutput = s.hasSceneOutput
  messageConfig : s'.messageConfig = s.messageConfig
  signalled : s'.signalled = s.signalled
  messages : s'.messages = if alloc.record = true ∧ alloc.texture = true then
    Function.update s.messages o (m :: s.messages o) else s.messages

/-- The number `id` has been given out, but not to a message. -/
structure Unused (s : MessageServer) (id : ℕ) : Prop where
  lt : id < s.next
  ne : ∀ o, ∀ m ∈ s.messages o, m.id ≠ id

theorem Unused.not_owned (h : s.Unused id) {k : MessagePart} : ¬ s.Owned (id, k) := by
  rintro ⟨o, m, hm, hid, -⟩
  exact h.ne o m hm hid.symm

theorem Filed.insertMessage (h : s.Filed) (hm : s.Unused m.id) (ho : o ∈ s.outputs) :
    (s.insertMessage o m).Filed := by
  -- only the list of `o` gets longer, by `m`
  have hcases : ∀ p, ∀ n ∈ (s.insertMessage o m).messages p,
      p = o ∧ n = m ∨ n ∈ s.messages p := by
    intro p n hn
    by_cases hp : p = o
    · subst hp
      have hn' : n ∈ Function.update s.messages p (m :: s.messages p) p := hn
      rw [Function.update_self] at hn'
      obtain rfl | hn' := List.mem_cons.mp hn'
      · exact .inl ⟨rfl, rfl⟩
      · exact .inr hn'
    · have hn' : n ∈ Function.update s.messages o (m :: s.messages o) p := hn
      rw [Function.update_of_ne hp] at hn'
      exact .inr hn'
  refine ⟨?_, ?_, ?_, ?_⟩
  · intro p n hn
    obtain ⟨-, rfl⟩ | hold := hcases p n hn
    · exact hm.lt
    · exact h.fresh p n hold
  · intro p q n hn k hk hid
    obtain ⟨hp, hnm⟩ | hn := hcases p n hn <;> obtain ⟨hq, hkm⟩ | hk := hcases q k hk
    · exact hp.trans hq.symm
    · rw [hnm] at hid
      exact absurd hid.symm (hm.ne q k hk)
    · rw [hkm] at hid
      exact absurd hid (hm.ne p n hn)
    · exact h.single p q n hn k hk hid
  · intro p
    show ((Function.update s.messages o (m :: s.messages o) p).map ScreenMessage.id).Nodup
    by_cases hp : p = o
    · subst hp
      rw [Function.update_self, List.map_cons, List.nodup_cons]
      refine ⟨fun hmem => ?_, h.nodup p⟩
      obtain ⟨n, hn, hid⟩ := List.mem_map.mp hmem
      exact hm.ne p n hn hid
    · rw [Function.update_of_ne hp]
      exact h.nodup p
  · intro p hp
    by_cases hpo : p = o
    · subst hpo
      exact ho
    · refine h.listed p fun hnil => hp ?_
      show Function.update s.messages o (m :: s.messages o) p = []
      rw [Function.update_of_ne hpo]
      exact hnil

theorem insertMessage_owned :
    (s.insertMessage o m).Owned x ↔
      x.1 = m.id ∧ (x.2 = .node → m.shown.isSome = true) ∨ s.Owned x := by
  constructor
  · rintro ⟨p, n, hn, hid, hk⟩
    by_cases hp : p = o
    · subst hp
      have hn' : n ∈ Function.update s.messages p (m :: s.messages p) p := hn
      rw [Function.update_self] at hn'
      obtain rfl | hn' := List.mem_cons.mp hn'
      · exact .inl ⟨hid, hk⟩
      · exact .inr ⟨p, n, hn', hid, hk⟩
    · have hn' : n ∈ Function.update s.messages o (m :: s.messages o) p := hn
      rw [Function.update_of_ne hp] at hn'
      exact .inr ⟨p, n, hn', hid, hk⟩
  · rintro (⟨hid, hk⟩ | ⟨p, n, hn, hid, hk⟩)
    · refine ⟨o, m, ?_, hid, hk⟩
      show m ∈ Function.update s.messages o (m :: s.messages o) o
      rw [Function.update_self]
      exact List.mem_cons_self
    · refine ⟨p, n, ?_, hid, hk⟩
      show n ∈ Function.update s.messages o (m :: s.messages o) p
      by_cases hp : p = o
      · subst hp
        rw [Function.update_self]
        exact List.mem_cons_of_mem _ hn
      · rw [Function.update_of_ne hp]
        exact hn

/-- The box of a message is not needed any more. -/
theorem Holds.release (hh : s.Holds [(id, .position)]) (hu : s.Unused id) :
    ∀ x, x ∈ s.heap.erase (id, .position) ↔ x ∈ ([] : List (ℕ × MessagePart)) ∨ s.Owned x := by
  intro x
  rw [Finset.mem_erase, hh x, List.mem_singleton]
  constructor
  · rintro ⟨hne, heq | hx⟩
    · exact absurd heq hne
    · exact .inr hx
  · rintro (hx | hx)
    · exact absurd hx List.not_mem_nil
    · refine ⟨?_, .inr hx⟩
      rintro rfl
      exact hu.not_owned hx

/-- **`message_set_output`.** -/
theorem messageSetOutput_gives {text : Text} {box : Rect} {anchor : Dump.MessageAnchor}
    {alloc : MessageAlloc} (hf : s.Filed) (hh : s.Holds [(id, .position)]) (hu : s.Unused id)
    (hanchor : s.messageConfig.anchor ≠ .noOpt) (ho : o ∈ s.outputs) (hnode : alloc.node = true) :
    Gives (s.messageSetOutput textSize o id text box anchor alloc)
      (s.Printed o (s.newMessage textSize o id text box anchor) alloc) := by
  have hpos : (id, MessagePart.position) ∈ s.heap := (hh _).mpr (.inl List.mem_cons_self)
  refine Gives.ite (fun hrecord => ?_) fun hrecord => ?_
  · rw [free_of_mem hpos]
    refine Gives.ok ⟨⟨⟨hf.fresh, hf.single, hf.nodup, hf.listed⟩, hh.release hu, hanchor⟩,
      rfl, rfl, rfl, rfl, ?_⟩
    rw [if_neg (by simp [hrecord])]
  rw [Bool.not_eq_false] at hrecord
  refine Gives.ite (fun htexture => ?_) fun htexture => ?_
  · have hrec : (id, MessagePart.record) ∉ s.heap := by
      rw [hh, List.mem_singleton]
      rintro (heq | hx)
      · cases heq
      · exact hu.not_owned hx
    rw [free_of_mem (show _ ∈ insert _ s.heap from Finset.mem_insert_of_mem hpos), ok_bind,
      free_of_mem (show _ ∈ (insert _ s.heap).erase _ by simp)]
    have hheap : ((insert (id, MessagePart.record) s.heap).erase (id, .position)).erase
        (id, .record) = s.heap.erase (id, .position) := by
      rw [Finset.erase_right_comm, Finset.erase_insert hrec]
    refine Gives.ok ⟨⟨⟨hf.fresh, hf.single, hf.nodup, hf.listed⟩, ?_, hanchor⟩,
      rfl, rfl, rfl, rfl, ?_⟩
    · intro x
      show x ∈ ((insert (id, MessagePart.record) s.heap).erase (id, .position)).erase
        (id, .record) ↔ _
      rw [hheap]
      exact hh.release hu x
    · rw [if_neg (by simp [htexture])]
      rfl
  rw [Bool.not_eq_false] at htexture
  -- the message is put on the list of the output
  have hput : ∀ (H : Finset (ℕ × MessagePart)), (∀ x, x ∈ H ↔ x ∈ s.heap ∨ x.1 = id ∧
      (x.2 = .node → s.hasSceneOutput o = true)) →
      s.Printed o (s.newMessage textSize o id text box anchor) alloc
        ({ s with heap := H }.insertMessage o (s.newMessage textSize o id text box anchor)) := by
    intro H hH
    have hshown : (s.newMessage textSize o id text box anchor).shown.isSome =
        s.hasSceneOutput o := by
      show (if s.hasSceneOutput o = true then _ else _ : Option Rect).isSome = _
      cases s.hasSceneOutput o <;> rfl
    refine ⟨⟨?_, ?_, hanchor⟩, rfl, rfl, rfl, rfl, ?_⟩
    · refine Filed.insertMessage (s := { s with heap := H }) ?_ ⟨hu.lt, hu.ne⟩ ho
      exact ⟨hf.fresh, hf.single, hf.nodup, hf.listed⟩
    · intro x
      rw [insertMessage_owned, hshown]
      show x ∈ H ↔ _
      rw [hH x, hh x, List.mem_singleton]
      show _ ↔ x ∈ [] ∨ x.1 = id ∧ (x.2 = .node → s.hasSceneOutput o = true) ∨ s.Owned x
      constructor
      · rintro ((rfl | hx) | hx)
        · exact .inr (.inl ⟨rfl, by simp⟩)
        · exact .inr (.inr hx)
        · exact .inr (.inl hx)
      · rintro (hx | hx | hx)
        · exact absurd hx List.not_mem_nil
        · exact .inr hx
        · exact .inl (.inr hx)
    · rw [if_pos ⟨hrecord, htexture⟩]
      rfl
  cases hscene : s.hasSceneOutput o with
  | false =>
    refine Gives.ite (fun _ => ?_) fun hn => absurd hscene hn
    have hm : s.newMessage textSize o id text box anchor = ⟨id, placed anchor box
        (s.messageSize textSize o text).1 (s.messageSize textSize o text).2, none⟩ := by
      rw [newMessage, hscene]
      rfl
    have h := hput (insert (id, .buffer) (insert (id, .record) s.heap)) ?_
    · rw [hm] at h ⊢
      exact Gives.ok h
    · rintro ⟨i, k⟩
      by_cases hi : i = id
      · subst hi
        cases k <;> simp [hscene, hpos]
      · simp [hi]
  | true =>
    refine Gives.ite (fun hn => absurd (hscene.symm.trans hn) (by simp)) fun _ => ?_
    refine Gives.deref hnode ?_
    have hm : s.newMessage textSize o id text box anchor = ⟨id, placed anchor box
        (s.messageSize textSize o text).1 (s.messageSize textSize o text).2,
        some { placed anchor box (s.messageSize textSize o text).1
          (s.messageSize textSize o text).2 with
          x := (placed anchor box (s.messageSize textSize o text).1
            (s.messageSize textSize o text).2).x + (s.layoutBox o).x
          y := (placed anchor box (s.messageSize textSize o text).1
            (s.messageSize textSize o text).2).y + (s.layoutBox o).y }⟩ := by
      rw [newMessage, hscene]
      rfl
    have h := hput (insert (id, .node) (insert (id, .buffer) (insert (id, .record) s.heap))) ?_
    · rw [hm] at h ⊢
      exact Gives.ok h
    · rintro ⟨i, k⟩
      by_cases hi : i = id
      · subst hi
        cases k <;> simp [hscene, hpos]
      · simp [hi]

/-- The server once the box of the next message is allocated. -/
def withBox (s : MessageServer) : MessageServer :=
  { s with next := s.next + 1 }.new (s.next, .position)

theorem Kept.withBox (h : s.Kept) :
    s.withBox.Filed ∧ s.withBox.Holds [(s.next, .position)] ∧ s.withBox.Unused s.next := by
  refine ⟨⟨fun o m hm => Nat.lt_succ_of_lt (h.filed.fresh o m hm), h.filed.single, h.filed.nodup,
    h.filed.listed⟩, fun x => ?_, Nat.lt_succ_self _, fun o m hm => (h.filed.fresh o m hm).ne⟩
  show x ∈ insert (s.next, MessagePart.position) s.heap ↔ _
  rw [Finset.mem_insert, h.heap x, List.mem_singleton]
  simp only [List.not_mem_nil, false_or]
  rfl

/-- The outputs with messages wait for an alarm, or for its handler. -/
def Timed (s : MessageServer) : Prop :=
  ∀ o, s.messages o ≠ [] → s.alarm = true ∨ s.signalled = true

/-- The messages are printed to outputs in use, and the allocations that are not checked
succeed. -/
def Addressed (s : MessageServer) : MessageEvent → Prop
  | .print o _ alloc => o ∈ s.outputs ∧ alloc.text = true ∧ alloc.node = true
  | .focusTile o _ alloc => o ∈ s.outputs ∧ alloc.text = true ∧ alloc.node = true
  | _ => True

/-- The time for messages is not `0` when one is printed. -/
def Timely (s : MessageServer) : MessageEvent → Prop
  | .print _ _ _ => s.messageConfig.displayTime ≠ 0
  | .focusTile _ _ _ => s.messageConfig.displayTime ≠ 0
  | _ => True

/-- The output on which a message would be put. -/
def addsOn (s : MessageServer) (o : ℕ) (alloc : MessageAlloc) : Option ℕ :=
  if (s.destroyed o = true ∨ s.messageConfig.enabled = 0) ∨ alloc.position = false ∨
    ¬ (alloc.record = true ∧ alloc.texture = true) then none else some o

/-- The output that the event puts a message on. -/
def adds (s : MessageServer) : MessageEvent → Option ℕ
  | .print o _ alloc => s.addsOn o alloc
  | .focusTile o _ alloc => s.addsOn o alloc
  | _ => none

/-- The outputs whose messages are cleared. -/
def clears (s : MessageServer) : MessageEvent → List ℕ
  | .clear o => [o]
  | .remove o => [o]
  | .signal => if s.signalled then s.outputs else []
  | _ => []

/-- What an event leads to: the memory is that of the messages; all have nodes unless one
is put on an output without a scene output; and an alarm is set for them. -/
structure Result (s : MessageServer) (e : MessageEvent) (s' : MessageServer) : Prop where
  kept : s'.Kept
  shown : s.AllShown → (s'.AllShown ↔ ∀ o, s.adds e = some o → s.hasSceneOutput o = true)
  timed : s.Timed → s.Timely e → s'.Timed

theorem Kept.congr (h : s.Kept) (hm : s'.messages = s.messages) (hn : s'.next = s.next)
    (ho : ∀ o ∈ s.outputs, o ∈ s'.outputs) (hh : s'.heap = s.heap)
    (ha : s'.messageConfig.anchor ≠ .noOpt) : s'.Kept := by
  refine ⟨⟨?_, ?_, ?_, ?_⟩, ?_, ha⟩
  · rw [hm, hn]
    exact h.filed.fresh
  · rw [hm]
    exact h.filed.single
  · rw [hm]
    exact h.filed.nodup
  · rw [hm]
    exact fun o hne => ho o (h.filed.listed o hne)
  · intro x
    rw [hh, Owned, hm]
    exact h.heap x

/-- The events that leave the messages as they are. -/
theorem Result.of_same (h : s.Kept) (hadds : s.adds e = none) (hm : s'.messages = s.messages)
    (hn : s'.next = s.next) (ho : ∀ o ∈ s.outputs, o ∈ s'.outputs) (hh : s'.heap = s.heap)
    (ha : s'.messageConfig.anchor ≠ .noOpt)
    (hwait : s.alarm = true ∨ s.signalled = true → s'.alarm = true ∨ s'.signalled = true) :
    s.Result e s' := by
  refine ⟨h.congr hm hn ho hh ha, fun hall => ?_, fun ht _ o hne => ?_⟩
  · rw [AllShown, hm, hadds]
    exact ⟨fun _ => by simp, fun _ => hall⟩
  · rw [hm] at hne
    exact hwait (ht o hne)

/-- A message has been put on an output, and the alarm set. -/
theorem Printed.result {alloc : MessageAlloc} {t : MessageServer}
    (hp : Printed t o m alloc s') (hmsg : t.messages = s.messages)
    (hconf : t.messageConfig = s.messageConfig)
    (hadds : s.adds e = if alloc.record = true ∧ alloc.texture = true then some o else none)
    (hm : m.shown.isSome = s.hasSceneOutput o)
    (htime : s.Timely e → s.messageConfig.displayTime ≠ 0) :
    s.Result e (s'.setAlarm s'.messageConfig.displayTime) := by
  have hanchor := hp.kept.anchor
  refine ⟨hp.kept.congr rfl rfl (fun _ => id) rfl hanchor, fun hall => ?_, fun _ ht o' _ => ?_⟩
  · rw [hadds]
    show (∀ q, ∀ n ∈ s'.messages q, n.shown.isSome = true) ↔ _
    rw [hp.messages, hmsg]
    by_cases ha : alloc.record = true ∧ alloc.texture = true
    · rw [if_pos ha, if_pos ha]
      constructor
      · rintro h q ⟨⟩
        rw [← hm]
        refine h o m ?_
        rw [Function.update_self]
        exact List.mem_cons_self
      · intro h q n hn
        by_cases hq : q = o
        · subst hq
          rw [Function.update_self] at hn
          obtain rfl | hn := List.mem_cons.mp hn
          · rw [hm]
            exact h q rfl
          · exact hall q n hn
        · rw [Function.update_of_ne hq] at hn
          exact hall q n hn
    · rw [if_neg ha, if_neg ha]
      exact ⟨fun _ => by simp, fun _ => hall⟩
  · refine .inl (decide_eq_true ?_)
    rw [hp.messageConfig, hconf]
    exact htime ht

theorem newMessage_shown {text : Text} {box : Rect} {anchor : Dump.MessageAnchor} :
    (s.newMessage textSize o id text box anchor).shown.isSome = s.hasSceneOutput o := by
  show (if s.hasSceneOutput o = true then _ else _ : Option Rect).isSome = _
  cases s.hasSceneOutput o <;> rfl

/-- **`message_printf`.** -/
theorem messagePrintf_gives {text : Text} {alloc : MessageAlloc} (h : s.Kept)
    (ho : o ∈ s.outputs) (htext : alloc.text = true) (hnode : alloc.node = true) :
    Gives (s.messagePrintf textSize o text alloc) (s.Result (.print o text alloc)) := by
  refine Gives.ite (fun hoff => ?_) fun hon => Gives.deref htext (Gives.ite (fun hbox => ?_) ?_)
  · refine Gives.ok (Result.of_same h ?_ rfl rfl (fun _ => id) rfl h.anchor id)
    rw [adds, addsOn, if_pos (.inl hoff)]
  · refine Gives.ok (Result.of_same h ?_ rfl rfl (fun _ => id) rfl h.anchor id)
    rw [adds, addsOn, if_pos (.inr (.inl hbox))]
  · intro hbox
    obtain ⟨hf, hh, hu⟩ := h.withBox
    refine (messageSetOutput_gives hf hh hu h.anchor ho hnode).bind fun s' hp => Gives.ok ?_
    refine hp.result rfl rfl ?_ newMessage_shown id
    rw [adds, addsOn]
    by_cases ha : alloc.record = true ∧ alloc.texture = true
    · rw [if_pos ha, if_neg (by simp [hon, hbox, ha])]
    · rw [if_neg ha, if_pos (.inr (.inr ha))]

/-- **`workspace_focus_tile`.** -/
theorem workspaceFocusTile_gives {tile : Rect} {alloc : MessageAlloc} (h : s.Kept)
    (ho : o ∈ s.outputs) (htext : alloc.text = true) (hnode : alloc.node = true) :
    Gives (s.workspaceFocusTile textSize o tile alloc) (s.Result (.focusTile o tile alloc)) := by
  obtain ⟨hf, hh, hu⟩ := h.withBox
  refine Gives.ite (fun hbox => ?_) fun hbox => Gives.ite (fun hoff => ?_) fun hon =>
    Gives.deref htext ?_
  · refine Gives.ok (Result.of_same h ?_ rfl rfl (fun _ => id) rfl h.anchor id)
    rw [adds, addsOn, if_pos (.inr (.inl hbox))]
  · -- the box is freed
    have hpos : (s.next, MessagePart.position) ∈ s.withBox.heap :=
      (hh _).mpr (.inl List.mem_cons_self)
    have hkept : ({ s.withBox with heap := s.withBox.heap.erase (s.next, .position) } :
        MessageServer).Kept :=
      ⟨⟨hf.fresh, hf.single, hf.nodup, hf.listed⟩, hh.release hu, h.anchor⟩
    refine Gives.mono (P := fun s' => s' = { s.withBox with
      heap := s.withBox.heap.erase (s.next, .position) }) ⟨_, free_of_mem hpos, rfl⟩ ?_
    rintro s' rfl
    refine ⟨hkept, fun hall => ?_, fun ht _ => ht⟩
    rw [adds, addsOn, if_pos (.inl hoff)]
    exact ⟨fun _ => by simp, fun _ => hall⟩
  · refine (messageSetOutput_gives hf hh hu h.anchor ho hnode).bind fun s' hp => Gives.ok ?_
    refine hp.result rfl rfl ?_ newMessage_shown id
    rw [adds, addsOn]
    by_cases ha : alloc.record = true ∧ alloc.texture = true
    · rw [if_pos ha, if_neg]
      rintro (hoff | hn | hn)
      · exact hon hoff
      · exact hbox hn
      · exact hn ha
    · rw [if_neg ha, if_pos (.inr (.inr ha))]

/-! ### Runs -/

/-- The messages of some outputs are cleared one after the other. -/
theorem messageClears_exactly {l : List ℕ} (h : s.Kept) :
    Exactly (∀ o ∈ l, ∀ m ∈ s.messages o, m.shown.isSome = true) (l.foldlM messageClear s)
      fun s' => s'.Kept ∧ (∀ o, s'.messages o = if o ∈ l then [] else s.messages o) ∧
        s'.alarm = s.alarm ∧ s'.signalled = s.signalled := by
  induction l generalizing s with
  | nil => exact (Exactly.ok ⟨h, fun o => by simp, rfl, rfl⟩).congr (by simp)
  | cons o l ih =>
    rw [List.foldlM_cons]
    refine ((messageClear_exactly h rfl rfl rfl rfl fun _ _ => id).bind (e := ∀ p ∈ l, p ≠ o →
      ∀ m ∈ s.messages p, m.shown.isSome = true) ?_).congr ?_
    · rintro s₁ ⟨hkept, H, rfl⟩
      refine ((ih hkept).congr ?_).mono ?_
      · refine forall₂_congr fun p _ => ?_
        show _ ↔ ∀ m ∈ Function.update s.messages o [] p, _
        by_cases hp : p = o
        · subst hp
          rw [Function.update_self]
          simp
        · rw [Function.update_of_ne hp]
          simp [hp]
      · rintro s₂ ⟨hkept', hm, ha, hsig⟩
        refine ⟨hkept', fun p => ?_, ha, hsig⟩
        rw [hm p]
        show (if p ∈ l then [] else Function.update s.messages o [] p) = _
        by_cases hp : p = o
        · subst hp
          rw [Function.update_self]
          simp
        · rw [Function.update_of_ne hp]
          simp [hp]
    · rw [List.forall_mem_cons]
      refine and_congr_right fun ho => forall₂_congr fun p _ => ?_
      constructor
      · exact fun hp _ => hp
      · intro hp
        by_cases hpo : p = o
        · subst hpo
          exact ho
        · exact hp hpo

/-- Messages are cleared, and nothing is put on an output. -/
theorem Result.of_cleared {l : List ℕ} (hadds : s.adds e = none) (hk : s'.Kept)
    (hm : ∀ o, s'.messages o = if o ∈ l then [] else s.messages o)
    (hwait : s.Timed → s'.Timed) : s.Result e s' := by
  refine ⟨hk, fun hall => ?_, fun ht _ => hwait ht⟩
  rw [hadds]
  refine ⟨fun _ => by simp, fun _ o m hmem => ?_⟩
  rw [hm o] at hmem
  split at hmem
  · exact absurd hmem List.not_mem_nil
  · exact hall o m hmem

/-- **One event.**  It is undefined exactly if it clears a message without a node. -/
theorem step_exactly (textSize : Text → ℚ → ℕ × ℕ) (h : s.Kept) (ha : s.Addressed e) :
    Exactly (∀ o ∈ s.clears e, ∀ m ∈ s.messages o, m.shown.isSome = true) (s.step textSize e)
      (s.Result e) := by
  have hnone : ∀ {m : Exec MessageServer}, s.clears e = [] → Gives m (s.Result e) →
      Exactly (∀ o ∈ s.clears e, ∀ m ∈ s.messages o, m.shown.isSome = true) m (s.Result e) := by
    intro m hc hg
    rw [hc]
    exact (Exactly.of_gives hg).congr (by simp)
  have hclear : ∀ {t : MessageServer} {o : ℕ}, t.messages = s.messages → t.heap = s.heap →
      t.next = s.next → t.messageConfig = s.messageConfig →
      (∀ p, p ≠ o → p ∈ s.outputs → p ∈ t.outputs) → t.alarm = s.alarm →
      t.signalled = s.signalled → s.clears e = [o] → s.adds e = none →
      Exactly (∀ o ∈ s.clears e, ∀ m ∈ s.messages o, m.shown.isSome = true) (t.messageClear o)
        (s.Result e) := by
    intro t o hm hh hn hc ho halarm hsig hclears hadds
    rw [hclears]
    refine ((messageClear_exactly h hm hh hn hc ho).congr (by simp)).mono ?_
    rintro s' ⟨hkept, H, rfl⟩
    refine Result.of_cleared (l := [o]) hadds hkept (fun p => ?_) fun ht p hne => ?_
    · show Function.update s.messages o [] p = _
      rw [Function.update_apply]
      simp
    · show t.alarm = true ∨ t.signalled = true
      rw [halarm, hsig]
      refine ht p fun hnil => hne ?_
      show Function.update s.messages o [] p = []
      rw [Function.update_apply, hnil, ite_self]
  cases e with
  | print o text alloc => exact hnone rfl (messagePrintf_gives h ha.1 ha.2.1 ha.2.2)
  | focusTile o tile alloc => exact hnone rfl (workspaceFocusTile_gives h ha.1 ha.2.1 ha.2.2)
  | clear o => exact hclear rfl rfl rfl rfl (fun _ _ => id) rfl rfl rfl rfl
  | expire =>
    refine hnone rfl (Gives.ok (Result.of_same h rfl rfl rfl (fun _ => id) rfl h.anchor ?_))
    rintro (hal | hs)
    · exact .inr (by simp [hal])
    · exact .inr (by simp [hs])
  | signal =>
    rw [clears, step]
    by_cases hs : s.signalled = true
    · rw [if_pos hs, if_pos hs]
      have hkept : ({ s with signalled := false } : MessageServer).Kept :=
        h.congr rfl rfl (fun _ => id) rfl h.anchor
      refine (messageClears_exactly hkept).mono ?_
      rintro s' ⟨hkept', hm, -, -⟩
      refine Result.of_cleared (l := s.outputs) rfl hkept' hm fun _ o hne => absurd ?_ hne
      -- no output is left out
      rw [hm o]
      split
      · rfl
      · next hout =>
        by_contra hmsg
        exact hout (h.filed.listed o hmsg)
    · rw [if_neg hs, if_neg hs]
      refine (Exactly.of_gives (Gives.ok ?_)).congr (by simp)
      exact Result.of_same h rfl rfl rfl (fun _ => id) rfl h.anchor id
  | configure config =>
    refine hnone rfl (Gives.ok (Result.of_same h rfl rfl rfl (fun _ => id) rfl ?_ id))
    rw [keybindingConfigureMessage]
    cases hanchor : config.anchor <;> simp [h.anchor]
  | enable o box scale scene =>
    refine hnone rfl (Gives.ok (Result.of_same h rfl rfl rfl ?_ rfl h.anchor id))
    intro p hp
    show p ∈ if o ∈ s.outputs then s.outputs else s.outputs ++ [o]
    split
    · exact hp
    · exact List.mem_append_left _ hp
  | remove o =>
    refine hclear rfl rfl rfl rfl (fun p hp hmem => ?_) rfl rfl rfl rfl
    exact (List.mem_erase_of_ne hp).mpr hmem
  | unplug o =>
    exact hnone rfl (Gives.ok (Result.of_same h rfl rfl rfl (fun _ => id) rfl h.anchor id))

theorem init_kept : init.Kept := by
  refine ⟨⟨?_, ?_, ?_, ?_⟩, ?_, by simp [init, initialConfig]⟩
  · intro o m hm
    exact absurd hm List.not_mem_nil
  · intro o p m hm
    exact absurd hm List.not_mem_nil
  · intro o
    exact List.nodup_nil
  · intro o hne
    exact absurd rfl hne
  · intro x
    simp [init, Owned]

theorem kept_of_steps (hs : Steps (step textSize) Addressed init s) : s.Kept :=
  hs.invariant init_kept fun _ _ h ha => ((step_exactly textSize h ha).ends).2.mono
    fun _ hr => hr.2.kept

/-- **The memory of the messages.**  In all runs that print to outputs in use, what is
allocated is what the messages consist of, each of them once; and an event is undefined
exactly if it clears a message that has been printed to an output without a scene
output. -/
theorem messages_owned (hs : Steps (step textSize) Addressed init s) :
    s.Kept ∧ ∀ e, s.Addressed e → ((∃ s', s.step textSize e = .ok s') ↔
      ∀ o ∈ s.clears e, ∀ m ∈ s.messages o, m.shown.isSome = true) := by
  have h := kept_of_steps hs
  refine ⟨h, fun e ha => ?_⟩
  rcases step_exactly textSize h ha with ⟨hall, s', hs', -⟩ | ⟨hall, herr⟩
  · exact ⟨fun _ => hall, fun _ => ⟨s', hs'⟩⟩
  · refine ⟨?_, fun hn => absurd hn hall⟩
    rintro ⟨s', hs'⟩
    rw [herr] at hs'
    cases hs'

/-- A message on an output without a scene output cannot be cleared. -/
theorem messages_owned_hidden :
    ∃ s : MessageServer, s.Kept ∧ ¬ ∃ s', s.step (fun _ _ => (4, 6)) (.clear 0) = .ok s' := by
  have hon : Steps (step fun _ _ => (4, 6)) Addressed init _ :=
    Steps.tail (e := MessageEvent.enable 0 ⟨0, 0, 100, 50⟩ 1 false) .refl trivial rfl
  have hs := hon.tail (e := MessageEvent.print 0 [65] ⟨true, true, true, true, true⟩)
    ⟨List.mem_cons_self, rfl, rfl⟩ rfl
  obtain ⟨hkept, hstep⟩ := messages_owned hs
  refine ⟨_, hkept, fun hex => ?_⟩
  have hshown := (hstep (.clear 0) trivial).mp hex 0 List.mem_cons_self _ List.mem_cons_self
  cases hshown

/-- **Messages expire.**  If messages are printed to outputs with a scene output, and the
time for them is not `0`, no event is undefined, an alarm is set as long as there are
messages, and none is left once it is handled. -/
theorem messages_expire
    (hs : Steps (step textSize) (fun s e => s.Addressed e ∧ s.Timely e ∧
      ∀ o, s.adds e = some o → s.hasSceneOutput o = true) init s) :
    (∀ e, s.Addressed e → ∃ s', s.step textSize e = .ok s') ∧ s.Timed ∧
      ∀ s', s.signalled = true → s.step textSize .signal = .ok s' → ∀ o, s'.messages o = [] := by
  have h : s.Kept ∧ s.AllShown ∧ s.Timed := by
    refine hs.invariant (I := fun s => s.Kept ∧ s.AllShown ∧ s.Timed)
      ⟨init_kept, fun o m hm => absurd hm List.not_mem_nil, fun o hne => absurd rfl hne⟩ ?_
    rintro t e ⟨hkept, hall, ht⟩ ⟨ha, htime, hscene⟩
    refine ((step_exactly textSize hkept ha).ends).2.mono ?_
    rintro t' ⟨-, hr⟩
    exact ⟨hr.kept, (hr.shown hall).mpr hscene, hr.timed ht htime⟩
  obtain ⟨hkept, hall, ht⟩ := h
  refine ⟨fun e ha => ?_, ht, fun s' hsig hs' o => ?_⟩
  · obtain ⟨s', hs', -⟩ := (step_exactly textSize hkept ha).gives
      fun o _ m hm => hall o m hm
    exact ⟨s', hs'⟩
  · have hoff : ({ s with signalled := false } : MessageServer).Kept :=
      hkept.congr rfl rfl (fun _ => id) rfl hkept.anchor
    have hstep : s.outputs.foldlM messageClear { s with signalled := false } = .ok s' := by
      rwa [step, if_pos hsig] at hs'
    have hm := (((messageClears_exactly hoff).ends).2 s' hstep).2.2.1 o
    rw [hm]
    split
    · rfl
    · next hout =>
      by_contra hne
      exact hout (hkept.filed.listed o hne)

/-- The alarm for a message is handled. -/
theorem messages_expire_one :
    ∃ s s' : MessageServer, s.messages 0 ≠ [] ∧
      s.step (fun _ _ => (4, 6)) .signal = .ok s' ∧ ∀ o, s'.messages o = [] := by
  have hon : Steps (step fun _ _ => (4, 6)) (fun s e => s.Addressed e ∧ s.Timely e ∧
      ∀ o, s.adds e = some o → s.hasSceneOutput o = true) init _ :=
    Steps.tail (e := MessageEvent.enable 0 ⟨0, 0, 100, 50⟩ 1 true) .refl
      ⟨trivial, trivial, by simp [adds]⟩ rfl
  have hprint := hon.tail (e := MessageEvent.print 0 [65] ⟨true, true, true, true, true⟩)
    ⟨⟨List.mem_cons_self, rfl, rfl⟩, by simp [Timely, init, initialConfig], ?_⟩ rfl
  · have hs := hprint.tail (e := MessageEvent.expire) ⟨trivial, trivial, by simp [adds]⟩ rfl
    obtain ⟨hdefined, -, hnone⟩ := messages_expire hs
    obtain ⟨s', hs'⟩ := hdefined .signal trivial
    exact ⟨_, s', List.cons_ne_nil _ _, hs', hnone s' rfl hs'⟩
  · rintro o ho
    cases ho
    rfl

/-! ### Where messages are placed -/

/-- The box is inside of a frame at the origin. -/
def Fits (r : Rect) (width height : ℤ) : Prop :=
  0 ≤ r.x ∧ r.x + r.width ≤ width ∧ 0 ≤ r.y ∧ r.y + r.height ≤ height

/-- Half of a length is subtracted from half of a longer one. -/
theorem half_sub_half_iff {a b : ℤ} (ha : 0 ≤ a) (hb : 0 ≤ b) :
    0 ≤ a.tdiv 2 - b.tdiv 2 ∧ a.tdiv 2 - b.tdiv 2 + b ≤ a ↔ b ≤ a := by
  rw [Int.tdiv_eq_ediv_of_nonneg ha, Int.tdiv_eq_ediv_of_nonneg hb]
  omega

/-- **Placing a message.**  It is inside of the output exactly if it is not larger. -/
theorem placed_fits_iff {anchor : Dump.MessageAnchor} {output : Rect} {width height x y : ℤ}
    (hanchor : anchor ≠ .noOpt) (hw : 0 ≤ width) (hh : 0 ≤ height) (how : 0 ≤ output.width)
    (hoh : 0 ≤ output.height) :
    Fits (placed anchor (anchorPoint anchor output x y) width height) output.width output.height ↔
      width ≤ output.width ∧ height ≤ output.height := by
  have hmidw := half_sub_half_iff how hw
  have hmidh := half_sub_half_iff hoh hh
  cases anchor <;> simp only [Fits, placed, anchorPoint] <;>
    first | exact absurd rfl hanchor | omega

theorem messageSize_nonneg (textSize : Text → ℚ → ℕ × ℕ) (text : Text) (hscale : 0 < s.scale o) :
    0 ≤ (s.messageSize textSize o text).1 ∧ 0 ≤ (s.messageSize textSize o text).2 := by
  constructor
  · exact Int.floor_nonneg.mpr (div_nonneg (Nat.cast_nonneg _) hscale.le)
  · exact Int.floor_nonneg.mpr (div_nonneg (Nat.cast_nonneg _) hscale.le)

/-- **Messages are visible.**  In every run, a message that is printed is inside of its
output exactly if it is not larger, whatever the anchor. -/
theorem print_fits_iff {text : Text} {alloc : MessageAlloc}
    (hs : Steps (step textSize) Addressed init s) (ha : s.Addressed (.print o text alloc))
    (hadds : s.adds (.print o text alloc) = some o) (hscale : 0 < s.scale o)
    (how : 0 ≤ (s.layoutBox o).width) (hoh : 0 ≤ (s.layoutBox o).height) :
    Gives (s.step textSize (.print o text alloc)) fun s' => ∃ m,
      s'.messages o = m :: s.messages o ∧
        (Fits m.position (s.layoutBox o).width (s.layoutBox o).height ↔
          (s.messageSize textSize o text).1 ≤ (s.layoutBox o).width ∧
            (s.messageSize textSize o text).2 ≤ (s.layoutBox o).height) := by
  have hkept := kept_of_steps hs
  have hcond : ¬ ((s.destroyed o = true ∨ s.messageConfig.enabled = 0) ∨ alloc.position = false ∨
      ¬ (alloc.record = true ∧ alloc.texture = true)) := by
    intro hn
    rw [adds, addsOn, if_pos hn] at hadds
    cases hadds
  simp only [not_or, not_not] at hcond
  obtain ⟨hon, hbox, halloc⟩ := hcond
  refine Gives.ite (fun hoff => absurd hoff (not_or.mpr hon)) fun _ => Gives.deref ha.2.1 ?_
  refine Gives.ite (fun hn => absurd hn hbox) fun _ => ?_
  obtain ⟨hf, hh, hu⟩ := hkept.withBox
  refine (messageSetOutput_gives hf hh hu hkept.anchor ha.1 ha.2.2).bind ?_
  intro s' hp
  have hmsg : s'.messages o = s.newMessage textSize o s.next text
      (anchorPoint s.messageConfig.anchor (s.layoutBox o) 0 0) s.messageConfig.anchor ::
        s.messages o := by
    rw [hp.messages, if_pos halloc, Function.update_self]
    rfl
  have hsize := messageSize_nonneg textSize text hscale
  exact Gives.ok ⟨_, hmsg, placed_fits_iff hkept.anchor hsize.1 hsize.2 how hoh⟩

/-- A message of one letter on an output. -/
theorem print_fits_iff_letter :
    ∃ s s' : MessageServer, ∃ m ∈ s'.messages 0, Fits m.position 100 50 ∧
      s.step (fun _ _ => (4, 6)) (.print 0 [65] ⟨true, true, true, true, true⟩) = .ok s' := by
  have hs : Steps (step fun _ _ => (4, 6)) Addressed init _ :=
    Steps.tail (e := MessageEvent.enable 0 ⟨0, 0, 100, 50⟩ 1 true) .refl trivial rfl
  obtain ⟨s', hs', m, hm, hfit⟩ := print_fits_iff hs
    (show Addressed _ (.print 0 [65] ⟨true, true, true, true, true⟩) from
      ⟨List.mem_cons_self, rfl, rfl⟩) rfl (by simp) (by simp) (by simp)
  refine ⟨_, s', m, by simp [hm], hfit.mpr ?_, hs'⟩
  constructor <;> simp [messageSize]

end MessageServer

end Cagebreak
