/-
The devices of the seat.

A device that is plugged in is added to the seat, which counts its keyboards, pointers
and touch screens and tells its clients what it is capable of.  A keyboard joins the
first group with its keymap and its repeat information, unless it is virtual, or gets a
group of its own.  The last keyboard that leaves a group ends it.

* `devices_wired` — in all runs, whichever allocations fail, groups and keyboards refer to
  each other, no group is empty, and no device or group that is freed is used;
* `capabilities_counted` — what the capabilities of the seat say about its devices;
* `keyboards_apart` — when a virtual keyboard is alone in its group;
* `handleDestroy_gives` — the end of the seat leaves nothing behind.

The image of the cursor is left out, and with it `seat->xcursor_manager`.
-/
import Cagebreak.Lib.Exec
import Cagebreak.KeyboardGroups
import Mathlib.Data.Finset.Basic

namespace Cagebreak

open Exec

/-- `struct cg_input_device`, with what the seat uses of its `struct wlr_keyboard`. -/
structure SeatDevice where
  type : WlrInputDeviceType
  isVirtual : Bool
  identifier : Text
  keymap : Option Text
  repeatRate : ℤ
  repeatDelay : ℤ
  /-- `wlr_keyboard->group` -/
  group : Option ℕ
  /-- `device->pointer`, or `device->touch`, is not `NULL` -/
  record : Bool

/-- `struct cg_keyboard_group`, with its `struct wlr_keyboard_group`. -/
structure SeatGroup where
  config : KeyboardGroup
  keymap : Option Text
  devices : List ℕ

/-- `wlr_seat_get_keyboard`. -/
inductive SeatKeyboard
  | device (d : ℕ)
  | group (g : ℕ)
  deriving DecidableEq

/-- `enum wl_seat_capability`. -/
structure Capabilities where
  keyboard : Bool
  pointer : Bool
  touch : Bool
  deriving DecidableEq

/-- Which of the allocations for a device succeed. -/
structure DeviceAlloc where
  device : Bool
  /-- the XKB context and the keymap -/
  xkb : Bool
  group : Bool
  wlrGroup : Bool
  /-- the `struct cg_pointer` or `struct cg_touch` -/
  record : Bool

/-- The seat and its devices. -/
structure SeatDevices where
  /-- `input->devices` -/
  devices : List ℕ
  device : ℕ → SeatDevice
  next : ℕ
  /-- `seat->keyboard_groups` -/
  groups : List ℕ
  group : ℕ → SeatGroup
  nextGroup : ℕ
  /-- the `struct cg_keyboard_group` that are allocated -/
  cgGroups : Finset ℕ
  /-- the `struct wlr_keyboard_group` that are allocated -/
  wlrGroups : Finset ℕ
  /-- the groups that are freed when the event loop is idle -/
  idle : List ℕ
  numKeyboards : UInt16
  numPointers : UInt16
  numTouch : UInt16
  capabilities : Capabilities
  /-- the devices of the cursor -/
  attached : Finset ℕ
  keyboard : Option SeatKeyboard
  inputConfig : List InputConfig
  /-- what `xkb_map_new_from_names` gives -/
  defaultKeymap : Text

/-- What happens to the devices. -/
inductive DeviceEvent
  | plug (type : WlrInputDeviceType) (isVirtual : Bool) (identifier : Text)
    (repeatRate repeatDelay : ℤ) (alloc : DeviceAlloc)
  /-- a device is unplugged; a key of it that is down may be released by this -/
  | unplug (d : ℕ) (down : Bool)
  /-- the client of a virtual keyboard sends a keymap -/
  | keymap (d : ℕ) (k : Text)
  /-- a key of the group is passed on to the client -/
  | key (g : ℕ)
  | configure (config : InputConfig)
  | idle

def SeatDevice.isKeyboard (v : SeatDevice) : Bool := v.type = .keyboard

def SeatDevice.isPointer (v : SeatDevice) : Bool := v.type = .pointer && v.record

def SeatDevice.isTouch (v : SeatDevice) : Bool := v.type = .touch && v.record

/-- A keyboard is plugged in, but there is no keymap for it.  It is not counted. -/
def DeviceEvent.keymapless : DeviceEvent → Bool
  | .plug type _ _ _ _ alloc => type = .keyboard && alloc.device && !alloc.xkb
  | _ => false

namespace SeatDevices

/-- The device with another record. -/
def setDevice (s : SeatDevices) (d : ℕ) (v : SeatDevice) : SeatDevices :=
  { s with device := Function.update s.device d v }

def setGroup (s : SeatDevices) (g : ℕ) (v : SeatGroup) : SeatDevices :=
  { s with group := Function.update s.group g v }

/-! ### Keyboard groups, in wlroots -/

/-- `wlr_keyboard_group_add_keyboard` of wlroots, where it succeeds: the keyboard is in the
group. -/
def join (s : SeatDevices) (d g : ℕ) : SeatDevices :=
  (s.setDevice d { s.device d with group := some g }).setGroup g
    { s.group g with devices := d :: (s.group g).devices }

/-- `wlr_keyboard_group_remove_keyboard` of wlroots: the keyboard is in no group, and its keys
that are down are released, by which the group may become the keyboard of the seat. -/
def leave (s : SeatDevices) (d g : ℕ) (down : Bool) : SeatDevices :=
  let s := if down then { s with keyboard := some (.group g) } else s
  (s.setDevice d { s.device d with group := none }).setGroup g
    { s.group g with devices := (s.group g).devices.erase d }

/-- A keyboard has a new keymap, which wlroots gives to all keyboards of its group. -/
def setKeymap (s : SeatDevices) (d : ℕ) (k : Text) : SeatDevices :=
  { s with
    device := fun e =>
      if e = d ∨ (s.device d).group ≠ none ∧ (s.device e).group = (s.device d).group then
        { s.device e with keymap := some k }
      else s.device e
    group := fun g =>
      if (s.device d).group = some g then { s.group g with keymap := some k } else s.group g }

/-! ### The functions of the seat -/

/-- `update_capabilities`, apart from the image of the cursor. -/
def updateCapabilities (s : SeatDevices) : SeatDevices :=
  { s with capabilities := ⟨s.numKeyboards > 0, s.numPointers > 0, s.numTouch > 0⟩ }

/-- The test of the loop of `cg_keyboard_group_add`.  A keyboard that is in a group cannot
be added to another one. -/
def takes (s : SeatDevices) (d g : ℕ) : Bool :=
  (s.device d).keymap = (s.group g).keymap &&
    (s.device d).repeatRate = (s.group g).config.repeatRate &&
    (s.device d).repeatDelay = (s.group g).config.repeatDelay &&
    (s.device d).group = none

/-- A group with the keymap and the repeat information of the keyboard, which joins it. -/
def newGroup (s : SeatDevices) (d : ℕ) : SeatDevices :=
  let g := s.nextGroup
  let s := s.setGroup g ⟨cgInputManagerConfigureKeyboardGroup s.inputConfig
    ⟨(s.device d).identifier, 1, (s.device d).repeatRate, (s.device d).repeatDelay⟩,
    (s.device d).keymap, []⟩
  { s with
    groups := g :: s.groups
    nextGroup := g + 1
    cgGroups := insert g s.cgGroups
    wlrGroups := insert g s.wlrGroups }.join d g

/-- `cg_keyboard_group_add`. -/
def cgKeyboardGroupAdd (s : SeatDevices) (d : ℕ) (alloc : DeviceAlloc) :
    SeatDevices :=
  let found := if (s.device d).isVirtual then none else s.groups.find? (s.takes d)
  match found with
  | some g => s.join d g
  | none => if alloc.group = false ∨ alloc.wlrGroup = false then s else s.newGroup d

/-- `new_keyboard`. -/
def newKeyboard (s : SeatDevices) (d : ℕ) (alloc : DeviceAlloc) : SeatDevices :=
  if alloc.xkb = false then s
  else
    let s := s.setDevice d { s.device d with keymap := some s.defaultKeymap }
    let s := s.cgKeyboardGroupAdd d alloc
    { s with numKeyboards := s.numKeyboards + 1, keyboard := some (.device d) }

/-- `new_pointer`. -/
def newPointer (s : SeatDevices) (d : ℕ) (alloc : DeviceAlloc) : SeatDevices :=
  if alloc.record = false then s
  else
    let s := s.setDevice d { s.device d with record := true }
    { s with attached := insert d s.attached, numPointers := s.numPointers + 1 }

/-- `new_touch`. -/
def newTouch (s : SeatDevices) (d : ℕ) (alloc : DeviceAlloc) : SeatDevices :=
  if alloc.record = false then s
  else
    let s := s.setDevice d { s.device d with record := true }
    { s with attached := insert d s.attached, numTouch := s.numTouch + 1 }

/-- `seat_add_device`. -/
def seatAddDevice (s : SeatDevices) (d : ℕ) (alloc : DeviceAlloc) : SeatDevices :=
  match (s.device d).type with
  | .keyboard => (s.newKeyboard d alloc).updateCapabilities
  | .pointer => (s.newPointer d alloc).updateCapabilities
  | .touch => (s.newTouch d alloc).updateCapabilities
  | .switch => s
  | .tablet => s
  | .tabletPad => s

/-- The device is on the list. -/
def listed (s : SeatDevices) (v : SeatDevice) : SeatDevices :=
  { s.setDevice s.next v with devices := s.next :: s.devices, next := s.next + 1 }

/-- `new_input`. -/
def newInput (s : SeatDevices) (v : SeatDevice) (alloc : DeviceAlloc) : SeatDevices :=
  if alloc.device = false then s else (s.listed v).seatAddDevice s.next alloc

/-- The part of `remove_keyboard` for a group without keyboards. -/
def endGroup (s : SeatDevices) (g : ℕ) : Exec SeatDevices := do
  let s := if s.keyboard = some (.group g) then { s with keyboard := none } else s
  deref (g ∈ s.cgGroups)
  .ok { s with
    groups := s.groups.erase g
    cgGroups := s.cgGroups.erase g
    idle := s.idle ++ [g] }

/-- `remove_keyboard`. -/
def removeKeyboard (s : SeatDevices) (d : ℕ) (down : Bool) : Exec SeatDevices := do
  let s ← ifSome (s.device d).group s fun g => do
    deref (g ∈ s.wlrGroups)
    let s := s.leave d g down
    if (s.group g).devices = [] then s.endGroup g else .ok s
  .ok { s with numKeyboards := s.numKeyboards - 1 }

/-- `remove_pointer`, and `device->pointer = NULL`. -/
def removePointer (s : SeatDevices) (d : ℕ) : SeatDevices :=
  if (s.device d).record = false then s
  else
    let s := s.setDevice d { s.device d with record := false }
    { s with attached := s.attached.erase d, numPointers := s.numPointers - 1 }

/-- `remove_touch`, and `device->touch = NULL`. -/
def removeTouch (s : SeatDevices) (d : ℕ) : SeatDevices :=
  if (s.device d).record = false then s
  else
    let s := s.setDevice d { s.device d with record := false }
    { s with attached := s.attached.erase d, numTouch := s.numTouch - 1 }

/-- `seat_remove_device`. -/
def seatRemoveDevice (s : SeatDevices) (d : ℕ) (down : Bool) :
    Exec SeatDevices :=
  match (s.device d).type with
  | .keyboard => do
    let s ← s.removeKeyboard d down
    .ok s.updateCapabilities
  | .pointer => .ok (s.removePointer d).updateCapabilities
  | .touch => .ok (s.removeTouch d).updateCapabilities
  | .switch => .ok s
  | .tablet => .ok s
  | .tabletPad => .ok s

/-- `input_manager_handle_device_destroy`. -/
def inputManagerHandleDeviceDestroy (s : SeatDevices) (d : ℕ) (down : Bool) :
    Exec SeatDevices := do
  let s ← s.seatRemoveDevice d down
  .ok { s with devices := s.devices.erase d }

/-- `destroy_empty_wlr_keyboard_group`. -/
def destroyEmptyWlrKeyboardGroup (s : SeatDevices) (g : ℕ) : Exec SeatDevices := do
  deref (g ∈ s.wlrGroups)
  .ok { s with wlrGroups := s.wlrGroups.erase g }

/-- An `input` command for the groups: they are configured with all records. -/
def configureGroups (s : SeatDevices) (config : InputConfig) : SeatDevices :=
  let inputConfig := inputManagerMergeInputConfigs config emptyInputConfig :: s.inputConfig
  { s with
    inputConfig
    group := fun g => if g ∈ s.groups then
      { s.group g with
        config := cgInputManagerConfigureKeyboardGroup inputConfig (s.group g).config }
      else s.group g }

/-- Handle one event. -/
def step (s : SeatDevices) : DeviceEvent → Exec SeatDevices
  | .plug type isVirtual identifier rate delay alloc =>
    .ok (s.newInput ⟨type, isVirtual, identifier, none, rate, delay, none, false⟩ alloc)
  | .unplug d down =>
    if d ∈ s.devices then do
      let s ← s.inputManagerHandleDeviceDestroy d down
      -- the seat hears of the end of its keyboard
      .ok { s with keyboard := if s.keyboard = some (.device d) then none else s.keyboard }
    else .ok s
  | .keymap d k =>
    if d ∈ s.devices ∧ (s.device d).type = .keyboard ∧ (s.device d).isVirtual = true then
      .ok (s.setKeymap d k)
    else .ok s
  | .key g => if g ∈ s.groups then .ok { s with keyboard := some (.group g) } else .ok s
  | .configure config => .ok (s.configureGroups config)
  | .idle => do
    let s ← s.idle.foldlM destroyEmptyWlrKeyboardGroup s
    .ok { s with idle := [] }

/-- A group that is freed with the seat.  Its keyboards are in no group then. -/
def destroyGroup (s : SeatDevices) (g : ℕ) : Exec SeatDevices := do
  deref (g ∈ s.cgGroups ∧ g ∈ s.wlrGroups)
  .ok { s with
    device := fun d =>
      if (s.device d).group = some g then { s.device d with group := none } else s.device d
    groups := s.groups.erase g
    cgGroups := s.cgGroups.erase g
    wlrGroups := s.wlrGroups.erase g
    keyboard := if s.keyboard = some (.group g) then none else s.keyboard }

/-- `handle_destroy`, from the loop over the groups on: no key is down on a keyboard that
is in no group. -/
def handleDestroy (s : SeatDevices) : Exec SeatDevices := do
  let s ← s.groups.foldlM destroyGroup s
  -- the keyboard of the seat is not asked for any more
  s.devices.foldlM (fun s d => s.inputManagerHandleDeviceDestroy d false)
    { s with keyboard := none }

/-- `seat_create`. -/
def init (defaultKeymap : Text) : SeatDevices where
  devices := []
  device _ := ⟨.keyboard, false, [], none, 25, 600, none, false⟩
  next := 0
  groups := []
  group _ := ⟨⟨[], 1, 25, 600⟩, none, []⟩
  nextGroup := 0
  cgGroups := ∅
  wlrGroups := ∅
  idle := []
  numKeyboards := 0
  numPointers := 0
  numTouch := 0
  capabilities := ⟨false, false, false⟩
  attached := ∅
  keyboard := none
  inputConfig := []
  defaultKeymap := defaultKeymap

variable {s s' : SeatDevices} {d e g : ℕ} {hole : Option ℕ} {k : Text}
  {v : SeatDevice} {alloc : DeviceAlloc} {ev : DeviceEvent}

/-! ### Keyboards and groups -/

/-- Keyboards and groups refer to each other; no group but `hole` is empty. -/
structure Linked (s : SeatDevices) (hole : Option ℕ) : Prop where
  nodup : s.devices.Nodup
  fresh : ∀ d ∈ s.devices, d < s.next
  link : ∀ d ∈ s.devices, ∀ g, (s.device d).group = some g ↔
    g ∈ s.groups ∧ d ∈ (s.group g).devices
  member : ∀ g ∈ s.groups, ∀ d ∈ (s.group g).devices,
    d ∈ s.devices ∧ (s.device d).type = .keyboard
  members : ∀ g ∈ s.groups, (s.group g).devices.Nodup
  nonempty : ∀ g ∈ s.groups, hole ≠ some g → (s.group g).devices ≠ []
  keymap : ∀ g ∈ s.groups, ∀ d ∈ (s.group g).devices, (s.device d).keymap = (s.group g).keymap

/-- The memory of the groups in use, and of those that are to be freed. -/
structure Stored (s : SeatDevices) : Prop where
  nodup : (s.groups ++ s.idle).Nodup
  fresh : ∀ g ∈ s.groups ++ s.idle, g < s.nextGroup
  cg : ∀ g, g ∈ s.cgGroups ↔ g ∈ s.groups
  wlr : ∀ g, g ∈ s.wlrGroups ↔ g ∈ s.groups ∨ g ∈ s.idle

/-- The keyboard of the seat is a device, or a group, that is there. -/
def KeyboardLive (s : SeatDevices) : Prop :=
  match s.keyboard with
  | none => True
  | some (.device d) => d ∈ s.devices
  | some (.group g) => g ∈ s.groups

/-- The devices of the cursor are the pointers and touch screens that have a record. -/
structure Attached (s : SeatDevices) : Prop where
  attached : ∀ d, d ∈ s.attached ↔ d ∈ s.devices ∧ (s.device d).record = true
  record : ∀ d ∈ s.devices, (s.device d).record = true →
    (s.device d).type = .pointer ∨ (s.device d).type = .touch

/-- Devices, groups and the seat fit together. -/
structure Wired (s : SeatDevices) : Prop where
  linked : s.Linked none
  stored : s.Stored
  keyboard : s.KeyboardLive
  attached : s.Attached

@[simp] theorem setDevice_device_self : (s.setDevice d v).device d = v := Function.update_self ..

@[simp] theorem setDevice_numPointers : (s.setDevice d v).numPointers = s.numPointers := rfl

@[simp] theorem setDevice_numTouch : (s.setDevice d v).numTouch = s.numTouch := rfl

theorem setDevice_device_of_ne (h : e ≠ d) : (s.setDevice d v).device e = s.device e :=
  Function.update_of_ne h ..

@[simp] theorem setGroup_group_self {w : SeatGroup} : (s.setGroup g w).group g = w :=
  Function.update_self ..

theorem setGroup_group_of_ne {w : SeatGroup} {f : ℕ} (h : f ≠ g) :
    (s.setGroup g w).group f = s.group f :=
  Function.update_of_ne h ..

/-- A keyboard without a group is in none. -/
theorem Linked.not_member (h : s.Linked hole) (hd : d ∈ s.devices)
    (hnone : (s.device d).group = none) (hg : g ∈ s.groups) : d ∉ (s.group g).devices := by
  intro hmem
  have := (h.link d hd g).mpr ⟨hg, hmem⟩
  rw [hnone] at this
  cases this

/-- A keyboard joins a group. -/
theorem Linked.join (h : s.Linked hole) (hd : d ∈ s.devices) (htype : (s.device d).type = .keyboard)
    (hnone : (s.device d).group = none) (hg : g ∈ s.groups) (hhole : hole = none ∨ hole = some g)
    (hk : (s.device d).keymap = (s.group g).keymap) : (s.join d g).Linked none := by
  have hout : d ∉ (s.group g).devices := h.not_member hd hnone hg
  have hdev : ∀ e, e ≠ d → (s.join d g).device e = s.device e := fun e he =>
    setDevice_device_of_ne he
  have hself : (s.join d g).device d = { s.device d with group := some g } := setDevice_device_self
  have hgrp : ∀ f, f ≠ g → (s.join d g).group f = s.group f := fun f hf => setGroup_group_of_ne hf
  have hgself : (s.join d g).group g = { s.group g with devices := d :: (s.group g).devices } :=
    setGroup_group_self
  -- only the device and the group that it joins change
  refine ⟨h.nodup, h.fresh, ?_, ?_, ?_, ?_, ?_⟩
  · intro e he f
    show _ ↔ f ∈ s.groups ∧ _
    by_cases hed : e = d
    · subst hed
      rw [hself]
      constructor
      · rintro ⟨⟩
        rw [hgself]
        exact ⟨hg, List.mem_cons_self⟩
      · rintro ⟨hf, hmem⟩
        by_cases hfg : f = g
        · rw [hfg]
        · rw [hgrp f hfg] at hmem
          exact absurd hmem (h.not_member hd hnone hf)
    · rw [hdev e hed, h.link e he f]
      by_cases hfg : f = g
      · subst hfg
        rw [hgself]
        simp [hed]
      · rw [hgrp f hfg]
  · intro f hf e hmem
    show e ∈ s.devices ∧ _
    by_cases hed : e = d
    · subst hed
      rw [hself]
      exact ⟨hd, htype⟩
    · rw [hdev e hed]
      refine h.member f hf e ?_
      by_cases hfg : f = g
      · subst hfg
        rw [hgself] at hmem
        exact (List.mem_cons.mp hmem).resolve_left hed
      · rwa [hgrp f hfg] at hmem
  · intro f hf
    by_cases hfg : f = g
    · subst hfg
      rw [hgself]
      exact List.nodup_cons.mpr ⟨hout, h.members f hf⟩
    · rw [hgrp f hfg]
      exact h.members f hf
  · intro f hf _
    by_cases hfg : f = g
    · subst hfg
      rw [hgself]
      exact List.cons_ne_nil _ _
    · rw [hgrp f hfg]
      refine h.nonempty f hf ?_
      rintro rfl
      rcases hhole with hh | hh
      · cases hh
      · exact hfg (Option.some.inj hh)
  · intro f hf e hmem
    by_cases hfg : f = g
    · subst hfg
      rw [hgself] at hmem ⊢
      by_cases hed : e = d
      · subst hed
        rw [hself]
        exact hk
      · rw [hdev e hed]
        exact h.keymap f hf e ((List.mem_cons.mp hmem).resolve_left hed)
    · rw [hgrp f hfg] at hmem ⊢
      have hed : e ≠ d := by
        rintro rfl
        exact h.not_member hd hnone hf hmem
      rw [hdev e hed]
      exact h.keymap f hf e hmem

/-- A keyboard leaves its group, which may be empty then. -/
theorem Linked.leave (h : s.Linked none) (down : Bool) (hd : d ∈ s.devices)
    (hg : (s.device d).group = some g) : (s.leave d g down).Linked (some g) := by
  obtain ⟨hgs, hmem⟩ := (h.link d hd g).mp hg
  have hdev : ∀ e, e ≠ d → (s.leave d g down).device e = s.device e := by
    intro e he
    cases down <;> exact setDevice_device_of_ne he
  have hself : (s.leave d g down).device d = { s.device d with group := none } := by
    cases down <;> exact setDevice_device_self
  have hgrp : ∀ f, f ≠ g → (s.leave d g down).group f = s.group f := by
    intro f hf
    cases down <;> exact setGroup_group_of_ne hf
  have hgself : (s.leave d g down).group g =
      { s.group g with devices := (s.group g).devices.erase d } := by
    cases down <;> exact setGroup_group_self
  have hdevices : (s.leave d g down).devices = s.devices := by
    cases down <;> rfl
  have hgroups : (s.leave d g down).groups = s.groups := by
    cases down <;> rfl
  have hnext : (s.leave d g down).next = s.next := by
    cases down <;> rfl
  -- `d` has been in `g` alone, and is in no group any more
  have hin : ∀ f e, f ∈ s.groups → e ∈ ((s.leave d g down).group f).devices →
      e ≠ d ∧ e ∈ (s.group f).devices := by
    intro f e hf he
    by_cases hfg : f = g
    · subst hfg
      rw [hgself] at he
      exact (h.members f hf).mem_erase_iff.mp he
    · rw [hgrp f hfg] at he
      refine ⟨?_, he⟩
      rintro rfl
      have := (h.link e hd f).mpr ⟨hf, he⟩
      rw [hg] at this
      exact hfg (Option.some.inj this).symm
  refine ⟨?_, ?_, ?_, ?_, ?_, ?_, ?_⟩
  · rw [hdevices]
    exact h.nodup
  · rw [hdevices, hnext]
    exact h.fresh
  · rw [hdevices, hgroups]
    intro e he f
    by_cases hed : e = d
    · subst hed
      rw [hself]
      constructor
      · intro hn
        cases hn
      · rintro ⟨hf, hmem'⟩
        exact absurd rfl (hin f e hf hmem').1
    · rw [hdev e hed, h.link e he f]
      by_cases hfg : f = g
      · subst hfg
        rw [hgself]
        show _ ↔ _ ∧ e ∈ (s.group f).devices.erase d
        rw [(h.members f hgs).mem_erase_iff]
        simp [hed]
      · rw [hgrp f hfg]
  · rw [hdevices, hgroups]
    intro f hf e he
    obtain ⟨hed, hmem'⟩ := hin f e hf he
    rw [hdev e hed]
    exact h.member f hf e hmem'
  · rw [hgroups]
    intro f hf
    by_cases hfg : f = g
    · subst hfg
      rw [hgself]
      exact (h.members f hf).erase _
    · rw [hgrp f hfg]
      exact h.members f hf
  · rw [hgroups]
    intro f hf hne
    rw [hgrp f fun heq => hne (congrArg some heq.symm)]
    exact h.nonempty f hf (by simp)
  · rw [hgroups]
    intro f hf e he
    obtain ⟨hed, hmem'⟩ := hin f e hf he
    rw [hdev e hed, h.keymap f hf e hmem']
    by_cases hfg : f = g
    · subst hfg
      rw [hgself]
    · rw [hgrp f hfg]

/-- The devices and groups are the same, but for what they are set to. -/
theorem Linked.congr (h : s.Linked hole) (hd : s'.devices = s.devices) (hn : s'.next = s.next)
    (hg : s'.groups = s.groups) (hm : ∀ g ∈ s.groups, (s'.group g).devices = (s.group g).devices)
    (hdev : ∀ d ∈ s.devices, (s'.device d).group = (s.device d).group ∧
      (s'.device d).type = (s.device d).type)
    (hk : ∀ g ∈ s.groups, ∀ d ∈ (s.group g).devices, (s'.device d).keymap = (s'.group g).keymap) :
    s'.Linked hole := by
  refine ⟨?_, ?_, ?_, ?_, ?_, ?_, ?_⟩
  · rw [hd]
    exact h.nodup
  · rw [hd, hn]
    exact h.fresh
  · rw [hd, hg]
    intro d hmem g
    rw [(hdev d hmem).1, h.link d hmem g]
    refine and_congr_right fun hgs => ?_
    rw [hm g hgs]
  · rw [hd, hg]
    intro g hgs d hmem
    rw [hm g hgs] at hmem
    have hold := h.member g hgs d hmem
    rw [(hdev d hold.1).2]
    exact hold
  · rw [hg]
    intro g hgs
    rw [hm g hgs]
    exact h.members g hgs
  · rw [hg]
    intro g hgs
    rw [hm g hgs]
    exact h.nonempty g hgs
  · rw [hg]
    intro g hgs d hmem
    rw [hm g hgs] at hmem
    exact hk g hgs d hmem

/-- A device that is in no group is set to something else. -/
theorem Linked.setDevice (h : s.Linked hole) (hd : d ∈ s.devices)
    (hnone : (s.device d).group = none) (hv : v.group = none)
    (htype : v.type = (s.device d).type) : (s.setDevice d v).Linked hole := by
  refine h.congr rfl rfl rfl (fun _ _ => rfl) ?_ ?_
  · intro e _
    by_cases hed : e = d
    · subst hed
      rw [setDevice_device_self, hv, hnone, htype]
      exact ⟨rfl, rfl⟩
    · rw [setDevice_device_of_ne hed]
      exact ⟨rfl, rfl⟩
  · intro g hg e hmem
    have hed : e ≠ d := by
      rintro rfl
      exact h.not_member hd hnone hg hmem
    rw [setDevice_device_of_ne hed]
    exact h.keymap g hg e hmem

/-- A new device is in no group. -/
theorem Linked.added (h : s.Linked none) (hv : v.group = none) :
    (s.listed v).Linked none := by
  have hne : ∀ d ∈ s.devices, d ≠ s.next := fun d hd => (h.fresh d hd).ne
  refine ⟨?_, ?_, ?_, ?_, h.members, h.nonempty, ?_⟩
  · exact List.nodup_cons.mpr ⟨fun hmem => hne _ hmem rfl, h.nodup⟩
  · intro d hd
    obtain rfl | hd := List.mem_cons.mp hd
    · exact Nat.lt_succ_self _
    · exact Nat.lt_succ_of_lt (h.fresh d hd)
  · intro d hd g
    show ((s.setDevice s.next v).device d).group = some g ↔ _
    obtain rfl | hd := List.mem_cons.mp hd
    · rw [setDevice_device_self, hv]
      constructor
      · intro hn
        cases hn
      · rintro ⟨hg, hmem⟩
        exact absurd rfl (hne _ (h.member g hg _ hmem).1)
    · rw [setDevice_device_of_ne (hne d hd)]
      exact h.link d hd g
  · intro g hg d hmem
    have hold := h.member g hg d hmem
    show d ∈ s.next :: s.devices ∧ ((s.setDevice s.next v).device d).type = _
    rw [setDevice_device_of_ne (hne d hold.1)]
    exact ⟨List.mem_cons_of_mem _ hold.1, hold.2⟩
  · intro g hg d hmem
    show ((s.setDevice s.next v).device d).keymap = _
    rw [setDevice_device_of_ne (hne d (h.member g hg d hmem).1)]
    exact h.keymap g hg d hmem

/-- A device that is in no group is taken off the list. -/
theorem Linked.removed {keyboard : Option SeatKeyboard} (h : s.Linked none)
    (hd : d ∈ s.devices) (hnone : (s.device d).group = none) :
    ({ s with devices := s.devices.erase d, keyboard } : SeatDevices).Linked none := by
  have hmem : ∀ e, e ∈ s.devices.erase d ↔ e ≠ d ∧ e ∈ s.devices := fun e =>
    h.nodup.mem_erase_iff
  refine ⟨h.nodup.erase _, ?_, ?_, ?_, h.members, h.nonempty, h.keymap⟩
  · intro e he
    exact h.fresh e ((hmem e).mp he).2
  · intro e he
    exact h.link e ((hmem e).mp he).2
  · intro g hg e he
    refine ⟨(hmem e).mpr ⟨?_, (h.member g hg e he).1⟩, (h.member g hg e he).2⟩
    rintro rfl
    exact h.not_member hd hnone hg he

/-- A group that no keyboard is in. -/
theorem Linked.withGroup {w : SeatGroup} (h : s.Linked none) (hg : g ∉ s.groups)
    (hw : w.devices = []) {f : ℕ} {cg wlr : Finset ℕ} :
    ({ s.setGroup g w with
      groups := g :: s.groups
      nextGroup := f
      cgGroups := cg
      wlrGroups := wlr } : SeatDevices).Linked (some g) := by
  have hne : ∀ f ∈ s.groups, f ≠ g := by
    rintro f hf rfl
    exact hg hf
  refine ⟨h.nodup, h.fresh, ?_, ?_, ?_, ?_, ?_⟩
  · intro d hd f
    show (s.device d).group = some f ↔ f ∈ g :: s.groups ∧ d ∈ ((s.setGroup g w).group f).devices
    by_cases hf : f = g
    · subst hf
      rw [setGroup_group_self, hw]
      constructor
      · intro heq
        exact absurd ((h.link d hd f).mp heq).1 hg
      · rintro ⟨-, hmem⟩
        exact absurd hmem List.not_mem_nil
    · rw [setGroup_group_of_ne hf, h.link d hd f, List.mem_cons]
      simp [hf]
  · intro f hf d hmem
    have hmem' : d ∈ ((s.setGroup g w).group f).devices := hmem
    obtain rfl | hf := List.mem_cons.mp hf
    · rw [setGroup_group_self, hw] at hmem'
      exact absurd hmem' List.not_mem_nil
    · rw [setGroup_group_of_ne (hne f hf)] at hmem'
      exact h.member f hf d hmem'
  · intro f hf
    show ((s.setGroup g w).group f).devices.Nodup
    obtain rfl | hf := List.mem_cons.mp hf
    · rw [setGroup_group_self, hw]
      exact List.nodup_nil
    · rw [setGroup_group_of_ne (hne f hf)]
      exact h.members f hf
  · intro f hf hhole
    show ((s.setGroup g w).group f).devices ≠ []
    obtain rfl | hf := List.mem_cons.mp hf
    · exact absurd rfl hhole
    · rw [setGroup_group_of_ne (hne f hf)]
      exact h.nonempty f hf (by simp)
  · intro f hf d hmem
    have hmem' : d ∈ ((s.setGroup g w).group f).devices := hmem
    show (s.device d).keymap = ((s.setGroup g w).group f).keymap
    obtain rfl | hf := List.mem_cons.mp hf
    · rw [setGroup_group_self, hw] at hmem'
      exact absurd hmem' List.not_mem_nil
    · rw [setGroup_group_of_ne (hne f hf)] at hmem' ⊢
      exact h.keymap f hf d hmem'

/-- A group that no keyboard is in any more is taken off the list. -/
theorem Linked.withoutGroup {keyboard : Option SeatKeyboard} {cg : Finset ℕ} {idle : List ℕ}
    (h : s.Linked (some g)) (hn : s.groups.Nodup) (hempty : (s.group g).devices = []) :
    ({ s with
      keyboard := keyboard
      groups := s.groups.erase g
      cgGroups := cg
      idle := idle } : SeatDevices).Linked none := by
  have hmem : ∀ f, f ∈ s.groups.erase g ↔ f ≠ g ∧ f ∈ s.groups := fun f => hn.mem_erase_iff
  refine ⟨h.nodup, h.fresh, ?_, ?_, ?_, ?_, ?_⟩
  · intro d hd f
    show (s.device d).group = some f ↔ f ∈ s.groups.erase g ∧ d ∈ (s.group f).devices
    rw [h.link d hd f, hmem f]
    constructor
    · rintro ⟨hf, hdf⟩
      refine ⟨⟨?_, hf⟩, hdf⟩
      rintro rfl
      rw [hempty] at hdf
      exact absurd hdf List.not_mem_nil
    · rintro ⟨⟨-, hf⟩, hdf⟩
      exact ⟨hf, hdf⟩
  · intro f hf
    exact h.member f ((hmem f).mp hf).2
  · intro f hf
    exact h.members f ((hmem f).mp hf).2
  · intro f hf _
    refine h.nonempty f ((hmem f).mp hf).2 fun heq => ((hmem f).mp hf).1 ?_
    exact (Option.some.inj heq).symm
  · intro f hf
    exact h.keymap f ((hmem f).mp hf).2

/-! ### Adding a device -/

/-- The devices are of the same kinds, and counted the same. -/
structure SameKinds (s s' : SeatDevices) : Prop where
  devices : s'.devices = s.devices
  next : s'.next = s.next
  type : ∀ d, (s'.device d).type = (s.device d).type
  isVirtual : ∀ d, (s'.device d).isVirtual = (s.device d).isVirtual
  record : ∀ d, (s'.device d).record = (s.device d).record
  attached : s'.attached = s.attached
  numKeyboards : s'.numKeyboards = s.numKeyboards
  numPointers : s'.numPointers = s.numPointers
  numTouch : s'.numTouch = s.numTouch
  defaultKeymap : s'.defaultKeymap = s.defaultKeymap

theorem SameKinds.refl : SameKinds s s :=
  ⟨rfl, rfl, fun _ => rfl, fun _ => rfl, fun _ => rfl, rfl, rfl, rfl, rfl, rfl⟩

theorem SameKinds.trans {s'' : SeatDevices} (h : SameKinds s s') (h' : SameKinds s' s'') :
    SameKinds s s'' where
  devices := h'.devices.trans h.devices
  next := h'.next.trans h.next
  type d := (h'.type d).trans (h.type d)
  isVirtual d := (h'.isVirtual d).trans (h.isVirtual d)
  record d := (h'.record d).trans (h.record d)
  attached := h'.attached.trans h.attached
  numKeyboards := h'.numKeyboards.trans h.numKeyboards
  numPointers := h'.numPointers.trans h.numPointers
  numTouch := h'.numTouch.trans h.numTouch
  defaultKeymap := h'.defaultKeymap.trans h.defaultKeymap

/-- Setting a device to something of its kind. -/
theorem SameKinds.setDevice (ht : v.type = (s.device d).type)
    (hv : v.isVirtual = (s.device d).isVirtual) (hr : v.record = (s.device d).record) :
    SameKinds s (s.setDevice d v) := by
  refine ⟨rfl, rfl, ?_, ?_, ?_, rfl, rfl, rfl, rfl, rfl⟩ <;>
  · intro e
    by_cases hed : e = d
    · subst hed
      rw [setDevice_device_self]
      assumption
    · rw [setDevice_device_of_ne hed]

theorem join_kinds : SameKinds s (s.join d g) := by
  have h : SameKinds s (s.setDevice d { s.device d with group := some g }) :=
    SameKinds.setDevice rfl rfl rfl
  exact h.trans ⟨rfl, rfl, fun _ => rfl, fun _ => rfl, fun _ => rfl, rfl, rfl, rfl, rfl, rfl⟩

theorem newGroup_kinds : SameKinds s (s.newGroup d) := by
  refine SameKinds.trans ?_ join_kinds
  exact ⟨rfl, rfl, fun _ => rfl, fun _ => rfl, fun _ => rfl, rfl, rfl, rfl, rfl, rfl⟩

theorem Attached.congr (h : s.Attached) (hs : SameKinds s s') : s'.Attached where
  attached d := by
    rw [hs.attached, hs.devices, hs.record]
    exact h.attached d
  record d := by
    rw [hs.devices, hs.record, hs.type]
    exact h.record d

theorem Wired.join (h : s.Wired) (hd : d ∈ s.devices) (htype : (s.device d).type = .keyboard)
    (hnone : (s.device d).group = none) (hg : g ∈ s.groups)
    (hk : (s.device d).keymap = (s.group g).keymap) : (s.join d g).Wired where
  linked := h.linked.join hd htype hnone hg (.inl rfl) hk
  stored := ⟨h.stored.nodup, h.stored.fresh, h.stored.cg, h.stored.wlr⟩
  keyboard := h.keyboard
  attached := h.attached.congr join_kinds

theorem Stored.not_next (h : s.Stored) : s.nextGroup ∉ s.groups := by
  intro hmem
  exact (h.fresh _ (List.mem_append_left _ hmem)).ne rfl

theorem Wired.newGroup (h : s.Wired) (hd : d ∈ s.devices)
    (htype : (s.device d).type = .keyboard) (hnone : (s.device d).group = none) :
    (s.newGroup d).Wired := by
  have hout := h.stored.not_next
  have hidle : s.nextGroup ∉ s.idle := fun hmem =>
    (h.stored.fresh _ (List.mem_append_right _ hmem)).ne rfl
  refine ⟨?_, ⟨?_, ?_, ?_, ?_⟩, ?_, h.attached.congr newGroup_kinds⟩
  · refine Linked.join (h.linked.withGroup hout rfl) hd htype hnone List.mem_cons_self (.inr rfl) ?_
    show (s.device d).keymap = ((s.setGroup s.nextGroup _).group s.nextGroup).keymap
    rw [setGroup_group_self]
  · show (s.nextGroup :: s.groups ++ s.idle).Nodup
    rw [List.cons_append, List.nodup_cons, List.mem_append, not_or]
    exact ⟨⟨hout, hidle⟩, h.stored.nodup⟩
  · show ∀ g ∈ s.nextGroup :: s.groups ++ s.idle, g < s.nextGroup + 1
    intro g hg
    rw [List.cons_append] at hg
    obtain rfl | hg := List.mem_cons.mp hg
    · exact Nat.lt_succ_self _
    · exact Nat.lt_succ_of_lt (h.stored.fresh g hg)
  · intro g
    show g ∈ insert s.nextGroup s.cgGroups ↔ g ∈ s.nextGroup :: s.groups
    rw [Finset.mem_insert, List.mem_cons, h.stored.cg]
  · intro g
    show g ∈ insert s.nextGroup s.wlrGroups ↔ g ∈ s.nextGroup :: s.groups ∨ g ∈ s.idle
    rw [Finset.mem_insert, List.mem_cons, h.stored.wlr, or_assoc]
  · have hlive := h.keyboard
    show match s.keyboard with
      | none => True
      | some (.device d) => d ∈ s.devices
      | some (.group g) => g ∈ s.nextGroup :: s.groups
    rw [KeyboardLive] at hlive
    cases hk : s.keyboard with
    | none => trivial
    | some k =>
      rw [hk] at hlive
      cases k with
      | device d => exact hlive
      | group g => exact List.mem_cons_of_mem _ hlive

/-- **`cg_keyboard_group_add`.** -/
theorem cgKeyboardGroupAdd_wired (alloc : DeviceAlloc) (h : s.Wired) (hd : d ∈ s.devices)
    (htype : (s.device d).type = .keyboard) (hnone : (s.device d).group = none) :
    (s.cgKeyboardGroupAdd d alloc).Wired ∧ SameKinds s (s.cgKeyboardGroupAdd d alloc) := by
  rw [cgKeyboardGroupAdd]
  cases hfound : (if (s.device d).isVirtual = true then none else s.groups.find? (s.takes d)) with
  | some g =>
    have hg : s.groups.find? (s.takes d) = some g := by
      split at hfound
      · cases hfound
      · exact hfound
    have htakes := List.find?_some hg
    simp only [takes, Bool.and_eq_true, decide_eq_true_eq] at htakes
    exact ⟨h.join hd htype hnone (List.mem_of_find?_eq_some hg) htakes.1.1.1, join_kinds⟩
  | none =>
    dsimp only
    by_cases ha : alloc.group = false ∨ alloc.wlrGroup = false
    · rw [if_pos ha]
      exact ⟨h, .refl⟩
    · rw [if_neg ha]
      exact ⟨h.newGroup hd htype hnone, newGroup_kinds⟩

/-- The device has been added, with its record if it is a pointer or a touch screen. -/
structure Added (s : SeatDevices) (d : ℕ) (alloc : DeviceAlloc) (s' : SeatDevices) : Prop where
  wired : s'.Wired
  devices : s'.devices = s.devices
  next : s'.next = s.next
  type : ∀ e, (s'.device e).type = (s.device e).type
  isVirtual : ∀ e, (s'.device e).isVirtual = (s.device e).isVirtual
  record : ∀ e, (s'.device e).record = if e = d then
    ((s.device d).type = .pointer ∨ (s.device d).type = .touch) && alloc.record
    else (s.device e).record
  numKeyboards : s'.numKeyboards = s.numKeyboards +
    if (s.device d).type = .keyboard ∧ alloc.xkb = true then 1 else 0
  numPointers : s'.numPointers = s.numPointers +
    if (s.device d).type = .pointer ∧ alloc.record = true then 1 else 0
  numTouch : s'.numTouch = s.numTouch +
    if (s.device d).type = .touch ∧ alloc.record = true then 1 else 0

/-- The state is the same, but for what nothing else depends on. -/
theorem Wired.congr {capabilities : Capabilities} {numKeyboards numPointers numTouch : UInt16}
    (h : s.Wired) : ({ s with capabilities, numKeyboards, numPointers, numTouch } :
      SeatDevices).Wired where
  linked := ⟨h.linked.nodup, h.linked.fresh, h.linked.link, h.linked.member, h.linked.members,
    h.linked.nonempty, h.linked.keymap⟩
  stored := ⟨h.stored.nodup, h.stored.fresh, h.stored.cg, h.stored.wlr⟩
  keyboard := h.keyboard
  attached := ⟨h.attached.attached, h.attached.record⟩

theorem Wired.setDevice (h : s.Wired) (hd : d ∈ s.devices) (hnone : (s.device d).group = none)
    (hv : v.group = none) (ht : v.type = (s.device d).type)
    (hvirtual : v.isVirtual = (s.device d).isVirtual) (hr : v.record = (s.device d).record) :
    (s.setDevice d v).Wired where
  linked := h.linked.setDevice hd hnone hv ht
  stored := ⟨h.stored.nodup, h.stored.fresh, h.stored.cg, h.stored.wlr⟩
  keyboard := h.keyboard
  attached := h.attached.congr (SameKinds.setDevice ht hvirtual hr)

/-- The seat takes the device for its keyboard. -/
theorem Wired.withKeyboard (h : s.Wired) (hd : d ∈ s.devices) :
    ({ s with keyboard := some (.device d) } : SeatDevices).Wired where
  linked := ⟨h.linked.nodup, h.linked.fresh, h.linked.link, h.linked.member, h.linked.members,
    h.linked.nonempty, h.linked.keymap⟩
  stored := ⟨h.stored.nodup, h.stored.fresh, h.stored.cg, h.stored.wlr⟩
  keyboard := hd
  attached := ⟨h.attached.attached, h.attached.record⟩

/-- A pointer or touch screen gets its record. -/
theorem Wired.withRecord (h : s.Wired) (hd : d ∈ s.devices) (hnone : (s.device d).group = none)
    (htype : (s.device d).type = .pointer ∨ (s.device d).type = .touch) :
    ({ s.setDevice d { s.device d with record := true } with
      attached := insert d s.attached } : SeatDevices).Wired := by
  have hlinked := h.linked.setDevice (v := { s.device d with record := true }) hd hnone hnone rfl
  refine ⟨⟨hlinked.nodup, hlinked.fresh, hlinked.link, hlinked.member, hlinked.members,
    hlinked.nonempty, hlinked.keymap⟩, ⟨h.stored.nodup, h.stored.fresh, h.stored.cg,
    h.stored.wlr⟩, h.keyboard, ⟨?_, ?_⟩⟩
  · intro e
    show e ∈ insert d s.attached ↔
      e ∈ s.devices ∧ ((s.setDevice d { s.device d with record := true }).device e).record = true
    rw [Finset.mem_insert, h.attached.attached e]
    by_cases hed : e = d
    · subst hed
      rw [setDevice_device_self]
      simp [hd]
    · rw [setDevice_device_of_ne hed]
      simp [hed]
  · intro e he
    show ((s.setDevice d { s.device d with record := true }).device e).record = true →
      ((s.setDevice d { s.device d with record := true }).device e).type = .pointer ∨
      ((s.setDevice d { s.device d with record := true }).device e).type = .touch
    by_cases hed : e = d
    · subst hed
      rw [setDevice_device_self]
      exact fun _ => htype
    · rw [setDevice_device_of_ne hed]
      exact h.attached.record e he

theorem newKeyboard_wired (alloc : DeviceAlloc) (h : s.Wired) (hd : d ∈ s.devices)
    (htype : (s.device d).type = .keyboard) (hnone : (s.device d).group = none) :
    (s.newKeyboard d alloc).Wired ∧
      SameKinds s { s.newKeyboard d alloc with numKeyboards := s.numKeyboards } ∧
      (s.newKeyboard d alloc).numKeyboards =
        s.numKeyboards + if alloc.xkb = true then 1 else 0 := by
  rw [newKeyboard]
  by_cases hx : alloc.xkb = false
  · rw [if_pos hx, hx]
    exact ⟨h, .refl, by simp⟩
  rw [if_neg hx, if_pos (by simpa using hx)]
  have hset : (s.setDevice d { s.device d with keymap := some s.defaultKeymap }).Wired :=
    h.setDevice hd hnone hnone rfl rfl rfl
  have hkinds : SameKinds s (s.setDevice d { s.device d with keymap := some s.defaultKeymap }) :=
    SameKinds.setDevice rfl rfl rfl
  obtain ⟨hadd, hadd'⟩ := cgKeyboardGroupAdd_wired (d := d) alloc hset hd
    ((hkinds.type d).trans htype) (by rw [setDevice_device_self]; exact hnone)
  have hall := hkinds.trans hadd'
  have hmem : d ∈ ((s.setDevice d { s.device d with keymap := some s.defaultKeymap
      }).cgKeyboardGroupAdd d alloc).devices := by
    rw [hadd'.devices]
    exact hd
  refine ⟨(hadd.withKeyboard hmem).congr, ⟨hall.devices, hall.next, hall.type, hall.isVirtual,
    hall.record, hall.attached, rfl, hall.numPointers, hall.numTouch, hall.defaultKeymap⟩, ?_⟩
  show _ + 1 = _
  rw [hall.numKeyboards]

/-- A pointer or touch screen without memory for its record is not counted. -/
theorem Wired.added_bare (h : s.Wired) (hrec : (s.device d).record = false)
    (htype : (s.device d).type = .pointer ∨ (s.device d).type = .touch)
    (ha : alloc.record = false) : s.Added d alloc s.updateCapabilities := by
  have hk : (s.device d).type ≠ .keyboard := by
    rcases htype with ht | ht <;> simp [ht]
  refine ⟨h.congr, rfl, rfl, fun _ => rfl, fun _ => rfl, fun e => ?_, ?_, ?_, ?_⟩
  · show (s.device e).record = _
    by_cases hed : e = d
    · subst hed
      simp [hrec, ha]
    · rw [if_neg hed]
  · show s.numKeyboards = _
    simp [hk]
  · show s.numPointers = _
    simp [ha]
  · show s.numTouch = _
    simp [ha]

theorem Wired.added_recorded {numPointers numTouch : UInt16} (h : s.Wired) (hd : d ∈ s.devices)
    (hnone : (s.device d).group = none)
    (htype : (s.device d).type = .pointer ∨ (s.device d).type = .touch)
    (ha : alloc.record = true)
    (hp : numPointers = s.numPointers +
      if (s.device d).type = .pointer ∧ alloc.record = true then 1 else 0)
    (ht : numTouch = s.numTouch +
      if (s.device d).type = .touch ∧ alloc.record = true then 1 else 0) :
    s.Added d alloc ({ s.setDevice d { s.device d with record := true } with
      attached := insert d s.attached
      numPointers := numPointers
      numTouch := numTouch } : SeatDevices).updateCapabilities := by
  have hk : (s.device d).type ≠ .keyboard := by
    rcases htype with ht | ht <;> simp [ht]
  have hkinds : ∀ e, ((s.setDevice d { s.device d with record := true }).device e).type =
      (s.device e).type ∧
      ((s.setDevice d { s.device d with record := true }).device e).isVirtual =
        (s.device e).isVirtual := by
    intro e
    by_cases hed : e = d
    · subst hed
      rw [setDevice_device_self]
      exact ⟨rfl, rfl⟩
    · rw [setDevice_device_of_ne hed]
      exact ⟨rfl, rfl⟩
  refine ⟨(h.withRecord hd hnone htype).congr, rfl, rfl, fun e => (hkinds e).1,
    fun e => (hkinds e).2, fun e => ?_, ?_, hp, ht⟩
  · show ((s.setDevice d { s.device d with record := true }).device e).record = _
    by_cases hed : e = d
    · subst hed
      rw [setDevice_device_self]
      rcases htype with ht | ht <;> simp [ht, ha]
    · rw [setDevice_device_of_ne hed, if_neg hed]
  · show s.numKeyboards = _
    simp [hk]

/-- **`seat_add_device`.** -/
theorem seatAddDevice_added (h : s.Wired) (hd : d ∈ s.devices)
    (hnone : (s.device d).group = none) (hrec : (s.device d).record = false) :
    s.Added d alloc (s.seatAddDevice d alloc) := by
  -- the seat has no use for a device of another kind
  have hsame : (s.device d).type ≠ .keyboard → (s.device d).type ≠ .pointer →
      (s.device d).type ≠ .touch → s.Added d alloc s := by
    intro hk hp ht
    refine ⟨h, rfl, rfl, fun _ => rfl, fun _ => rfl, fun e => ?_, ?_, ?_, ?_⟩
    · by_cases hed : e = d
      · subst hed
        simp [hp, ht, hrec]
      · rw [if_neg hed]
    · simp [hk]
    · simp [hp]
    · simp [ht]
  rw [seatAddDevice]
  cases htype : (s.device d).type with
  | keyboard =>
    obtain ⟨hw, hkinds, hnum⟩ := newKeyboard_wired alloc h hd htype hnone
    refine ⟨hw.congr, hkinds.devices, hkinds.next, hkinds.type, hkinds.isVirtual, fun e => ?_,
      ?_, ?_, ?_⟩
    · refine (hkinds.record e).trans ?_
      by_cases hed : e = d
      · subst hed
        simp [htype, hrec]
      · rw [if_neg hed]
    · refine hnum.trans ?_
      simp [htype]
    · refine hkinds.numPointers.trans ?_
      simp [htype]
    · refine hkinds.numTouch.trans ?_
      simp [htype]
  | pointer =>
    show s.Added d alloc (s.newPointer d alloc).updateCapabilities
    rw [newPointer]
    by_cases ha : alloc.record = false
    · rw [if_pos ha]
      exact h.added_bare hrec (.inl htype) ha
    · rw [if_neg ha]
      rw [Bool.not_eq_false] at ha
      exact h.added_recorded hd hnone (.inl htype) ha (by simp [htype, ha]) (by simp [htype])
  | touch =>
    show s.Added d alloc (s.newTouch d alloc).updateCapabilities
    rw [newTouch]
    by_cases ha : alloc.record = false
    · rw [if_pos ha]
      exact h.added_bare hrec (.inr htype) ha
    · rw [if_neg ha]
      rw [Bool.not_eq_false] at ha
      exact h.added_recorded hd hnone (.inr htype) ha (by simp [htype]) (by simp [htype, ha])
  | switch => exact hsame (by simp [htype]) (by simp [htype]) (by simp [htype])
  | tablet => exact hsame (by simp [htype]) (by simp [htype]) (by simp [htype])
  | tabletPad => exact hsame (by simp [htype]) (by simp [htype]) (by simp [htype])

/-! ### Removing a device -/

theorem leave_kinds (down : Bool) : SameKinds s (s.leave d g down) := by
  have h : SameKinds s (s.setDevice d { s.device d with group := none }) :=
    SameKinds.setDevice rfl rfl rfl
  cases down <;>
  exact h.trans ⟨rfl, rfl, fun _ => rfl, fun _ => rfl, fun _ => rfl, rfl, rfl, rfl, rfl, rfl⟩

/-- No keyboard joins a group, and the keymaps are the same. -/
structure Shrinks (s s' : SeatDevices) : Prop where
  groups : ∀ g ∈ s'.groups, g ∈ s.groups ∧ ∀ e ∈ (s'.group g).devices, e ∈ (s.group g).devices
  keymap : ∀ e, (s'.device e).keymap = (s.device e).keymap
  defaultKeymap : s'.defaultKeymap = s.defaultKeymap

theorem Shrinks.refl : Shrinks s s := ⟨fun _ hg => ⟨hg, fun _ => id⟩, fun _ => rfl, rfl⟩

theorem Shrinks.trans {s'' : SeatDevices} (h : Shrinks s s') (h' : Shrinks s' s'') :
    Shrinks s s'' := by
  refine ⟨fun g hg => ?_, fun e => (h'.keymap e).trans (h.keymap e),
    h'.defaultKeymap.trans h.defaultKeymap⟩
  obtain ⟨hg', hsub'⟩ := h'.groups g hg
  obtain ⟨hg'', hsub⟩ := h.groups g hg'
  exact ⟨hg'', fun e he => hsub e (hsub' e he)⟩

theorem leave_shrinks {down : Bool} : Shrinks s (s.leave d g down) := by
  have hgroup : ∀ f, ∀ e ∈ ((s.leave d g down).group f).devices, e ∈ (s.group f).devices := by
    intro f e he
    by_cases hfg : f = g
    · subst hfg
      have hself : ((s.leave d f down).group f).devices = (s.group f).devices.erase d := by
        cases down <;> exact congrArg SeatGroup.devices (setGroup_group_self ..)
      rw [hself] at he
      exact List.mem_of_mem_erase he
    · have hne : (s.leave d g down).group f = s.group f := by
        cases down <;> exact setGroup_group_of_ne hfg
      rwa [hne] at he
  have hkeymap : ∀ e, ((s.leave d g down).device e).keymap = (s.device e).keymap := by
    intro e
    by_cases hed : e = d
    · subst hed
      have hself : (s.leave e g down).device e = { s.device e with group := none } := by
        cases down <;> exact setDevice_device_self
      rw [hself]
    · cases down <;> exact congrArg SeatDevice.keymap (setDevice_device_of_ne hed)
  refine ⟨fun f hf => ⟨?_, hgroup f⟩, hkeymap, ?_⟩
  · cases down <;> exact hf
  · cases down <;> rfl

/-- The group is taken off the list, and waits to be freed. -/
theorem Stored.ended {keyboard : Option SeatKeyboard} (h : s.Stored) (hg : g ∈ s.groups) :
    ({ s with
      keyboard := keyboard
      groups := s.groups.erase g
      cgGroups := s.cgGroups.erase g
      idle := s.idle ++ [g] } : SeatDevices).Stored := by
  have hmem : ∀ f, f ∈ s.groups.erase g ↔ f ≠ g ∧ f ∈ s.groups := fun f =>
    h.nodup.of_append_left.mem_erase_iff
  have hperm : (s.groups.erase g ++ (s.idle ++ [g])).Perm (s.groups ++ s.idle) := by
    rw [← List.append_assoc]
    have hfirst := (List.perm_cons_erase hg).symm.append_right s.idle
    exact (List.perm_append_singleton g _).trans hfirst
  refine ⟨hperm.nodup_iff.mpr h.nodup, fun f hf => h.fresh f (hperm.mem_iff.mp hf), ?_, ?_⟩
  · intro f
    show f ∈ s.cgGroups.erase g ↔ f ∈ s.groups.erase g
    rw [Finset.mem_erase, h.cg, hmem f]
  · intro f
    show f ∈ s.wlrGroups ↔ f ∈ s.groups.erase g ∨ f ∈ s.idle ++ [g]
    rw [h.wlr, hmem f, List.mem_append, List.mem_singleton]
    by_cases hfg : f = g
    · subst hfg
      simp [hg]
    · simp [hfg]

/-- A group that has lost its last keyboard ends. -/
theorem endGroup_gives (hlinked : s.Linked (some g)) (hstored : s.Stored)
    (hkeyboard : s.KeyboardLive) (hattached : s.Attached) (hg : g ∈ s.groups)
    (hempty : (s.group g).devices = []) :
    Gives (s.endGroup g) fun s' => s'.Wired ∧ SameKinds s s' ∧ Shrinks s s' ∧
      s'.device = s.device := by
  have hnodup : s.groups.Nodup := hstored.nodup.of_append_left
  have hcg : decide (g ∈ s.cgGroups) = true := decide_eq_true ((hstored.cg g).mpr hg)
  -- the keyboard of the seat is another one
  have hend : ∀ keyboard, (keyboard = none ∨ keyboard = s.keyboard ∧
      s.keyboard ≠ some (.group g)) → ({ s with
        keyboard := keyboard
        groups := s.groups.erase g
        cgGroups := s.cgGroups.erase g
        idle := s.idle ++ [g] } : SeatDevices).Wired := by
    intro keyboard hk
    refine ⟨hlinked.withoutGroup hnodup hempty, hstored.ended hg, ?_,
      ⟨hattached.attached, hattached.record⟩⟩
    rcases hk with rfl | ⟨rfl, hne⟩
    · trivial
    · show match s.keyboard with
        | none => True
        | some (.device d) => d ∈ s.devices
        | some (.group f) => f ∈ s.groups.erase g
      rw [KeyboardLive] at hkeyboard
      cases hk : s.keyboard with
      | none => trivial
      | some k =>
        rw [hk] at hkeyboard hne
        cases k with
        | device d => exact hkeyboard
        | group f =>
          refine hnodup.mem_erase_iff.mpr ⟨?_, hkeyboard⟩
          rintro rfl
          exact hne rfl
  have hkinds : ∀ keyboard, SameKinds s { s with
      keyboard := keyboard
      groups := s.groups.erase g
      cgGroups := s.cgGroups.erase g
      idle := s.idle ++ [g] } := fun _ =>
    ⟨rfl, rfl, fun _ => rfl, fun _ => rfl, fun _ => rfl, rfl, rfl, rfl, rfl, rfl⟩
  have hshrinks : ∀ keyboard, Shrinks s { s with
      keyboard := keyboard
      groups := s.groups.erase g
      cgGroups := s.cgGroups.erase g
      idle := s.idle ++ [g] } := fun _ =>
    ⟨fun f hf => ⟨List.mem_of_mem_erase hf, fun _ => id⟩, fun _ => rfl, rfl⟩
  rw [endGroup]
  by_cases hk : s.keyboard = some (.group g)
  · rw [if_pos hk]
    exact Gives.deref hcg (Gives.ok ⟨hend none (.inl rfl), hkinds none, hshrinks none, rfl⟩)
  · rw [if_neg hk]
    exact Gives.deref hcg (Gives.ok ⟨hend s.keyboard (.inr ⟨rfl, hk⟩), hkinds s.keyboard,
      hshrinks s.keyboard, rfl⟩)

/-- **`remove_keyboard`.** -/
theorem removeKeyboard_gives {down : Bool} (h : s.Wired) (hd : d ∈ s.devices) :
    Gives (s.removeKeyboard d down) fun s' => s'.Wired ∧ (s'.device d).group = none ∧
      SameKinds s { s' with numKeyboards := s.numKeyboards } ∧ Shrinks s s' ∧
      s'.numKeyboards = s.numKeyboards - 1 := by
  have hfirst : Gives (ifSome (s.device d).group s fun g => do
      deref (g ∈ s.wlrGroups)
      let s := s.leave d g down
      if (s.group g).devices = [] then s.endGroup g else .ok s) fun s' =>
        s'.Wired ∧ (s'.device d).group = none ∧ SameKinds s s' ∧ Shrinks s s' := by
    refine Gives.ifSome (fun hnone => ⟨h, hnone, .refl, .refl⟩) fun g hg => ?_
    obtain ⟨hgs, hmem⟩ := (h.linked.link d hd g).mp hg
    refine Gives.deref (decide_eq_true ((h.stored.wlr g).mpr (.inl hgs))) ?_
    have hlinked := h.linked.leave down hd hg
    have hstored : (s.leave d g down).Stored := by
      cases down <;> exact ⟨h.stored.nodup, h.stored.fresh, h.stored.cg, h.stored.wlr⟩
    have hkeyboard : (s.leave d g down).KeyboardLive := by
      cases down with
      | false => exact h.keyboard
      | true => exact hgs
    have hattached := h.attached.congr (leave_kinds (d := d) (g := g) down)
    have hgroups : (s.leave d g down).groups = s.groups := by
      cases down <;> rfl
    have hself : ((s.leave d g down).device d).group = none := by
      cases down <;> exact congrArg SeatDevice.group (setDevice_device_self ..)
    dsimp only
    refine Gives.ite (fun hempty => ?_) fun hne => ?_
    -- a group ends with its last keyboard
    · refine (endGroup_gives hlinked hstored hkeyboard hattached (hgroups ▸ hgs) hempty).mono ?_
      rintro s' ⟨hw, hkinds, hshrinks, hdev⟩
      refine ⟨hw, ?_, (leave_kinds down).trans hkinds, leave_shrinks.trans hshrinks⟩
      rw [hdev]
      exact hself
    -- a group that other keyboards are in stays
    · refine Gives.ok ⟨⟨?_, hstored, hkeyboard, hattached⟩, hself, leave_kinds down,
        leave_shrinks⟩
      refine ⟨hlinked.nodup, hlinked.fresh, hlinked.link, hlinked.member, hlinked.members, ?_,
        hlinked.keymap⟩
      intro f hf _
      by_cases hfg : f = g
      · subst hfg
        exact hne
      · exact hlinked.nonempty f hf fun heq => hfg (Option.some.inj heq).symm
  refine hfirst.bind ?_
  rintro s' ⟨hw, hnone, hkinds, hshrinks⟩
  refine Gives.ok ⟨hw.congr, hnone, ⟨hkinds.devices, hkinds.next, hkinds.type, hkinds.isVirtual,
    hkinds.record, hkinds.attached, rfl, hkinds.numPointers, hkinds.numTouch,
    hkinds.defaultKeymap⟩, ⟨hshrinks.groups, hshrinks.keymap, hshrinks.defaultKeymap⟩, ?_⟩
  show s'.numKeyboards - 1 = _
  rw [hkinds.numKeyboards]

/-- The device has left the seat: it is in no group and has no record. -/
structure Left (s : SeatDevices) (d : ℕ) (s' : SeatDevices) : Prop where
  wired : s'.Wired
  group : (s'.device d).group = none
  bare : (s'.device d).record = false
  devices : s'.devices = s.devices
  type : ∀ e, (s'.device e).type = (s.device e).type
  isVirtual : ∀ e, (s'.device e).isVirtual = (s.device e).isVirtual
  record : ∀ e, e ≠ d → (s'.device e).record = (s.device e).record
  shrinks : Shrinks s s'
  numKeyboards : s'.numKeyboards = s.numKeyboards -
    if (s.device d).type = .keyboard then 1 else 0
  numPointers : s'.numPointers = s.numPointers -
    if (s.device d).type = .pointer ∧ (s.device d).record = true then 1 else 0
  numTouch : s'.numTouch = s.numTouch -
    if (s.device d).type = .touch ∧ (s.device d).record = true then 1 else 0

/-- Only keyboards are in groups. -/
theorem Linked.group_none (h : s.Linked hole) (hd : d ∈ s.devices)
    (htype : (s.device d).type ≠ .keyboard) : (s.device d).group = none := by
  by_contra hne
  obtain ⟨g, hg⟩ := Option.ne_none_iff_exists'.mp hne
  obtain ⟨hgs, hmem⟩ := (h.link d hd g).mp hg
  exact htype (h.member g hgs d hmem).2

theorem Wired.left_bare (h : s.Wired) (hd : d ∈ s.devices)
    (htype : (s.device d).type ≠ .keyboard) (hrec : (s.device d).record = false) : s.Left d s := by
  refine ⟨h, h.linked.group_none hd htype, hrec, rfl, fun _ => rfl, fun _ => rfl, fun _ _ => rfl,
    .refl, ?_, ?_, ?_⟩
  · simp [htype]
  · simp [hrec]
  · simp [hrec]

/-- The record of a pointer or touch screen is freed. -/
theorem Wired.left_recorded {numPointers numTouch : UInt16} (h : s.Wired) (hd : d ∈ s.devices)
    (htype : (s.device d).type ≠ .keyboard)
    (hp : numPointers = s.numPointers -
      if (s.device d).type = .pointer ∧ (s.device d).record = true then 1 else 0)
    (ht : numTouch = s.numTouch -
      if (s.device d).type = .touch ∧ (s.device d).record = true then 1 else 0) :
    s.Left d { s.setDevice d { s.device d with record := false } with
      attached := s.attached.erase d
      numPointers := numPointers
      numTouch := numTouch } := by
  have hnone := h.linked.group_none hd htype
  -- no group changes, since `d` is in none
  have hlinked := h.linked.setDevice (v := { s.device d with record := false }) hd hnone hnone rfl
  have hself : (s.setDevice d { s.device d with record := false }).device d =
      { s.device d with record := false } := setDevice_device_self
  have hne : ∀ e, e ≠ d → (s.setDevice d { s.device d with record := false }).device e =
      s.device e := fun e he => setDevice_device_of_ne he
  refine ⟨⟨⟨hlinked.nodup, hlinked.fresh, hlinked.link, hlinked.member, hlinked.members,
    hlinked.nonempty, hlinked.keymap⟩, ⟨h.stored.nodup, h.stored.fresh, h.stored.cg,
    h.stored.wlr⟩, h.keyboard, ⟨?_, ?_⟩⟩, ?_, ?_, rfl, ?_, ?_, ?_,
    ⟨fun _ hg => ⟨hg, fun _ => id⟩, ?_, rfl⟩, ?_, hp, ht⟩
  · intro e
    show e ∈ s.attached.erase d ↔
      e ∈ s.devices ∧ ((s.setDevice d { s.device d with record := false }).device e).record = true
    rw [Finset.mem_erase, h.attached.attached]
    by_cases hed : e = d
    · subst hed
      rw [hself]
      simp
    · rw [hne e hed]
      simp [hed]
  · intro e he
    show ((s.setDevice d { s.device d with record := false }).device e).record = true →
      ((s.setDevice d { s.device d with record := false }).device e).type = .pointer ∨
      ((s.setDevice d { s.device d with record := false }).device e).type = .touch
    by_cases hed : e = d
    · subst hed
      rw [hself]
      simp
    · rw [hne e hed]
      exact h.attached.record e he
  · exact (congrArg SeatDevice.group hself).trans hnone
  · exact congrArg SeatDevice.record hself
  · intro e
    show ((s.setDevice d { s.device d with record := false }).device e).type = _
    by_cases hed : e = d
    · subst hed
      rw [hself]
    · rw [hne e hed]
  · intro e
    show ((s.setDevice d { s.device d with record := false }).device e).isVirtual = _
    by_cases hed : e = d
    · subst hed
      rw [hself]
    · rw [hne e hed]
  · intro e hed
    exact congrArg SeatDevice.record (hne e hed)
  · intro e
    show ((s.setDevice d { s.device d with record := false }).device e).keymap = _
    by_cases hed : e = d
    · subst hed
      rw [hself]
    · rw [hne e hed]
  · show s.numKeyboards = _
    simp [htype]

/-- What is told to the clients changes nothing. -/
theorem Left.updateCapabilities (h : s.Left d s') : s.Left d s'.updateCapabilities :=
  ⟨h.wired.congr, h.group, h.bare, h.devices, h.type, h.isVirtual, h.record,
    ⟨h.shrinks.groups, h.shrinks.keymap, h.shrinks.defaultKeymap⟩, h.numKeyboards, h.numPointers,
    h.numTouch⟩

/-- **`seat_remove_device`.** -/
theorem seatRemoveDevice_gives {down : Bool} (h : s.Wired) (hd : d ∈ s.devices) :
    Gives (s.seatRemoveDevice d down) (s.Left d) := by
  -- only pointers and touch screens have a record
  have hbare : (s.device d).type ≠ .pointer → (s.device d).type ≠ .touch →
      (s.device d).record = false := by
    intro hp ht
    by_contra hne
    rw [Bool.not_eq_false] at hne
    exact (h.attached.record d hd hne).elim hp ht
  rw [seatRemoveDevice]
  cases htype : (s.device d).type with
  | keyboard =>
    refine (removeKeyboard_gives h hd).bind ?_
    rintro s' ⟨hw, hnone, hkinds, hshrinks, hnum⟩
    have hrec := hbare (by simp [htype]) (by simp [htype])
    refine Gives.ok (Left.updateCapabilities ⟨hw, hnone, (hkinds.record d).trans hrec,
      hkinds.devices, hkinds.type, hkinds.isVirtual, fun e _ => hkinds.record e, hshrinks, ?_, ?_,
      ?_⟩)
    · rw [hnum, htype, if_pos rfl]
    · refine hkinds.numPointers.trans ?_
      simp [htype]
    · refine hkinds.numTouch.trans ?_
      simp [htype]
  | pointer =>
    refine Gives.ok (Left.updateCapabilities ?_)
    rw [removePointer]
    by_cases hrec : (s.device d).record = false
    · rw [if_pos hrec]
      exact h.left_bare hd (by simp [htype]) hrec
    · rw [if_neg hrec]
      rw [Bool.not_eq_false] at hrec
      exact h.left_recorded hd (by simp [htype]) (by simp [htype, hrec]) (by simp [htype])
  | touch =>
    refine Gives.ok (Left.updateCapabilities ?_)
    rw [removeTouch]
    by_cases hrec : (s.device d).record = false
    · rw [if_pos hrec]
      exact h.left_bare hd (by simp [htype]) hrec
    · rw [if_neg hrec]
      rw [Bool.not_eq_false] at hrec
      exact h.left_recorded hd (by simp [htype]) (by simp [htype]) (by simp [htype, hrec])
  | switch =>
    exact Gives.ok (h.left_bare hd (by simp [htype]) (hbare (by simp [htype]) (by simp [htype])))
  | tablet =>
    exact Gives.ok (h.left_bare hd (by simp [htype]) (hbare (by simp [htype]) (by simp [htype])))
  | tabletPad =>
    exact Gives.ok (h.left_bare hd (by simp [htype]) (hbare (by simp [htype]) (by simp [htype])))

/-! ### Events -/

/-- The device is on the list, and in no group. -/
theorem Wired.listed (h : s.Wired) (hv : v.group = none) (hr : v.record = false) :
    (s.listed v).Wired := by
  have hself : (s.listed v).device s.next = v := setDevice_device_self
  have hold : ∀ d ∈ s.devices, (s.listed v).device d = s.device d := fun d hd =>
    setDevice_device_of_ne (h.linked.fresh d hd).ne
  refine ⟨h.linked.added hv, ⟨h.stored.nodup, h.stored.fresh, h.stored.cg, h.stored.wlr⟩, ?_,
    ⟨fun d => ?_, fun d hd => ?_⟩⟩
  · have hlive := h.keyboard
    rw [KeyboardLive] at hlive ⊢
    have hsame : (s.listed v).keyboard = s.keyboard := rfl
    rw [hsame]
    cases hk : s.keyboard with
    | none => trivial
    | some k =>
      rw [hk] at hlive
      cases k with
      | device d => exact List.mem_cons_of_mem _ hlive
      | group g => exact hlive
  · show d ∈ s.attached ↔ d ∈ s.next :: s.devices ∧ _
    rw [h.attached.attached d, List.mem_cons]
    by_cases hd : d ∈ s.devices
    · rw [hold d hd]
      simp [hd]
    · by_cases hdn : d = s.next
      · subst hdn
        rw [hself]
        simp [hd, hr]
      · simp [hd, hdn]
  · obtain rfl | hd := List.mem_cons.mp hd
    · rw [hself, hr]
      simp
    · rw [hold d hd]
      exact h.attached.record d hd

/-- The device that has left is taken off the list. -/
theorem Left.erase {keyboard : Option SeatKeyboard} (h : s.Left d s') (hd : d ∈ s.devices)
    (hk : keyboard = none ∨ keyboard = s'.keyboard ∧ s'.keyboard ≠ some (.device d)) :
    ({ s' with devices := s'.devices.erase d, keyboard } : SeatDevices).Wired := by
  have hmem : ∀ e, e ∈ s'.devices.erase d ↔ e ≠ d ∧ e ∈ s'.devices := fun e =>
    h.wired.linked.nodup.mem_erase_iff
  have hstored := h.wired.stored
  refine ⟨h.wired.linked.removed (h.devices ▸ hd) h.group,
    ⟨hstored.nodup, hstored.fresh, hstored.cg, hstored.wlr⟩, ?_, ⟨fun e => ?_, fun e he => ?_⟩⟩
  · rcases hk with rfl | ⟨rfl, hne⟩
    · trivial
    · have hlive := h.wired.keyboard
      show match s'.keyboard with
        | none => True
        | some (.device e) => e ∈ s'.devices.erase d
        | some (.group g) => g ∈ s'.groups
      rw [KeyboardLive] at hlive
      cases hkey : s'.keyboard with
      | none => trivial
      | some k =>
        rw [hkey] at hlive hne
        cases k with
        | device e =>
          refine (hmem e).mpr ⟨?_, hlive⟩
          rintro rfl
          exact hne rfl
        | group g => exact hlive
  · show e ∈ s'.attached ↔ e ∈ s'.devices.erase d ∧ _
    rw [h.wired.attached.attached e, hmem e]
    by_cases hed : e = d
    · subst hed
      simp [h.bare]
    · simp [hed]
  · exact h.wired.attached.record e ((hmem e).mp he).2

/-- **`input_manager_handle_device_destroy`.** -/
theorem deviceDestroy_gives {down : Bool} (h : s.Wired) (hd : d ∈ s.devices) :
    Gives (s.inputManagerHandleDeviceDestroy d down) fun t =>
      ∃ s', s.Left d s' ∧ t = { s' with devices := s'.devices.erase d } := by
  refine (seatRemoveDevice_gives h hd).bind fun s' hleft => ?_
  exact Gives.ok ⟨s', hleft, rfl⟩

/-- A keymap of a keyboard is that of its group. -/
theorem Wired.setKeymap (h : s.Wired) (hd : d ∈ s.devices) : (s.setKeymap d k).Wired := by
  have hfields : ∀ e, ((s.setKeymap d k).device e).group = (s.device e).group ∧
      ((s.setKeymap d k).device e).type = (s.device e).type ∧
      ((s.setKeymap d k).device e).record = (s.device e).record := by
    intro e
    dsimp only [SeatDevices.setKeymap]
    split
    · exact ⟨rfl, rfl, rfl⟩
    · exact ⟨rfl, rfl, rfl⟩
  have hlinked : (s.setKeymap d k).Linked none := by
    refine h.linked.congr rfl rfl rfl ?_ (fun e _ => ⟨(hfields e).1, (hfields e).2.1⟩) ?_
    · intro g _
      dsimp only [SeatDevices.setKeymap]
      split
      · rfl
      · rfl
    · intro g hg e he
      have hge := (h.linked.link e (h.linked.member g hg e he).1 g).mpr ⟨hg, he⟩
      dsimp only [SeatDevices.setKeymap]
      by_cases hdg : (s.device d).group = some g
      · rw [if_pos hdg, if_pos (.inr ⟨by simp [hdg], hge.trans hdg.symm⟩)]
      · rw [if_neg hdg, if_neg ?_]
        · exact h.linked.keymap g hg e he
        · rintro (rfl | ⟨-, heq⟩)
          · exact hdg hge
          · exact hdg (heq.symm.trans hge)
  refine ⟨hlinked, ⟨h.stored.nodup, h.stored.fresh, h.stored.cg, h.stored.wlr⟩, h.keyboard,
    ⟨fun e => ?_, fun e he => ?_⟩⟩
  · rw [(hfields e).2.2]
    exact h.attached.attached e
  · rw [(hfields e).2.1, (hfields e).2.2]
    exact h.attached.record e he

/-- The groups that wait are freed one after the other. -/
theorem idle_gives {l : List ℕ} (hl : l.Nodup) (hmem : ∀ g ∈ l, g ∈ s.wlrGroups) :
    Gives (l.foldlM destroyEmptyWlrKeyboardGroup s) fun t =>
      t = { s with wlrGroups := t.wlrGroups } ∧
        ∀ g, g ∈ t.wlrGroups ↔ g ∈ s.wlrGroups ∧ g ∉ l := by
  induction l generalizing s with
  | nil => exact Gives.ok ⟨rfl, by simp⟩
  | cons f l ih =>
    obtain ⟨hf, hl⟩ := List.nodup_cons.mp hl
    rw [List.foldlM_cons]
    refine Gives.bind (P := fun s' => s' = { s with wlrGroups := s.wlrGroups.erase f })
      (Gives.deref (decide_eq_true (hmem f List.mem_cons_self)) (Gives.ok rfl)) ?_
    rintro _ rfl
    refine (ih hl fun g hg => ?_).mono ?_
    · refine Finset.mem_erase.mpr ⟨?_, hmem g (List.mem_cons_of_mem _ hg)⟩
      rintro rfl
      exact hf hg
    · rintro t ⟨ht, hiff⟩
      refine ⟨ht, fun g => ?_⟩
      rw [hiff g, Finset.mem_erase, List.mem_cons]
      tauto

/-- The groups that wait are not in use. -/
theorem Wired.idle (h : s.Wired) : Gives (s.idle.foldlM destroyEmptyWlrKeyboardGroup s) fun t =>
    t = { s with wlrGroups := t.wlrGroups } ∧
      ({ t with idle := [] } : SeatDevices).Wired := by
  refine (idle_gives h.stored.nodup.of_append_right fun g hg => (h.stored.wlr g).mpr
    (.inr hg)).mono ?_
  rintro t ⟨ht, hiff⟩
  refine ⟨ht, ?_⟩
  have hdisj := List.disjoint_of_nodup_append h.stored.nodup
  have hlinked := h.linked
  rw [ht]
  refine ⟨⟨hlinked.nodup, hlinked.fresh, hlinked.link, hlinked.member, hlinked.members,
    hlinked.nonempty, hlinked.keymap⟩, ⟨?_, ?_, h.stored.cg, ?_⟩, h.keyboard,
    ⟨h.attached.attached, h.attached.record⟩⟩
  · show (s.groups ++ []).Nodup
    rw [List.append_nil]
    exact h.stored.nodup.of_append_left
  · intro g hg
    have hg' : g ∈ s.groups ++ [] := hg
    rw [List.append_nil] at hg'
    exact h.stored.fresh g (List.mem_append_left _ hg')
  · intro g
    show g ∈ t.wlrGroups ↔ g ∈ s.groups ∨ g ∈ []
    rw [hiff g, h.stored.wlr g]
    constructor
    · rintro ⟨hg | hg, hout⟩
      · exact .inl hg
      · exact absurd hg hout
    · rintro (hg | hg)
      · exact ⟨.inl hg, fun hi => hdisj hg hi⟩
      · exact absurd hg List.not_mem_nil

/-- Configuring a group changes neither its keymap nor who is in it. -/
theorem configureGroups_group {config : InputConfig} :
    ((s.configureGroups config).group g).devices = (s.group g).devices ∧
      ((s.configureGroups config).group g).keymap = (s.group g).keymap := by
  dsimp only [configureGroups]
  split
  · exact ⟨rfl, rfl⟩
  · exact ⟨rfl, rfl⟩

theorem Wired.configureGroups {config : InputConfig} (h : s.Wired) :
    (s.configureGroups config).Wired := by
  refine ⟨h.linked.congr rfl rfl rfl (fun _ _ => configureGroups_group.1) (fun _ _ => ⟨rfl, rfl⟩)
    ?_, ⟨h.stored.nodup, h.stored.fresh, h.stored.cg, h.stored.wlr⟩, h.keyboard,
    ⟨h.attached.attached, h.attached.record⟩⟩
  intro g hg d hd
  rw [configureGroups_group.2]
  exact h.linked.keymap g hg d hd

/-- The keyboard of a group is that of the seat. -/
theorem Wired.withGroup (h : s.Wired) (hg : g ∈ s.groups) :
    ({ s with keyboard := some (.group g) } : SeatDevices).Wired where
  linked := ⟨h.linked.nodup, h.linked.fresh, h.linked.link, h.linked.member, h.linked.members,
    h.linked.nonempty, h.linked.keymap⟩
  stored := ⟨h.stored.nodup, h.stored.fresh, h.stored.cg, h.stored.wlr⟩
  keyboard := hg
  attached := ⟨h.attached.attached, h.attached.record⟩

/-- **Plugging in a device.** -/
theorem newInput_added (alloc : DeviceAlloc) (h : s.Wired) (hv : v.group = none)
    (hr : v.record = false) :
    (s.listed v).Added s.next alloc ((s.listed v).seatAddDevice s.next alloc) := by
  have hself : (s.listed v).device s.next = v := setDevice_device_self
  refine seatAddDevice_added (h.listed hv hr) List.mem_cons_self ?_ ?_
  · rw [hself]
    exact hv
  · rw [hself]
    exact hr

/-- **The step lemma.** -/
theorem step_gives (h : s.Wired) (ev : DeviceEvent) : Gives (s.step ev) Wired := by
  cases ev with
  | plug type isVirtual identifier rate delay alloc =>
    refine Gives.ok ?_
    rw [newInput]
    by_cases ha : alloc.device = false
    · rw [if_pos ha]
      exact h
    · rw [if_neg ha]
      exact (newInput_added alloc h rfl rfl).wired
  | unplug d down =>
    refine Gives.ite (fun hd => ?_) fun _ => Gives.ok h
    refine (deviceDestroy_gives h hd).bind ?_
    rintro _ ⟨s', hleft, rfl⟩
    refine Gives.ok (hleft.erase hd ?_)
    dsimp only
    by_cases hk : s'.keyboard = some (.device d)
    · exact .inl (if_pos hk)
    · exact .inr ⟨if_neg hk, hk⟩
  | keymap d k =>
    exact Gives.ite (fun hd => Gives.ok (h.setKeymap hd.1)) fun _ => Gives.ok h
  | key g => exact Gives.ite (fun hg => Gives.ok (h.withGroup hg)) fun _ => Gives.ok h
  | configure config => exact Gives.ok h.configureGroups
  | idle => exact h.idle.bind fun t ht => Gives.ok ht.2

theorem init_wired : (init k).Wired where
  linked := ⟨List.nodup_nil, by simp [init], by simp [init], by simp [init], by simp [init],
    by simp [init], by simp [init]⟩
  stored := ⟨List.nodup_nil, by simp [init], by simp [init], by simp [init]⟩
  keyboard := trivial
  attached := ⟨by simp [init], by simp [init]⟩

/-- **Runs.**  Whatever devices are plugged in and unplugged, and whichever allocations for
them fail, nothing that is freed is used, and groups and keyboards refer to each other. -/
theorem devices_wired (k : Text) (evs : List DeviceEvent) :
    Gives (run step (init k) evs) Wired :=
  Gives.foldlM (fun _ ev _ h => step_gives h ev) init_wired

/-! ### Capabilities -/

/-- How many devices there are of a kind. -/
def count (s : SeatDevices) (p : SeatDevice → Bool) : ℕ := s.devices.countP fun d => p (s.device d)

/-- The clients are told what the seat counts. -/
def Told (s : SeatDevices) : Prop :=
  s.capabilities = ⟨s.numKeyboards > 0, s.numPointers > 0, s.numTouch > 0⟩

/-- The devices are counted, except for `failed` keyboards. -/
structure Tallied (s : SeatDevices) (failed : ℕ) : Prop where
  keyboards : s.numKeyboards + UInt16.ofNat failed = UInt16.ofNat (s.count SeatDevice.isKeyboard)
  pointers : s.numPointers = UInt16.ofNat (s.count SeatDevice.isPointer)
  touch : s.numTouch = UInt16.ofNat (s.count SeatDevice.isTouch)
  told : s.Told

theorem count_cons {t : SeatDevices} {p : SeatDevice → Bool} (hd : t.devices = d :: s.devices)
    (hold : ∀ e ∈ s.devices, p (t.device e) = p (s.device e)) :
    t.count p = s.count p + if p (t.device d) then 1 else 0 := by
  rw [count, hd, List.countP_cons]
  congr 1
  refine List.countP_congr fun e he => ?_
  rw [hold e he]

theorem count_erase {t : SeatDevices} {p : SeatDevice → Bool} (hn : s.devices.Nodup)
    (hmem : d ∈ s.devices) (hd : t.devices = s.devices.erase d)
    (hold : ∀ e, e ≠ d → p (t.device e) = p (s.device e)) :
    s.count p = t.count p + if p (s.device d) then 1 else 0 := by
  rw [count, (List.perm_cons_erase hmem).countP_eq, List.countP_cons, count, hd]
  congr 1
  refine List.countP_congr fun e he => ?_
  rw [hold e (hn.mem_erase_iff.mp he).1]

theorem count_congr {t : SeatDevices} {p : SeatDevice → Bool} (hd : t.devices = s.devices)
    (hold : ∀ e, p (t.device e) = p (s.device e)) : t.count p = s.count p := by
  rw [count, hd, count]
  simp only [hold]

/-- One more is counted. -/
theorem ofNat_add_ite {n m : UInt16} {a b : ℕ} {c : Bool} (h : n = UInt16.ofNat a)
    (hm : m = n + if c = true then 1 else 0) (hb : b = a + if c then 1 else 0) :
    m = UInt16.ofNat b := by
  rw [hm, hb, h]
  cases c <;> simp

/-- One less is counted. -/
theorem ofNat_sub_ite {n m : UInt16} {a b : ℕ} {c : Bool} (h : n = UInt16.ofNat a)
    (hm : m = n - if c = true then 1 else 0) (hb : a = b + if c then 1 else 0) :
    m = UInt16.ofNat b := by
  rw [hm, h, hb]
  cases c <;> simp

theorem seatAddDevice_told (h : s.Told) : (s.seatAddDevice d alloc).Told := by
  rw [seatAddDevice]
  split
  · rfl
  · rfl
  · rfl
  · exact h
  · exact h
  · exact h

theorem seatRemoveDevice_told {down : Bool} (h : s.Told) :
    Ensures (s.seatRemoveDevice d down) Told := by
  rw [seatRemoveDevice]
  split
  · exact Ensures.bind_any fun _ _ => Ensures.ok rfl
  · exact Ensures.ok rfl
  · exact Ensures.ok rfl
  · exact Ensures.ok h
  · exact Ensures.ok h
  · exact Ensures.ok h

/-- What does not touch the devices counts them the same. -/
theorem Tallied.congr {failed : ℕ} (h : s.Tallied failed) (hd : s'.devices = s.devices)
    (htype : ∀ e, (s'.device e).type = (s.device e).type)
    (hrecord : ∀ e, (s'.device e).record = (s.device e).record)
    (hk : s'.numKeyboards = s.numKeyboards) (hp : s'.numPointers = s.numPointers)
    (ht : s'.numTouch = s.numTouch) (hc : s'.capabilities = s.capabilities) :
    s'.Tallied failed where
  keyboards := by
    rw [hk, h.keyboards, count_congr hd]
    intro e
    rw [SeatDevice.isKeyboard, SeatDevice.isKeyboard, htype]
  pointers := by
    rw [hp, h.pointers, count_congr hd]
    intro e
    rw [SeatDevice.isPointer, SeatDevice.isPointer, htype, hrecord]
  touch := by
    rw [ht, h.touch, count_congr hd]
    intro e
    rw [SeatDevice.isTouch, SeatDevice.isTouch, htype, hrecord]
  told := by
    rw [Told, hc, hk, hp, ht]
    exact h.told

/-- A device that is plugged in is counted, unless it is a keyboard without a keymap. -/
theorem Tallied.added {failed : ℕ} {t : SeatDevices} (h : s.Tallied failed) (hw : s.Wired)
    (hadd : (s.listed v).Added s.next alloc t) (ht : t.Told) :
    t.Tallied (failed + if v.type = .keyboard ∧ alloc.xkb = false then 1 else 0) := by
  have hself : (s.listed v).device s.next = v := setDevice_device_self
  have hne : ∀ e ∈ s.devices, e ≠ s.next := fun e he => (hw.linked.fresh e he).ne
  have hold : ∀ e ∈ s.devices, (s.listed v).device e = s.device e := fun e he =>
    setDevice_device_of_ne (hne e he)
  have htype : ∀ e ∈ s.devices, (t.device e).type = (s.device e).type := fun e he =>
    (hadd.type e).trans (congrArg SeatDevice.type (hold e he))
  have hrecord : ∀ e ∈ s.devices, (t.device e).record = (s.device e).record := by
    intro e he
    rw [hadd.record e, if_neg (hne e he), hold e he]
  have htypeself : (t.device s.next).type = v.type := by
    rw [hadd.type, hself]
  have hrecordself : (t.device s.next).record =
      ((v.type = .pointer ∨ v.type = .touch) && alloc.record) := by
    rw [hadd.record, if_pos rfl, hself]
  have hnumk := hadd.numKeyboards
  have hnump := hadd.numPointers
  have hnumt := hadd.numTouch
  rw [hself] at hnumk hnump hnumt
  have hlistk : (s.listed v).numKeyboards = s.numKeyboards := rfl
  have hlistp : (s.listed v).numPointers = s.numPointers := rfl
  have hlistt : (s.listed v).numTouch = s.numTouch := rfl
  refine ⟨?_, ?_, ?_, ht⟩
  · have hcount := count_cons (p := SeatDevice.isKeyboard) hadd.devices fun e he => by
      rw [SeatDevice.isKeyboard, SeatDevice.isKeyboard, htype e he]
    rw [SeatDevice.isKeyboard, htypeself] at hcount
    rw [hcount, hnumk, hlistk, UInt16.ofNat_add, UInt16.ofNat_add, ← h.keyboards]
    by_cases hv : v.type = .keyboard
    · cases alloc.xkb <;> simp [hv] <;> grind
    · simp [hv]
  · refine ofNat_add_ite (c := v.type = .pointer && alloc.record) h.pointers ?_ ?_
    · rw [hnump, hlistp]
      simp
    · rw [count_cons (p := SeatDevice.isPointer) hadd.devices fun e he => by
        rw [SeatDevice.isPointer, SeatDevice.isPointer, htype e he, hrecord e he]]
      rw [SeatDevice.isPointer, htypeself, hrecordself]
      by_cases hv : v.type = .pointer
      · simp [hv]
      · simp [hv]
  · refine ofNat_add_ite (c := v.type = .touch && alloc.record) h.touch ?_ ?_
    · rw [hnumt, hlistt]
      simp
    · rw [count_cons (p := SeatDevice.isTouch) hadd.devices fun e he => by
        rw [SeatDevice.isTouch, SeatDevice.isTouch, htype e he, hrecord e he]]
      rw [SeatDevice.isTouch, htypeself, hrecordself]
      by_cases hv : v.type = .touch
      · simp [hv]
      · simp [hv]

/-- A device that is unplugged is not counted any more. -/
theorem Tallied.erased {failed : ℕ} {t : SeatDevices} (h : s.Tallied failed) (hw : s.Wired)
    (hd : d ∈ s.devices) (hleft : s.Left d s') (ht : t.Told)
    (hdevices : t.devices = s.devices.erase d) (hdevice : t.device = s'.device)
    (hk : t.numKeyboards = s'.numKeyboards) (hp : t.numPointers = s'.numPointers)
    (htouch : t.numTouch = s'.numTouch) :
    t.Tallied failed := by
  have hnodup := hw.linked.nodup
  refine ⟨?_, ?_, ?_, ht⟩
  · have hcount := count_erase (p := SeatDevice.isKeyboard) hnodup hd hdevices fun e _ => by
      rw [SeatDevice.isKeyboard, SeatDevice.isKeyboard, hdevice, hleft.type]
    have hkeys := h.keyboards
    rw [hcount, SeatDevice.isKeyboard] at hkeys
    rw [hk, hleft.numKeyboards]
    by_cases hv : (s.device d).type = .keyboard
    · rw [if_pos hv]
      rw [if_pos (decide_eq_true hv), UInt16.ofNat_add] at hkeys
      grind
    · rw [if_neg hv]
      simpa [hv] using hkeys
  · refine ofNat_sub_ite (c := SeatDevice.isPointer (s.device d)) h.pointers ?_ ?_
    · rw [hp, hleft.numPointers]
      simp [SeatDevice.isPointer]
    · refine count_erase hnodup hd hdevices fun e hed => ?_
      rw [SeatDevice.isPointer, SeatDevice.isPointer, hdevice, hleft.type, hleft.record e hed]
  · refine ofNat_sub_ite (c := SeatDevice.isTouch (s.device d)) h.touch ?_ ?_
    · rw [htouch, hleft.numTouch]
      simp [SeatDevice.isTouch]
    · refine count_erase hnodup hd hdevices fun e hed => ?_
      rw [SeatDevice.isTouch, SeatDevice.isTouch, hdevice, hleft.type, hleft.record e hed]

/-- An event counts its device, unless it is a keyboard without a keymap. -/
theorem step_tallied {failed : ℕ} (hw : s.Wired) (h : s.Tallied failed) (ev : DeviceEvent) :
    Ensures (s.step ev) (Tallied · (failed + if ev.keymapless then 1 else 0)) := by
  cases ev with
  | plug type isVirtual identifier rate delay alloc =>
    refine Ensures.ok ?_
    rw [newInput]
    by_cases ha : alloc.device = false
    · rw [if_pos ha]
      simpa [DeviceEvent.keymapless, ha] using h
    · rw [if_neg ha]
      rw [Bool.not_eq_false] at ha
      have hadd := newInput_added (v := ⟨type, isVirtual, identifier, none, rate, delay, none,
        false⟩) alloc hw rfl rfl
      have hnew := h.added hw hadd (seatAddDevice_told h.told)
      simpa [DeviceEvent.keymapless, ha] using hnew
  | unplug d down =>
    refine Ensures.ite (fun hd => ?_) fun _ => Ensures.ok h
    have hdestroy : Ensures (s.inputManagerHandleDeviceDestroy d down) fun t => ∃ s', s.Left d s' ∧
        s'.Told ∧ t = { s' with devices := s.devices.erase d } := by
      refine Ensures.bind ((seatRemoveDevice_gives hw hd).ensures.and
        (seatRemoveDevice_told h.told)) ?_
      rintro s' ⟨hleft, htold⟩
      exact Ensures.ok ⟨s', hleft, htold, by rw [hleft.devices]⟩
    refine hdestroy.bind ?_
    rintro _ ⟨s', hleft, htold, rfl⟩
    exact Ensures.ok (h.erased hw hd hleft htold rfl rfl rfl rfl rfl)
  | keymap d k =>
    refine Ensures.ite (fun _ => ?_) fun _ => Ensures.ok h
    refine Ensures.ok (h.congr rfl (fun e => ?_) (fun e => ?_) rfl rfl rfl rfl)
    · dsimp only [setKeymap]
      split
      · rfl
      · rfl
    · dsimp only [setKeymap]
      split
      · rfl
      · rfl
  | key g =>
    refine Ensures.ite (fun _ => ?_) fun _ => Ensures.ok h
    exact Ensures.ok (h.congr rfl (fun _ => rfl) (fun _ => rfl) rfl rfl rfl rfl)
  | configure config =>
    exact Ensures.ok (h.congr rfl (fun _ => rfl) (fun _ => rfl) rfl rfl rfl rfl)
  | idle =>
    refine hw.idle.ensures.bind ?_
    rintro t ⟨ht, -⟩
    rw [ht]
    exact Ensures.ok (h.congr rfl (fun _ => rfl) (fun _ => rfl) rfl rfl rfl rfl)

/-- The numbers of devices after a run. -/
theorem run_tallied {failed : ℕ} {evs : List DeviceEvent} (hw : s.Wired) (h : s.Tallied failed) :
    Gives (run step s evs) (Tallied · (failed + evs.countP DeviceEvent.keymapless)) := by
  induction evs generalizing s failed with
  | nil => exact Gives.ok h
  | cons ev evs ih =>
    rw [run, List.foldlM_cons]
    refine ((step_gives hw ev).and (step_tallied hw h ev)).bind ?_
    rintro t ⟨hw', h'⟩
    refine (ih hw' h').mono fun u hu => ?_
    rwa [List.countP_cons, Nat.add_comm (evs.countP _), ← Nat.add_assoc]

theorem init_tallied : (init k).Tallied 0 := ⟨rfl, rfl, rfl, rfl⟩

theorem ofNat_pos {n : ℕ} : UInt16.ofNat n > 0 ↔ n % 65536 ≠ 0 := by
  rw [gt_iff_lt, UInt16.lt_iff_toNat_lt]
  simp [Nat.pos_iff_ne_zero]

/-- **Capabilities.**  After a run, whichever of its allocations have failed, the seat has
counted its pointers and touch screens, and its keyboards less those that no keymap could be
made for, also when they have been unplugged since. -/
theorem capabilities_counted (k : Text) (evs : List DeviceEvent) :
    Gives (run step (init k) evs) fun s => s.Tallied (evs.countP DeviceEvent.keymapless) ∧
      (s.capabilities.pointer = true ↔ s.count SeatDevice.isPointer % 65536 ≠ 0) ∧
      (s.capabilities.touch = true ↔ s.count SeatDevice.isTouch % 65536 ≠ 0) ∧
      (s.capabilities.keyboard = true ↔ s.count SeatDevice.isKeyboard % 65536 ≠
        evs.countP DeviceEvent.keymapless % 65536) := by
  refine (run_tallied init_wired init_tallied).mono fun s h => ?_
  rw [Nat.zero_add] at h
  refine ⟨h, ?_, ?_, ?_⟩
  · rw [h.told, decide_eq_true_eq, h.pointers, ofNat_pos]
  · rw [h.told, decide_eq_true_eq, h.touch, ofNat_pos]
  · rw [h.told, decide_eq_true_eq, gt_iff_lt, UInt16.pos_iff_ne_zero]
    refine not_congr ?_
    have hkeys := h.keyboards
    constructor
    · intro hz
      rw [hz, UInt16.zero_add] at hkeys
      simpa using (congrArg UInt16.toNat hkeys).symm
    · intro hmod
      have heq : UInt16.ofNat (s.count SeatDevice.isKeyboard) =
          UInt16.ofNat (evs.countP DeviceEvent.keymapless) := by
        rw [← UInt16.toNat_inj]
        simpa using hmod
      rw [heq] at hkeys
      simpa using hkeys

/-! ### Virtual keyboards -/

/-- A virtual keyboard is alone in its group. -/
def Alone (s : SeatDevices) : Prop :=
  ∀ g ∈ s.groups, ∀ d ∈ (s.group g).devices, (s.device d).isVirtual = true →
    (s.group g).devices = [d]

/-- The keyboards that are not virtual have the default keymap, if any. -/
def Default (s : SeatDevices) : Prop :=
  ∀ d ∈ s.devices, (s.device d).isVirtual = false →
    (s.device d).keymap = none ∨ (s.device d).keymap = some s.defaultKeymap

/-- The test for a new keyboard, which has the default keymap. -/
def fits (s : SeatDevices) (rate delay : ℤ) (g : ℕ) : Bool :=
  (s.group g).keymap = some s.defaultKeymap &&
    (s.group g).config.repeatRate = rate && (s.group g).config.repeatDelay = delay

/-- A keyboard that is not virtual is plugged in, and the first group that it can join is
that of a virtual one. -/
def Mixes (s : SeatDevices) : DeviceEvent → Prop
  | .plug type isVirtual _ rate delay alloc =>
    type = .keyboard ∧ isVirtual = false ∧ alloc.device = true ∧ alloc.xkb = true ∧
      ∃ g, s.groups.find? (s.fits rate delay) = some g ∧
        ∃ d ∈ (s.group g).devices, (s.device d).isVirtual = true
  | _ => False

/-- What is in a group after a keyboard has joined it. -/
theorem join_alone (hg : g ∈ s.groups) (halone : s.Alone)
    (hd' : (s.device d).isVirtual = false) :
    (s.join d g).Alone ↔ ¬ ∃ e ∈ (s.group g).devices, (s.device e).isVirtual = true := by
  have hgrp : ∀ f, f ≠ g → (s.join d g).group f = s.group f := fun f hf => setGroup_group_of_ne hf
  have hself : ((s.join d g).group g).devices = d :: (s.group g).devices :=
    congrArg SeatGroup.devices setGroup_group_self
  have hvirtual := (join_kinds (s := s) (d := d) (g := g)).isVirtual
  constructor
  · rintro hjoin ⟨e, he, hv⟩
    have hone := hjoin g hg e (by rw [hself]; exact List.mem_cons_of_mem _ he)
      ((hvirtual e).trans hv)
    rw [hself] at hone
    have hnil := (List.cons.inj hone).2
    rw [hnil] at he
    exact absurd he List.not_mem_nil
  · intro hno f hf e he hv
    rw [hvirtual e] at hv
    by_cases hfg : f = g
    · subst hfg
      rw [hself] at he
      obtain rfl | he := List.mem_cons.mp he
      · rw [hd'] at hv
        cases hv
      · exact absurd ⟨e, he, hv⟩ hno
    · rw [hgrp f hfg] at he ⊢
      exact halone f hf e he hv

/-- The keyboard of a new group is alone in it. -/
theorem newGroup_alone (h : s.Wired) (halone : s.Alone) : (s.newGroup d).Alone := by
  have hgrp : ∀ f, f ≠ s.nextGroup → (s.newGroup d).group f = s.group f := by
    intro f hf
    exact (setGroup_group_of_ne hf).trans (setGroup_group_of_ne hf)
  have hself : ((s.newGroup d).group s.nextGroup).devices = [d] := by
    refine (congrArg SeatGroup.devices setGroup_group_self).trans ?_
    exact congrArg (fun v : SeatGroup => d :: v.devices) setGroup_group_self
  have hvirtual := (newGroup_kinds (s := s) (d := d)).isVirtual
  intro f hf e he hv
  obtain rfl | hf := List.mem_cons.mp hf
  · rw [hself] at he ⊢
    rw [List.mem_singleton.mp he]
  · have hne : f ≠ s.nextGroup := by
      rintro rfl
      exact h.stored.not_next hf
    rw [hgrp f hne] at he ⊢
    rw [hvirtual e] at hv
    exact halone f hf e he hv

/-- Groups of the same keyboards. -/
theorem Alone.congr (h : s.Alone) (hg : s'.groups = s.groups)
    (hm : ∀ g ∈ s.groups, (s'.group g).devices = (s.group g).devices)
    (hv : ∀ d, (s'.device d).isVirtual = (s.device d).isVirtual) : s'.Alone := by
  intro g hgs d hd hvirtual
  rw [hg] at hgs
  rw [hm g hgs] at hd ⊢
  rw [hv d] at hvirtual
  exact h g hgs d hd hvirtual

/-- **`cg_keyboard_group_add`.**  A keyboard that is not virtual joins the first group that
takes it, whoever is in it. -/
theorem cgKeyboardGroupAdd_alone (alloc : DeviceAlloc) (h : s.Wired) (halone : s.Alone) :
    (s.cgKeyboardGroupAdd d alloc).Alone ↔ ¬ ((s.device d).isVirtual = false ∧
      ∃ g, s.groups.find? (s.takes d) = some g ∧
        ∃ e ∈ (s.group g).devices, (s.device e).isVirtual = true) := by
  have hbare :
      (if alloc.group = false ∨ alloc.wlrGroup = false then s else s.newGroup d).Alone := by
    split
    · exact halone
    · exact newGroup_alone h halone
  rw [cgKeyboardGroupAdd]
  by_cases hv : (s.device d).isVirtual = true
  · rw [if_pos hv]
    simp [hv, hbare]
  · rw [if_neg hv]
    rw [Bool.not_eq_true] at hv
    cases hfind : s.groups.find? (s.takes d) with
    | none => simp [hbare]
    | some g =>
      dsimp only
      rw [join_alone (List.mem_of_find?_eq_some hfind) halone hv]
      simp [hv]

theorem cgKeyboardGroupAdd_defaultKeymap :
    (s.cgKeyboardGroupAdd d alloc).defaultKeymap = s.defaultKeymap := by
  rw [cgKeyboardGroupAdd]
  split
  · rfl
  · split
    · rfl
    · rfl

/-- Adding a keyboard to a group changes no keymap. -/
theorem cgKeyboardGroupAdd_keymap {e : ℕ} :
    ((s.cgKeyboardGroupAdd d alloc).device e).keymap = (s.device e).keymap := by
  have hjoin : ∀ (t : SeatDevices) (g : ℕ), ((t.join d g).device e).keymap =
      (t.device e).keymap := by
    intro t g
    by_cases hed : e = d
    · subst hed
      have hself : (t.join e g).device e = { t.device e with group := some g } :=
        setDevice_device_self
      rw [hself]
    · exact congrArg SeatDevice.keymap (setDevice_device_of_ne hed)
  rw [cgKeyboardGroupAdd]
  split
  · exact hjoin s _
  · split
    · rfl
    · exact hjoin _ _

theorem newKeyboard_alone (alloc : DeviceAlloc) (h : s.Wired) (hd : d ∈ s.devices)
    (halone : s.Alone)
    (hnone : (s.device d).group = none) :
    (s.newKeyboard d alloc).Alone ↔ ¬ ((s.device d).isVirtual = false ∧ alloc.xkb = true ∧
      ∃ g, s.groups.find? (s.fits (s.device d).repeatRate (s.device d).repeatDelay) = some g ∧
        ∃ e ∈ (s.group g).devices, (s.device e).isVirtual = true) := by
  rw [newKeyboard]
  by_cases hx : alloc.xkb = false
  · rw [if_pos hx]
    simp [hx, halone]
  rw [if_neg hx]
  rw [Bool.not_eq_false] at hx
  have hset : (s.setDevice d { s.device d with keymap := some s.defaultKeymap }).Wired :=
    h.setDevice hd hnone hnone rfl rfl rfl
  have hkinds : SameKinds s (s.setDevice d { s.device d with keymap := some s.defaultKeymap }) :=
    SameKinds.setDevice rfl rfl rfl
  have hself : (s.setDevice d { s.device d with keymap := some s.defaultKeymap }).device d =
      { s.device d with keymap := some s.defaultKeymap } := setDevice_device_self
  have halone' : (s.setDevice d { s.device d with keymap := some s.defaultKeymap }).Alone :=
    halone.congr rfl (fun _ _ => rfl) hkinds.isVirtual
  have htakes : (s.setDevice d { s.device d with keymap := some s.defaultKeymap }).takes d =
      s.fits (s.device d).repeatRate (s.device d).repeatDelay := by
    funext g
    rw [takes, fits, hself]
    simp [hnone, setDevice, eq_comm]
  have hadd := cgKeyboardGroupAdd_alone (d := d) alloc hset halone'
  have hsame : ∀ t : SeatDevices, ({ t with
      numKeyboards := t.numKeyboards + 1, keyboard := some (.device d) } : SeatDevices).Alone ↔
      t.Alone := fun _ => Iff.rfl
  rw [hsame, hadd, htakes, hkinds.isVirtual d]
  simp only [hkinds.isVirtual, hx, true_and]
  rfl

/-- A device that is plugged in. -/
theorem plug_alone (h : s.Wired) (halone : s.Alone) (hv : v.group = none)
    (hr : v.record = false) :
    ((s.listed v).seatAddDevice s.next alloc).Alone ↔
      ¬ (v.type = .keyboard ∧ v.isVirtual = false ∧ alloc.xkb = true ∧
        ∃ g, s.groups.find? (s.fits v.repeatRate v.repeatDelay) = some g ∧
          ∃ e ∈ (s.group g).devices, (s.device e).isVirtual = true) := by
  have hself : (s.listed v).device s.next = v := setDevice_device_self
  have hold : ∀ e ∈ s.devices, (s.listed v).device e = s.device e := fun e he =>
    setDevice_device_of_ne (h.linked.fresh e he).ne
  have hlisted : (s.listed v).Alone := by
    intro g hg e he hvirtual
    rw [hold e (h.linked.member g hg e he).1] at hvirtual
    exact halone g hg e he hvirtual
  have hwired : (s.listed v).Wired := h.listed hv hr
  have hrecord : ∀ (w : SeatDevice), w.isVirtual = ((s.listed v).device s.next).isVirtual →
      ((s.listed v).setDevice s.next w).Alone := by
    intro w hw
    refine hlisted.congr rfl (fun _ _ => rfl) fun e => ?_
    by_cases hed : e = s.next
    · subst hed
      rw [setDevice_device_self, hw]
    · rw [setDevice_device_of_ne hed]
  rw [seatAddDevice, hself]
  cases htype : v.type with
  -- only a keyboard gets into a group
  | keyboard =>
    have hnew := newKeyboard_alone alloc hwired List.mem_cons_self hlisted
      (hself.symm ▸ hv)
    rw [hself] at hnew
    refine hnew.trans (not_congr ?_)
    simp only [true_and]
    refine and_congr_right fun _ => and_congr_right fun _ => exists_congr fun g => ?_
    refine and_congr_right fun hfind => exists_congr fun e => and_congr_right fun he => ?_
    rw [hold e (h.linked.member g (List.mem_of_find?_eq_some hfind) e he).1]
  | pointer =>
    show ((s.listed v).newPointer s.next alloc).Alone ↔ _
    rw [newPointer]
    split
    · simp [hlisted]
    · have halone' := hrecord { (s.listed v).device s.next with record := true } rfl
      simp only [reduceCtorEq, false_and, not_false_eq_true, iff_true]
      exact halone'
  | touch =>
    show ((s.listed v).newTouch s.next alloc).Alone ↔ _
    rw [newTouch]
    split
    · simp [hlisted]
    · have halone' := hrecord { (s.listed v).device s.next with record := true } rfl
      simp only [reduceCtorEq, false_and, not_false_eq_true, iff_true]
      exact halone'
  | switch => simp [hlisted]
  | tablet => simp [hlisted]
  | tabletPad => simp [hlisted]

/-- A device that is added has no keymap or the default one, and no other keymap changes. -/
theorem seatAddDevice_keymap (alloc : DeviceAlloc) :
    (s.seatAddDevice d alloc).defaultKeymap = s.defaultKeymap ∧
      ∀ e, ((s.seatAddDevice d alloc).device e).keymap = (s.device e).keymap ∨
        ((s.seatAddDevice d alloc).device e).keymap = some s.defaultKeymap := by
  have hset : ∀ (w : SeatDevice) e, w.keymap = (s.device d).keymap ∨
      w.keymap = some s.defaultKeymap → ((s.setDevice d w).device e).keymap =
        (s.device e).keymap ∨ ((s.setDevice d w).device e).keymap = some s.defaultKeymap := by
    intro w e hw
    by_cases hed : e = d
    · subst hed
      rwa [setDevice_device_self]
    · rw [setDevice_device_of_ne hed]
      exact .inl rfl
  rw [seatAddDevice]
  split
  · rw [newKeyboard]
    split
    · exact ⟨rfl, fun _ => .inl rfl⟩
    · constructor
      · exact cgKeyboardGroupAdd_defaultKeymap
      · intro e
        show (((s.setDevice d _).cgKeyboardGroupAdd d alloc).device e).keymap = _ ∨
          (((s.setDevice d _).cgKeyboardGroupAdd d alloc).device e).keymap = _
        rw [cgKeyboardGroupAdd_keymap]
        exact hset _ e (.inr rfl)
  · rw [newPointer]
    split
    · exact ⟨rfl, fun _ => .inl rfl⟩
    · exact ⟨rfl, fun e => hset _ e (.inl rfl)⟩
  · rw [newTouch]
    split
    · exact ⟨rfl, fun _ => .inl rfl⟩
    · exact ⟨rfl, fun e => hset _ e (.inl rfl)⟩
  · exact ⟨rfl, fun _ => .inl rfl⟩
  · exact ⟨rfl, fun _ => .inl rfl⟩
  · exact ⟨rfl, fun _ => .inl rfl⟩

/-- Keyboards that leave do not mix. -/
theorem Shrinks.alone {t : SeatDevices} (h : s.Alone) (hs : Shrinks s t) (hn : t.Linked none)
    (hv : ∀ e, (t.device e).isVirtual = (s.device e).isVirtual) : t.Alone := by
  intro g hg d hd hvirtual
  obtain ⟨hgs, hsub⟩ := hs.groups g hg
  rw [hv d] at hvirtual
  have hone := h g hgs d (hsub d hd) hvirtual
  refine List.perm_singleton.mp ((List.perm_ext_iff_of_nodup (hn.members g hg)
    (List.nodup_singleton d)).mpr fun e => ?_)
  rw [List.mem_singleton]
  constructor
  · intro he
    have hmem := hsub e he
    rw [hone] at hmem
    exact List.mem_singleton.mp hmem
  · rintro rfl
    exact hd

/-- Keyboards of different kinds are in different groups, and the keymaps of those that are
not virtual are not changed. -/
structure Apart (s : SeatDevices) : Prop where
  wired : s.Wired
  alone : s.Alone
  default : s.Default

/-- **The step lemma.** -/
theorem step_alone (h : s.Apart) (ev : DeviceEvent) :
    Gives (s.step ev) fun t => t.Wired ∧ t.Default ∧ (t.Alone ↔ ¬ s.Mixes ev) := by
  obtain ⟨hw, halone, hdefault⟩ := h
  have hiff : ∀ {t : SeatDevices}, t.Alone → ¬ s.Mixes ev → (t.Alone ↔ ¬ s.Mixes ev) :=
    fun ht hm => ⟨fun _ => hm, fun _ => ht⟩
  refine (step_gives hw ev).and ?_
  cases ev with
  | plug type isVirtual identifier rate delay alloc =>
    refine Ensures.ok ?_
    rw [newInput]
    by_cases ha : alloc.device = false
    · rw [if_pos ha]
      exact ⟨hdefault, hiff halone (by simp [Mixes, ha])⟩
    · rw [if_neg ha]
      rw [Bool.not_eq_false] at ha
      have hself : (s.listed ⟨type, isVirtual, identifier, none, rate, delay, none, false⟩).device
          s.next = ⟨type, isVirtual, identifier, none, rate, delay, none, false⟩ :=
        setDevice_device_self
      -- the new keyboard has the default keymap; the others keep theirs
      constructor
      · obtain ⟨hk, hkeymap⟩ := seatAddDevice_keymap (d := s.next)
          (s := s.listed ⟨type, isVirtual, identifier, none, rate, delay, none, false⟩) alloc
        have hadd := newInput_added (v := ⟨type, isVirtual, identifier, none, rate, delay, none,
          false⟩) alloc hw rfl rfl
        intro e he hv
        rw [hadd.devices] at he
        rw [hadd.isVirtual] at hv
        rw [hk]
        refine (hkeymap e).elim (fun heq => ?_) .inr
        rw [heq]
        obtain rfl | he := List.mem_cons.mp he
        · rw [hself]
          exact .inl rfl
        · have hold : (s.listed ⟨type, isVirtual, identifier, none, rate, delay, none,
              false⟩).device e = s.device e := setDevice_device_of_ne (hw.linked.fresh e he).ne
          rw [hold] at hv ⊢
          exact hdefault e he hv
      · rw [plug_alone hw halone rfl rfl, Mixes]
        simp [ha]
  | unplug d down =>
    refine Ensures.ite (fun hd => ?_) fun _ => Ensures.ok ⟨hdefault, hiff halone id⟩
    refine (deviceDestroy_gives hw hd).ensures.bind ?_
    rintro _ ⟨s', hleft, rfl⟩
    refine Ensures.ok ⟨?_, hiff ?_ id⟩
    -- what is left has the keymap it had, and groups only lose members
    · intro e he hv
      have he' : e ∈ s.devices := by
        rw [← hleft.devices]
        exact List.mem_of_mem_erase he
      have hkeymap := hleft.shrinks.keymap e
      have hsame := hleft.shrinks.defaultKeymap
      have hv' : (s.device e).isVirtual = false := (hleft.isVirtual e).symm.trans hv
      refine (hdefault e he' hv').imp (fun heq => hkeymap.trans heq) fun heq => ?_
      refine hkeymap.trans (heq.trans ?_)
      exact congrArg some hsame.symm
    · exact (hleft.shrinks.alone halone hleft.wired.linked hleft.isVirtual).congr rfl
        (fun _ _ => rfl) fun _ => rfl
  | keymap d k =>
    refine Ensures.ite (fun hd => ?_) fun _ => Ensures.ok ⟨hdefault, hiff halone id⟩
    refine Ensures.ok ⟨?_, hiff ?_ id⟩
    · intro e he hv
      have hne : ¬ (e = d ∨ (s.device d).group ≠ none ∧
          (s.device e).group = (s.device d).group) := by
        have hve : (s.device e).isVirtual = false := by
          dsimp only [setKeymap] at hv
          split at hv
          · exact hv
          · exact hv
        rintro (rfl | ⟨hsome, heq⟩)
        · rw [hve] at hd
          exact absurd hd.2.2 (by simp)
        · -- the group of a virtual keyboard holds no other one
          obtain ⟨g, hg⟩ := Option.ne_none_iff_exists'.mp hsome
          obtain ⟨hgs, hmem⟩ := (hw.linked.link d hd.1 g).mp hg
          have hmem' := ((hw.linked.link e he g).mp (heq.trans hg)).2
          rw [halone g hgs d hmem hd.2.2, List.mem_singleton] at hmem'
          rw [hmem', hd.2.2] at hve
          cases hve
      have hsame : (s.setKeymap d k).device e = s.device e := if_neg hne
      rw [hsame] at hv ⊢
      exact hdefault e he hv
    · refine halone.congr rfl (fun g _ => ?_) fun e => ?_
      · dsimp only [setKeymap]
        split
        · rfl
        · rfl
      · dsimp only [setKeymap]
        split
        · rfl
        · rfl
  | key g =>
    refine Ensures.ite (fun _ => ?_) fun _ => Ensures.ok ⟨hdefault, hiff halone id⟩
    exact Ensures.ok ⟨hdefault, hiff halone id⟩
  | configure config =>
    refine Ensures.ok ⟨hdefault, hiff ?_ id⟩
    exact halone.congr rfl (fun _ _ => configureGroups_group.1) fun _ => rfl
  | idle =>
    refine hw.idle.ensures.bind ?_
    rintro t ⟨ht, -⟩
    rw [ht]
    exact Ensures.ok ⟨hdefault, hiff halone id⟩

/-- **Virtual keyboards.**  A virtual keyboard is alone in its group, and no client changes the
keymap of another keyboard, until one is plugged in and the first group that it fits is that
of a virtual keyboard. -/
theorem keyboards_apart (hs : Steps step (fun s ev => ¬ s.Mixes ev) (init k) s) :
    s.Apart ∧ ∀ ev, Gives (s.step ev) fun t => t.Alone ↔ ¬ s.Mixes ev := by
  have hapart : s.Apart := by
    refine hs.invariant ⟨init_wired, by simp [Alone, init], by simp [Default, init]⟩ ?_
    intro t ev h hno
    refine (step_alone h ev).ensures.mono ?_
    rintro t' ⟨hw, hdefault, hiff⟩
    exact ⟨hw, hiff.mpr hno, hdefault⟩
  exact ⟨hapart, fun ev => (step_alone hapart ev).mono fun t ht => ht.2.2⟩

/-- A keyboard is plugged in after a virtual one, and joins its group. -/
theorem keyboards_apart_first :
    ∃ s t : SeatDevices, s.Apart ∧ s.step (.plug .keyboard false (ascii "keyboard") 25 600
      ⟨true, true, true, true, true⟩) = .ok t ∧ ¬ t.Alone := by
  have hrun : run step (init (ascii "us")) [.plug .keyboard true (ascii "virtual") 25 600
      ⟨true, true, true, true, true⟩] = .ok _ := rfl
  have hs : Steps step (fun s ev => ¬ s.Mixes ev) (init (ascii "us")) _ :=
    Steps.of_run hrun (by simp [Mixes])
  obtain ⟨hapart, hnext⟩ := keyboards_apart hs
  obtain ⟨t, ht, hiff⟩ := hnext (.plug .keyboard false (ascii "keyboard") 25 600
    ⟨true, true, true, true, true⟩)
  refine ⟨_, t, hapart, ht, ?_⟩
  rw [hiff, not_not]
  exact ⟨rfl, rfl, rfl, rfl, 0, rfl, 0, List.mem_cons_self, rfl⟩

/-! ### The end of the seat -/

/-- A group is freed: its keyboards are in no group. -/
theorem Linked.destroyGroup {keyboard : Option SeatKeyboard} {cg wlr : Finset ℕ}
    (h : s.Linked none) (hn : s.groups.Nodup) : ({ s with
      device := fun d =>
        if (s.device d).group = some g then { s.device d with group := none } else s.device d
      groups := s.groups.erase g
      cgGroups := cg
      wlrGroups := wlr
      keyboard := keyboard } : SeatDevices).Linked none := by
  have hmem : ∀ f, f ∈ s.groups.erase g ↔ f ≠ g ∧ f ∈ s.groups := fun f => hn.mem_erase_iff
  -- the keyboards of another group stay as they are
  have hother : ∀ f ∈ s.groups, f ≠ g → ∀ d ∈ (s.group f).devices,
      (if (s.device d).group = some g then { s.device d with group := none } else s.device d) =
        s.device d := by
    intro f hf hne d hd
    refine if_neg fun heq => hne ?_
    have hfd := (h.link d (h.member f hf d hd).1 f).mpr ⟨hf, hd⟩
    exact Option.some.inj (hfd.symm.trans heq)
  refine ⟨h.nodup, h.fresh, ?_, ?_, ?_, ?_, ?_⟩
  · intro d hd f
    dsimp only
    rw [hmem f]
    by_cases hdg : (s.device d).group = some g
    · rw [if_pos hdg]
      constructor
      · intro heq
        cases heq
      · rintro ⟨⟨hne, hf⟩, hdf⟩
        have hfd := (h.link d hd f).mpr ⟨hf, hdf⟩
        exact absurd (Option.some.inj (hfd.symm.trans hdg)) hne
    · rw [if_neg hdg, h.link d hd f]
      constructor
      · rintro ⟨hf, hdf⟩
        refine ⟨⟨?_, hf⟩, hdf⟩
        rintro rfl
        exact hdg ((h.link d hd f).mpr ⟨hf, hdf⟩)
      · rintro ⟨⟨-, hf⟩, hdf⟩
        exact ⟨hf, hdf⟩
  · intro f hf d hd
    obtain ⟨hne, hf⟩ := (hmem f).mp hf
    dsimp only
    rw [hother f hf hne d hd]
    exact h.member f hf d hd
  · intro f hf
    exact h.members f ((hmem f).mp hf).2
  · intro f hf
    exact h.nonempty f ((hmem f).mp hf).2
  · intro f hf d hd
    obtain ⟨hne, hf⟩ := (hmem f).mp hf
    dsimp only
    rw [hother f hf hne d hd]
    exact h.keymap f hf d hd

theorem destroyGroup_gives (h : s.Wired) (hg : g ∈ s.groups) :
    Gives (s.destroyGroup g) fun t => t.Wired ∧ t.groups = s.groups.erase g ∧
      t.devices = s.devices ∧ t.idle = s.idle := by
  have hnodup : s.groups.Nodup := h.stored.nodup.of_append_left
  have hmem : ∀ f, f ∈ s.groups.erase g ↔ f ≠ g ∧ f ∈ s.groups := fun f => hnodup.mem_erase_iff
  have hdisj := List.disjoint_of_nodup_append h.stored.nodup
  have hsub : (s.groups.erase g ++ s.idle).Sublist (s.groups ++ s.idle) :=
    List.erase_sublist.append_right s.idle
  refine Gives.deref (decide_eq_true ⟨(h.stored.cg g).mpr hg, (h.stored.wlr g).mpr (.inl hg)⟩) ?_
  refine Gives.ok ⟨⟨h.linked.destroyGroup hnodup, ⟨h.stored.nodup.sublist hsub, ?_, ?_, ?_⟩, ?_,
    ⟨?_, ?_⟩⟩, rfl, rfl, rfl⟩
  · intro f hf
    exact h.stored.fresh f (hsub.subset hf)
  · intro f
    show f ∈ s.cgGroups.erase g ↔ f ∈ s.groups.erase g
    rw [Finset.mem_erase, h.stored.cg, hmem f]
  · intro f
    show f ∈ s.wlrGroups.erase g ↔ f ∈ s.groups.erase g ∨ f ∈ s.idle
    rw [Finset.mem_erase, h.stored.wlr, hmem f]
    by_cases hfg : f = g
    · subst hfg
      have hidle : f ∉ s.idle := fun hi => hdisj hg hi
      simp [hidle]
    · simp [hfg]
  -- the seat forgets its keyboard if it is this group
  · have hlive := h.keyboard
    rw [KeyboardLive] at hlive ⊢
    dsimp only
    cases hk : s.keyboard with
    | none => simp
    | some k =>
      rw [hk] at hlive
      cases k with
      | device d => simpa using hlive
      | group f =>
        by_cases hfg : f = g
        · simp [hfg]
        · simpa [hfg] using (hmem f).mpr ⟨hfg, hlive⟩
  -- the devices of the group forget it, and keep what they are
  · intro d
    have hrec : (if (s.device d).group = some g then { s.device d with group := none }
        else s.device d).record = (s.device d).record := by
      split
      · rfl
      · rfl
    dsimp only
    rw [hrec]
    exact h.attached.attached d
  · intro d hd
    have hfields : (if (s.device d).group = some g then { s.device d with group := none }
        else s.device d).record = (s.device d).record ∧
        (if (s.device d).group = some g then { s.device d with group := none }
          else s.device d).type = (s.device d).type := by
      split
      · exact ⟨rfl, rfl⟩
      · exact ⟨rfl, rfl⟩
    dsimp only
    rw [hfields.1, hfields.2]
    exact h.attached.record d hd

/-- The loop over the groups. -/
theorem destroyGroups_gives (h : s.Wired) :
    Gives (s.groups.foldlM destroyGroup s) fun t => t.Wired ∧ t.groups = [] ∧
      t.devices = s.devices ∧ t.idle = s.idle := by
  generalize hl : s.groups = l
  induction l generalizing s with
  | nil => exact Gives.ok ⟨h, hl, rfl, rfl⟩
  | cons g l ih =>
    rw [List.foldlM_cons]
    refine (destroyGroup_gives h (hl ▸ List.mem_cons_self)).bind ?_
    rintro t ⟨hw, hg, hd, hi⟩
    rw [hl, List.erase_cons_head] at hg
    refine (ih hw hg).mono ?_
    rintro u ⟨hw', hg', hd', hi'⟩
    exact ⟨hw', hg', hd'.trans hd, hi'.trans hi⟩

/-- A device is removed from a seat without groups. -/
theorem deviceDestroy_ungrouped (h : s.Wired) (hg : s.groups = []) (hk : s.keyboard = none)
    (hd : d ∈ s.devices) : Gives (s.inputManagerHandleDeviceDestroy d false) fun t =>
      t.Wired ∧ t.groups = [] ∧ t.keyboard = none ∧ t.devices = s.devices.erase d ∧
        t.idle = s.idle := by
  have hnone : (s.device d).group = none := by
    by_contra hne
    obtain ⟨g, hdg⟩ := Option.ne_none_iff_exists'.mp hne
    have hgs := ((h.linked.link d hd g).mp hdg).1
    rw [hg] at hgs
    exact absurd hgs List.not_mem_nil
  have hremove : Ensures (s.seatRemoveDevice d false) fun t =>
      t.groups = s.groups ∧ t.keyboard = s.keyboard ∧ t.idle = s.idle := by
    rw [seatRemoveDevice]
    split
    · rw [removeKeyboard, hnone]
      exact Ensures.ok ⟨rfl, rfl, rfl⟩
    · rw [removePointer]
      split
      · exact Ensures.ok ⟨rfl, rfl, rfl⟩
      · exact Ensures.ok ⟨rfl, rfl, rfl⟩
    · rw [removeTouch]
      split
      · exact Ensures.ok ⟨rfl, rfl, rfl⟩
      · exact Ensures.ok ⟨rfl, rfl, rfl⟩
    · exact Ensures.ok ⟨rfl, rfl, rfl⟩
    · exact Ensures.ok ⟨rfl, rfl, rfl⟩
    · exact Ensures.ok ⟨rfl, rfl, rfl⟩
  refine ((seatRemoveDevice_gives h hd).and hremove).bind ?_
  rintro s' ⟨hleft, hgroups, hkeyboard, hidle⟩
  have hnull : s'.keyboard = none := hkeyboard.trans hk
  refine Gives.ok ⟨?_, hgroups.trans hg, hnull, congrArg (·.erase d) hleft.devices, hidle⟩
  exact hleft.erase hd (.inr ⟨rfl, by simp [hnull]⟩)

/-- **The end of the seat.**  After any run, no device or group that is freed is used when the
seat ends: no device, group or device of the cursor is left, and the only groups that are still
allocated are those that wait to be freed. -/
theorem handleDestroy_gives (k : Text) (evs : List DeviceEvent) :
    Gives (run step (init k) evs) fun s => Gives s.handleDestroy fun t =>
      t.devices = [] ∧ t.groups = [] ∧ t.cgGroups = ∅ ∧ t.attached = ∅ ∧
        t.wlrGroups = s.idle.toFinset := by
  refine (Gives.foldlM (fun _ ev _ h => step_gives h ev) init_wired).mono fun s h => ?_
  rw [handleDestroy]
  refine (destroyGroups_gives h).bind ?_
  rintro u ⟨hw, hg, hd, hi⟩
  have hnull : ({ u with keyboard := none } : SeatDevices).Wired :=
    ⟨⟨hw.linked.nodup, hw.linked.fresh, hw.linked.link, hw.linked.member, hw.linked.members,
      hw.linked.nonempty, hw.linked.keymap⟩, ⟨hw.stored.nodup, hw.stored.fresh, hw.stored.cg,
      hw.stored.wlr⟩, trivial, ⟨hw.attached.attached, hw.attached.record⟩⟩
  -- each iteration takes off the first device
  have hloop : ∀ (l : List ℕ) (t : SeatDevices), t.Wired → t.groups = [] → t.keyboard = none →
      t.devices = l → t.idle = s.idle →
      Gives (l.foldlM (fun s d => s.inputManagerHandleDeviceDestroy d false) t) fun t =>
        t.Wired ∧ t.devices = [] ∧ t.groups = [] ∧ t.idle = s.idle := by
    intro l
    induction l with
    | nil =>
      intro t hw hg _ hd hi
      exact Gives.ok ⟨hw, hd, hg, hi⟩
    | cons d l ih =>
      intro t hw hg hk hd hi
      rw [List.foldlM_cons]
      refine (deviceDestroy_ungrouped hw hg hk (hd ▸ List.mem_cons_self)).bind ?_
      rintro t' ⟨hw', hg', hk', hd', hi'⟩
      rw [hd, List.erase_cons_head] at hd'
      exact ih t' hw' hg' hk' hd' (hi'.trans hi)
  refine (hloop u.devices _ hnull hg rfl rfl hi).mono ?_
  rintro t ⟨hw', hd', hg', hi'⟩
  refine ⟨hd', hg', ?_, ?_, ?_⟩
  · ext g
    rw [hw'.stored.cg, hg']
    simp
  · ext d
    rw [hw'.attached.attached, hd']
    simp
  · ext g
    rw [hw'.stored.wlr, hg', hi', List.mem_toFinset]
    simp

end SeatDevices

end Cagebreak
