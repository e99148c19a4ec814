/-
How input devices are configured.

The records of `server->input_config` that match a device are applied to it one
after the other, the newest first, each time a command is executed and when the
device appears.

* `Applied` — what a device then has: the oldest record decides, and for the
  event mode the oldest record of all;
* `device_settings_iff` — when that is what was given last.
-/
import Cagebreak.InputConfig
import Cagebreak.Lib.Override

namespace Cagebreak

/-- `enum wlr_input_device_type`. -/
inductive WlrInputDeviceType
  | keyboard
  | pointer
  | touch
  | tablet
  | tabletPad
  | switch
  deriving DecidableEq, Repr

/-- What libinput stores for a device. -/
inductive DeviceSetting
  | sendEvents
  | tap
  | tapButtonMap
  | tapDrag
  | tapDragLock
  | accelSpeed
  | accelProfile
  | naturalScroll
  | leftHanded
  | clickMethod
  | middleEmulation
  | scrollMethod
  | scrollButton
  | dwt
  | calibrationMatrix
  deriving DecidableEq, Repr

namespace DeviceSetting

/-- Numbers but for the speed and the matrix. -/
abbrev Value : DeviceSetting → Type
  | accelSpeed => CFloat
  | calibrationMatrix => Vector CFloat 6
  | _ => ℤ

/-- The comparison of a value with the one that the device has. -/
def same : (s : DeviceSetting) → s.Value → s.Value → Bool
  | accelSpeed, a, b => CFloat.eq a b
  | calibrationMatrix, a, b => (List.finRange 6).all fun i => CFloat.eq a[i] b[i]
  | sendEvents, a, b | tap, a, b | tapButtonMap, a, b | tapDrag, a, b | tapDragLock, a, b
  | accelProfile, a, b | naturalScroll, a, b | leftHanded, a, b | clickMethod, a, b
  | middleEmulation, a, b | scrollMethod, a, b | scrollButton, a, b | dwt, a, b =>
    decide ((a : ℤ) = b)

theorem eq_of_same {s : DeviceSetting} {a b : s.Value} (h : s.same a b = true) : a = b := by
  cases s with
  | accelSpeed => exact CFloat.eq_of_eq h
  | calibrationMatrix =>
    refine Vector.ext fun i hi => CFloat.eq_of_eq ?_
    exact List.all_eq_true.mp h ⟨i, hi⟩ (List.mem_finRange _)
  | _ => exact of_decide_eq_true h

end DeviceSetting

/-- A device as the backend presents it, with the settings it starts with. -/
structure WlrInputDevice where
  type : WlrInputDeviceType
  isLibinput : Bool
  tapFingerCount : ℤ
  accelIsAvailable : Bool
  hasNaturalScroll : Bool
  leftHandedIsAvailable : Bool
  clickMethods : ℕ
  middleEmulationIsAvailable : Bool
  scrollMethods : ℕ
  dwtIsAvailable : Bool
  hasMatrix : Bool
  dflt : (s : DeviceSetting) → s.Value

/-- `struct cg_input_device`, and the settings of the device. -/
structure InputDevice where
  identifier : Text
  wlrDevice : WlrInputDevice
  value : (s : DeviceSetting) → s.Value

namespace InputDevice

/-- The check in the setter of a setting that the device has it. -/
def supports (d : InputDevice) : DeviceSetting → Bool
  | .sendEvents => true
  | .tap | .tapButtonMap | .tapDrag | .tapDragLock => decide (0 < d.wlrDevice.tapFingerCount)
  | .accelSpeed | .accelProfile => d.wlrDevice.accelIsAvailable
  | .naturalScroll => d.wlrDevice.hasNaturalScroll
  | .leftHanded => d.wlrDevice.leftHandedIsAvailable
  | .clickMethod => decide (d.wlrDevice.clickMethods ≠ 0)
  | .middleEmulation => d.wlrDevice.middleEmulationIsAvailable
  | .scrollMethod | .scrollButton => decide (d.wlrDevice.scrollMethods ≠ 0)
  | .dwt => d.wlrDevice.dwtIsAvailable
  | .calibrationMatrix => d.wlrDevice.hasMatrix

/-- A setter: nothing happens if the device does not have the setting, or has
this value. -/
def set (d : InputDevice) (s : DeviceSetting) (v : s.Value) : InputDevice :=
  if !d.supports s || s.same (d.value s) v then d
  else { d with value := Function.update d.value s v }

/-- The conversions of an `int` to `uint32_t` and to an enumeration. -/
def toUInt32 (n : ℤ) : ℤ := n % 2 ^ 32

/-- The conversion of an `int` to `bool`. -/
def toBool (n : ℤ) : ℤ := if n ≠ 0 then 1 else 0

def setSendEvents (d : InputDevice) (mode : ℤ) : InputDevice := d.set .sendEvents mode
def setTap (d : InputDevice) (tap : ℤ) : InputDevice := d.set .tap tap
def setTapButtonMap (d : InputDevice) (map : ℤ) : InputDevice := d.set .tapButtonMap map
def setTapDrag (d : InputDevice) (drag : ℤ) : InputDevice := d.set .tapDrag drag
def setTapDragLock (d : InputDevice) (lock : ℤ) : InputDevice := d.set .tapDragLock lock
def setAccelSpeed (d : InputDevice) (speed : CFloat) : InputDevice := d.set .accelSpeed speed
def setAccelProfile (d : InputDevice) (profile : ℤ) : InputDevice := d.set .accelProfile profile
def setNaturalScroll (d : InputDevice) (n : ℤ) : InputDevice := d.set .naturalScroll n
def setLeftHanded (d : InputDevice) (left : ℤ) : InputDevice := d.set .leftHanded left
def setClickMethod (d : InputDevice) (method : ℤ) : InputDevice := d.set .clickMethod method
def setMiddleEmulation (d : InputDevice) (mid : ℤ) : InputDevice := d.set .middleEmulation mid
def setScrollMethod (d : InputDevice) (method : ℤ) : InputDevice := d.set .scrollMethod method
def setScrollButton (d : InputDevice) (button : ℤ) : InputDevice := d.set .scrollButton button
def setDwt (d : InputDevice) (dwt : ℤ) : InputDevice := d.set .dwt dwt
def setCalibrationMatrix (d : InputDevice) (mat : Vector CFloat 6) : InputDevice :=
  d.set .calibrationMatrix mat

end InputDevice

open InputDevice

/-- The name of an output and its make, model and serial number. -/
structure OutputIds where
  name : Text
  identifier : Text
  deriving DecidableEq, Repr

/-- `tolower` in the C locale. -/
def toLower (c : UInt8) : UInt8 := if 65 ≤ c ∧ c ≤ 90 then c + 32 else c

/-- `output_by_name_or_id`; `output_get_identifier` cuts the identifier to a
buffer of 128 bytes. -/
def outputByNameOrId (nameOrId : Text) (outputs : List OutputIds) : Option OutputIds :=
  outputs.find? fun output =>
    decide ((output.identifier.take 127).map toLower = nameOrId.map toLower) ||
      decide (output.name.map toLower = nameOrId.map toLower)

/-- `device_is_touchpad`. -/
def deviceIsTouchpad (d : InputDevice) : Bool :=
  if d.wlrDevice.type ≠ .pointer ∨ d.wlrDevice.isLibinput = false then false
  else decide (0 < d.wlrDevice.tapFingerCount)

/-- `input_device_get_type`. -/
def inputDeviceGetType (d : InputDevice) : Text :=
  match d.wlrDevice.type with
  | .pointer => if deviceIsTouchpad d then ascii "touchpad" else ascii "pointer"
  | .keyboard => ascii "keyboard"
  | .touch => ascii "touch"
  | .tablet => ascii "tablet_tool"
  | .tabletPad => ascii "tablet_pad"
  | .switch => ascii "switch"

/-- The first branch of `apply_config_to_device`. -/
def applySendEvents (outputs : List OutputIds) (config : InputConfig) (d : InputDevice) :
    InputDevice :=
  if ∃ output ∈ config.mappedToOutput, outputByNameOrId output outputs = none then
    d.setSendEvents 1  -- `LIBINPUT_CONFIG_SEND_EVENTS_DISABLED`
  else if config.sendEvents ≠ intMin then d.setSendEvents (toUInt32 config.sendEvents)
  else d.setSendEvents (d.wlrDevice.dflt .sendEvents)

/-- `apply_config_to_device`. -/
def applyConfigToDevice (outputs : List OutputIds) (config : InputConfig) (d : InputDevice) :
    InputDevice :=
  if d.wlrDevice.isLibinput then
    let d := applySendEvents outputs config d
    let d := if config.tap ≠ intMin then d.setTap (toUInt32 config.tap) else d
    let d := if config.tapButtonMap ≠ intMin then d.setTapButtonMap (toUInt32 config.tapButtonMap)
      else d
    let d := if config.drag ≠ intMin then d.setTapDrag (toUInt32 config.drag) else d
    let d := if config.dragLock ≠ intMin then d.setTapDragLock (toUInt32 config.dragLock) else d
    let d := if !config.pointerAccel.eq fltMin then d.setAccelSpeed config.pointerAccel else d
    let d := if config.accelProfile ≠ intMin then d.setAccelProfile (toUInt32 config.accelProfile)
      else d
    let d := if config.naturalScroll ≠ intMin then d.setNaturalScroll (toBool config.naturalScroll)
      else d
    let d := if config.leftHanded ≠ intMin then d.setLeftHanded (toBool config.leftHanded) else d
    let d := if config.clickMethod ≠ intMin then d.setClickMethod (toUInt32 config.clickMethod)
      else d
    let d := if config.middleEmulation ≠ intMin then
        d.setMiddleEmulation (toUInt32 config.middleEmulation)
      else d
    let d := if config.scrollMethod ≠ intMin then d.setScrollMethod (toUInt32 config.scrollMethod)
      else d
    let d := if config.scrollButton ≠ intMin then d.setScrollButton (toUInt32 config.scrollButton)
      else d
    let d := if config.dwt ≠ intMin then d.setDwt (toBool config.dwt) else d
    let d := if config.calibrationMatrix.configured then
        d.setCalibrationMatrix config.calibrationMatrix.matrix
      else d
    d
  else d

/-- The condition of `cg_input_configure_libinput_device`. -/
def configMatches (d : InputDevice) (config : InputConfig) : Bool :=
  config.identifier.any fun identifier =>
    decide (identifier = d.identifier) || decide (identifier = ascii "*") ||
      (decide (identifier.take 5 = ascii "type:") &&
        decide (identifier.drop 5 = inputDeviceGetType d))

/-- `cg_input_configure_libinput_device`. -/
def cgInputConfigureLibinputDevice (inputConfig : List InputConfig) (outputs : List OutputIds)
    (d : InputDevice) : InputDevice :=
  inputConfig.foldl (fun d config =>
    if configMatches d config then applyConfigToDevice outputs config d else d) d

/-- The parts of the server that configure input devices. -/
structure InputServer where
  inputConfig : List InputConfig
  devices : List InputDevice
  outputs : List OutputIds

/-- The parser has put the identifier into the record of a command. -/
structure InputCommand where
  config : InputConfig
  named : config.identifier ≠ none

/-- What happens to the input devices. -/
inductive InputEvent
  | configure (cmd : InputCommand)
  | newInput (identifier : Text) (device : WlrInputDevice)
  | deviceDestroy (i : ℕ)
  | outputs (outputs : List OutputIds)

/-- `keybinding_configure_input`, up to the event it sends. -/
def keybindingConfigureInput (cfg : InputConfig) (server : InputServer) : InputServer :=
  let inputConfig := inputManagerMergeInputConfigs cfg emptyInputConfig :: server.inputConfig
  { server with
    inputConfig
    devices := server.devices.map (cgInputConfigureLibinputDevice inputConfig server.outputs) }

/-- `new_input`. -/
def newInput (identifier : Text) (device : WlrInputDevice) (server : InputServer) : InputServer :=
  { server with
    devices := cgInputConfigureLibinputDevice server.inputConfig server.outputs
      ⟨identifier, device, device.dflt⟩ :: server.devices }

def inputStep (server : InputServer) : InputEvent → InputServer
  | .configure cmd => keybindingConfigureInput cmd.config server
  | .newInput identifier device => newInput identifier device server
  | .deviceDestroy i => { server with devices := server.devices.eraseIdx i }
  | .outputs outputs => { server with outputs }

def inputRun (evs : List InputEvent) : InputServer := evs.foldl inputStep ⟨[], [], []⟩

/-- The commands of a run, the oldest first. -/
def inputCommands (evs : List InputEvent) : List InputConfig :=
  evs.filterMap fun
    | .configure cmd => some cmd.config
    | _ => none

/-! ### Setting one value -/

namespace InputDevice

variable {d : InputDevice} {s t : DeviceSetting} {v : s.Value}

@[simp] theorem set_wlrDevice : (d.set s v).wlrDevice = d.wlrDevice := by
  rw [set]
  split
  · rfl
  · rfl

@[simp] theorem set_identifier : (d.set s v).identifier = d.identifier := by
  rw [set]
  split
  · rfl
  · rfl

@[simp] theorem supports_set : (d.set s v).supports t = d.supports t := by
  cases t <;> simp [supports]

theorem set_of_not_supports (hs : d.supports s = false) : d.set s v = d := by
  rw [set, if_pos (by simp [hs])]

theorem set_value_self (hs : d.supports s = true) : (d.set s v).value s = v := by
  rw [set]
  by_cases h : s.same (d.value s) v = true
  · rw [if_pos (by simp [h])]
    exact DeviceSetting.eq_of_same h
  · rw [if_neg (by simp [hs, h])]
    exact Function.update_self ..

theorem set_value_of_ne (hne : t ≠ s) : (d.set s v).value t = d.value t := by
  rw [set]
  split
  · rfl
  · exact Function.update_of_ne hne ..

end InputDevice

/-- What a record says about a setting of a device. -/
def DeviceSetting.setting : (s : DeviceSetting) → Setting InputConfig s.Value
  | sendEvents => ⟨fun c => toUInt32 c.sendEvents, fun c => decide (c.sendEvents ≠ intMin)⟩
  | tap => ⟨fun c => toUInt32 c.tap, fun c => decide (c.tap ≠ intMin)⟩
  | tapButtonMap => ⟨fun c => toUInt32 c.tapButtonMap, fun c => decide (c.tapButtonMap ≠ intMin)⟩
  | tapDrag => ⟨fun c => toUInt32 c.drag, fun c => decide (c.drag ≠ intMin)⟩
  | tapDragLock => ⟨fun c => toUInt32 c.dragLock, fun c => decide (c.dragLock ≠ intMin)⟩
  | accelSpeed => ⟨fun c => c.pointerAccel, fun c => !c.pointerAccel.eq fltMin⟩
  | accelProfile => ⟨fun c => toUInt32 c.accelProfile, fun c => decide (c.accelProfile ≠ intMin)⟩
  | naturalScroll => ⟨fun c => toBool c.naturalScroll, fun c => decide (c.naturalScroll ≠ intMin)⟩
  | leftHanded => ⟨fun c => toBool c.leftHanded, fun c => decide (c.leftHanded ≠ intMin)⟩
  | clickMethod => ⟨fun c => toUInt32 c.clickMethod, fun c => decide (c.clickMethod ≠ intMin)⟩
  | middleEmulation =>
    ⟨fun c => toUInt32 c.middleEmulation, fun c => decide (c.middleEmulation ≠ intMin)⟩
  | scrollMethod => ⟨fun c => toUInt32 c.scrollMethod, fun c => decide (c.scrollMethod ≠ intMin)⟩
  | scrollButton => ⟨fun c => toUInt32 c.scrollButton, fun c => decide (c.scrollButton ≠ intMin)⟩
  | dwt => ⟨fun c => toBool c.dwt, fun c => decide (c.dwt ≠ intMin)⟩
  | calibrationMatrix =>
    ⟨fun c => c.calibrationMatrix.matrix, fun c => c.calibrationMatrix.configured⟩

section Apply

variable {d : InputDevice} {s t : DeviceSetting} {config : InputConfig}
  {outputs : List OutputIds} {ss : List DeviceSetting}

/-- A setting is set if a record gives it. -/
def giveSetting (config : InputConfig) (d : InputDevice) (s : DeviceSetting) : InputDevice :=
  if s.setting.isSet config then d.set s (s.setting.get config) else d

/-- The settings in the order in which `apply_config_to_device` sets them, but
for the event mode. -/
def otherSettings : List DeviceSetting :=
  [.tap, .tapButtonMap, .tapDrag, .tapDragLock, .accelSpeed, .accelProfile, .naturalScroll,
    .leftHanded, .clickMethod, .middleEmulation, .scrollMethod, .scrollButton, .dwt,
    .calibrationMatrix]

theorem applyConfigToDevice_eq (hl : d.wlrDevice.isLibinput = true) :
    applyConfigToDevice outputs config d =
      otherSettings.foldl (giveSetting config) (applySendEvents outputs config d) := by
  rw [applyConfigToDevice, if_pos hl]
  simp only [otherSettings, List.foldl, giveSetting, DeviceSetting.setting, decide_eq_true_eq]
  rfl

/-- Two states of one device. -/
structure SameDevice (d d' : InputDevice) : Prop where
  identifier : d'.identifier = d.identifier
  wlrDevice : d'.wlrDevice = d.wlrDevice

theorem SameDevice.refl (d : InputDevice) : SameDevice d d := ⟨rfl, rfl⟩

theorem SameDevice.trans {d d' d'' : InputDevice} (h : SameDevice d d') (h' : SameDevice d' d'') :
    SameDevice d d'' :=
  ⟨h'.identifier.trans h.identifier, h'.wlrDevice.trans h.wlrDevice⟩

theorem SameDevice.supports {d' : InputDevice} (h : SameDevice d d') :
    d'.supports s = d.supports s := by
  cases s <;> simp [InputDevice.supports, h.wlrDevice]

theorem SameDevice.configMatches {d' : InputDevice} (h : SameDevice d d') :
    configMatches d' config = configMatches d config := by
  obtain ⟨identifier, wlrDevice, value⟩ := d
  obtain ⟨identifier', wlrDevice', value'⟩ := d'
  obtain rfl : identifier' = identifier := h.identifier
  obtain rfl : wlrDevice' = wlrDevice := h.wlrDevice
  rfl

theorem sameDevice_set {v : s.Value} : SameDevice d (d.set s v) := ⟨set_identifier, set_wlrDevice⟩

theorem sameDevice_giveSetting : SameDevice d (giveSetting config d s) := by
  rw [giveSetting]
  split
  · exact sameDevice_set
  · exact .refl d

theorem sameDevice_foldl_giveSetting : SameDevice d (ss.foldl (giveSetting config) d) := by
  induction ss generalizing d with
  | nil => exact .refl d
  | cons s ss ih => exact sameDevice_giveSetting.trans ih

theorem sameDevice_applySendEvents : SameDevice d (applySendEvents outputs config d) := by
  rw [applySendEvents]
  split
  · exact sameDevice_set
  · split
    · exact sameDevice_set
    · exact sameDevice_set

theorem sameDevice_applyConfigToDevice : SameDevice d (applyConfigToDevice outputs config d) := by
  by_cases hl : d.wlrDevice.isLibinput = true
  · rw [applyConfigToDevice_eq hl]
    exact sameDevice_applySendEvents.trans sameDevice_foldl_giveSetting
  · rw [applyConfigToDevice, if_neg hl]
    exact .refl d

theorem giveSetting_value_of_ne (hne : s ≠ t) : (giveSetting config d t).value s = d.value s := by
  rw [giveSetting]
  split
  · exact set_value_of_ne hne
  · rfl

theorem giveSetting_value_self (hs : d.supports s = true) : (giveSetting config d s).value s =
    if s.setting.isSet config then s.setting.get config else d.value s := by
  rw [giveSetting]
  split
  · exact set_value_self hs
  · rfl

theorem foldl_giveSetting_value_of_not_mem (hs : s ∉ ss) :
    (ss.foldl (giveSetting config) d).value s = d.value s := by
  induction ss generalizing d with
  | nil => rfl
  | cons t ss ih =>
    rw [List.mem_cons, not_or] at hs
    rw [List.foldl_cons, ih hs.2, giveSetting_value_of_ne hs.1]

theorem foldl_giveSetting_value (hnd : ss.Nodup) (hmem : s ∈ ss) (hs : d.supports s = true) :
    (ss.foldl (giveSetting config) d).value s =
      if s.setting.isSet config then s.setting.get config else d.value s := by
  induction ss generalizing d with
  | nil => cases hmem
  | cons t ss ih =>
    rw [List.nodup_cons] at hnd
    rw [List.foldl_cons]
    by_cases hst : s = t
    · subst hst
      rw [foldl_giveSetting_value_of_not_mem hnd.1, giveSetting_value_self hs]
    · rw [ih hnd.2 ((List.mem_cons.mp hmem).resolve_left hst)
        (by rw [sameDevice_giveSetting.supports, hs]), giveSetting_value_of_ne hst]

/-- No setter changes a setting that the device does not have. -/
theorem giveSetting_value_of_not_supports (hs : d.supports s = false) :
    (giveSetting config d t).value s = d.value s := by
  by_cases hst : s = t
  · subst hst
    rw [giveSetting, set_of_not_supports hs, ite_self]
  · exact giveSetting_value_of_ne hst

theorem foldl_giveSetting_value_of_not_supports (hs : d.supports s = false) :
    (ss.foldl (giveSetting config) d).value s = d.value s := by
  induction ss generalizing d with
  | nil => rfl
  | cons t ss ih =>
    rw [List.foldl_cons, ih (by rw [sameDevice_giveSetting.supports, hs]),
      giveSetting_value_of_not_supports hs]

theorem mem_otherSettings (hs : s ≠ .sendEvents) : s ∈ otherSettings := by
  cases s <;> first | exact absurd rfl hs | decide

theorem nodup_otherSettings : otherSettings.Nodup := by decide

/-- A record decides the settings it gives, and in any case the event mode. -/
def appliedSetting (device : WlrInputDevice) (s : DeviceSetting) : Setting InputConfig s.Value where
  get c := if s.setting.isSet c then s.setting.get c else device.dflt s
  isSet c := decide (s = .sendEvents) || s.setting.isSet c

theorem applySendEvents_value (hm : config.mappedToOutput = none) :
    (applySendEvents outputs config d).value .sendEvents =
      (appliedSetting d.wlrDevice .sendEvents).get config := by
  rw [applySendEvents, if_neg (by simp [hm]), appliedSetting]
  by_cases h : config.sendEvents = intMin
  · rw [if_neg (not_not.mpr h), setSendEvents, set_value_self rfl]
    simp [DeviceSetting.setting, h]
  · rw [if_pos h, setSendEvents, set_value_self rfl]
    simp [DeviceSetting.setting, h]

theorem applySendEvents_value_of_ne (hs : s ≠ .sendEvents) :
    (applySendEvents outputs config d).value s = d.value s := by
  rw [applySendEvents]
  split
  · exact set_value_of_ne hs
  · split
    · exact set_value_of_ne hs
    · exact set_value_of_ne hs

/-- **What one record does to a setting.** -/
theorem applyConfigToDevice_value (hl : d.wlrDevice.isLibinput = true)
    (hm : config.mappedToOutput = none) (hs : d.supports s = true) :
    (applyConfigToDevice outputs config d).value s =
      if (appliedSetting d.wlrDevice s).isSet config then (appliedSetting d.wlrDevice s).get config
      else d.value s := by
  rw [applyConfigToDevice_eq hl]
  by_cases hse : s = .sendEvents
  · subst hse
    have hset : (appliedSetting d.wlrDevice .sendEvents).isSet config = true := rfl
    rw [foldl_giveSetting_value_of_not_mem (by decide), applySendEvents_value hm, if_pos hset]
  · rw [foldl_giveSetting_value nodup_otherSettings (mem_otherSettings hse)
      (by rw [sameDevice_applySendEvents.supports, hs]), applySendEvents_value_of_ne hse]
    by_cases hset : s.setting.isSet config = true
    · simp [appliedSetting, hset]
    · simp [appliedSetting, hset, hse]

theorem applyConfigToDevice_value_of_not_supports (hs : d.supports s = false) :
    (applyConfigToDevice outputs config d).value s = d.value s := by
  have hse : s ≠ .sendEvents := by
    rintro rfl
    cases hs
  by_cases hl : d.wlrDevice.isLibinput = true
  · rw [applyConfigToDevice_eq hl, foldl_giveSetting_value_of_not_supports
      (by rw [sameDevice_applySendEvents.supports, hs]), applySendEvents_value_of_ne hse]
  · rw [applyConfigToDevice, if_neg hl]

/-- The records that match a device. -/
def matching (d : InputDevice) (cs : List InputConfig) : List InputConfig :=
  cs.filter (configMatches d)

theorem SameDevice.matching {d' : InputDevice} (h : SameDevice d d') (cs : List InputConfig) :
    matching d' cs = matching d cs :=
  List.filter_congr fun _ _ => h.configMatches

variable {inputConfig : List InputConfig}

/-- One round of the loop of `cg_input_configure_libinput_device`. -/
theorem sameDevice_round : SameDevice d
    (if configMatches d config then applyConfigToDevice outputs config d else d) := by
  split
  · exact sameDevice_applyConfigToDevice
  · exact .refl d

theorem sameDevice_configure :
    SameDevice d (cgInputConfigureLibinputDevice inputConfig outputs d) := by
  rw [cgInputConfigureLibinputDevice]
  induction inputConfig generalizing d with
  | nil => exact .refl d
  | cons config inputConfig ih => exact sameDevice_round.trans ih

/-- **The last record of the list that decides a setting wins.** -/
theorem configure_value (hl : d.wlrDevice.isLibinput = true)
    (hm : ∀ config ∈ inputConfig, config.mappedToOutput = none) (hs : d.supports s = true) :
    (cgInputConfigureLibinputDevice inputConfig outputs d).value s =
      (appliedSetting d.wlrDevice s).lastGiven (d.value s) (matching d inputConfig) := by
  rw [cgInputConfigureLibinputDevice]
  induction inputConfig generalizing d with
  | nil => rfl
  | cons config inputConfig ih =>
    have hround : SameDevice d
        (if configMatches d config then applyConfigToDevice outputs config d else d) :=
      sameDevice_round
    rw [List.foldl_cons, ih (by rw [hround.wlrDevice, hl])
      (fun c hc => hm c (List.mem_cons_of_mem _ hc)) (by rw [hround.supports, hs]),
      hround.matching, hround.wlrDevice]
    by_cases hmatch : configMatches d config = true
    · rw [if_pos hmatch, applyConfigToDevice_value hl (hm config List.mem_cons_self) hs, matching,
        matching, List.filter_cons_of_pos hmatch, Setting.lastGiven_cons]
    · rw [if_neg hmatch, matching, matching, List.filter_cons_of_neg hmatch]

theorem configure_value_of_not_supports (hs : d.supports s = false) :
    (cgInputConfigureLibinputDevice inputConfig outputs d).value s = d.value s := by
  rw [cgInputConfigureLibinputDevice]
  induction inputConfig generalizing d with
  | nil => rfl
  | cons config inputConfig ih =>
    rw [List.foldl_cons, ih (by rw [sameDevice_round.supports, hs])]
    split
    · exact applyConfigToDevice_value_of_not_supports hs
    · rfl

end Apply

/-! ### Runs -/

section Runs

variable {d : InputDevice} {s : DeviceSetting} {cs : List InputConfig} {server : InputServer}
  {evs : List InputEvent}

/-- What is stored for a command. -/
def storedConfig (cfg : InputConfig) : InputConfig :=
  inputManagerMergeInputConfigs cfg emptyInputConfig

theorem storedConfig_isSet (cfg : InputConfig) :
    s.setting.isSet (storedConfig cfg) = s.setting.isSet cfg := by
  rw [storedConfig, merge_emptyInputConfig]
  cases s with
  | calibrationMatrix =>
    show (ite _ _ _ : CalibrationMatrix).configured = cfg.calibrationMatrix.configured
    split
    · next h => exact h.symm
    · rfl
  | _ => rfl

theorem storedConfig_get {cfg : InputConfig} (hset : s.setting.isSet cfg = true) :
    s.setting.get (storedConfig cfg) = s.setting.get cfg := by
  rw [storedConfig, merge_emptyInputConfig]
  cases s with
  | calibrationMatrix =>
    show (ite _ _ _ : CalibrationMatrix).matrix = cfg.calibrationMatrix.matrix
    rw [if_neg]
    exact Bool.not_eq_false _ ▸ hset
  | _ => rfl

theorem storedConfig_matches (cfg : InputConfig) :
    configMatches d (storedConfig cfg) = configMatches d cfg := by
  rw [storedConfig, merge_emptyInputConfig]
  rfl

theorem matching_map_storedConfig :
    matching d (cs.map storedConfig) = (matching d cs).map storedConfig := by
  rw [matching, List.filter_map]
  exact congrArg _ (List.filter_congr fun c _ => storedConfig_matches c)

/-- A stored record decides what the command does. -/
theorem appliedSetting_map_storedConfig {device : WlrInputDevice} {v : s.Value} :
    (appliedSetting device s).lastGiven v (cs.map storedConfig) =
      (appliedSetting device s).lastGiven v cs := by
  refine Setting.lastGiven_map (fun c => ?_) fun c _ => ?_
  · simp only [appliedSetting, storedConfig_isSet]
  · simp only [appliedSetting, storedConfig_isSet]
    by_cases hset : s.setting.isSet c = true
    · rw [if_pos hset, if_pos hset, storedConfig_get hset]
    · rw [if_neg hset, if_neg hset]

/-- A device after commands `cs`: the oldest that matches it and decides a
setting has given the value, if the device has the setting at all. -/
structure Applied (cs : List InputConfig) (d : InputDevice) : Prop where
  supported : ∀ s, d.supports s = true → d.value s =
    (appliedSetting d.wlrDevice s).lastGiven (d.wlrDevice.dflt s) (matching d cs.reverse)
  unsupported : ∀ s, d.supports s = false → d.value s = d.wlrDevice.dflt s

/-- The commands are stored the newest first, and have been applied. -/
structure InputInv (cs : List InputConfig) (server : InputServer) : Prop where
  inputConfig : server.inputConfig = cs.reverse.map storedConfig
  devices : ∀ d ∈ server.devices, d.wlrDevice.isLibinput = true → Applied cs d

theorem configure_stored_value {outputs : List OutputIds} (hl : d.wlrDevice.isLibinput = true)
    (hs : d.supports s = true) :
    (cgInputConfigureLibinputDevice (cs.map storedConfig) outputs d).value s =
      (appliedSetting d.wlrDevice s).lastGiven (d.value s) (matching d cs) := by
  rw [configure_value hl _ hs, matching_map_storedConfig, appliedSetting_map_storedConfig]
  intro config hconfig
  obtain ⟨c, -, rfl⟩ := List.mem_map.mp hconfig
  rfl

/-- Applying the stored records once more does not change who decides. -/
theorem applied_configure {outputs : List OutputIds} {c : InputConfig}
    (hl : d.wlrDevice.isLibinput = true) (h : Applied cs d) : Applied (cs ++ [c])
      (cgInputConfigureLibinputDevice ((cs ++ [c]).reverse.map storedConfig) outputs d) := by
  have hsame : SameDevice d
      (cgInputConfigureLibinputDevice ((cs ++ [c]).reverse.map storedConfig) outputs d) :=
    sameDevice_configure
  constructor
  · intro s hs
    rw [hsame.supports] at hs
    rw [configure_stored_value hl hs, hsame.matching, hsame.wlrDevice, h.supported s hs,
      List.reverse_concat]
    by_cases hmatch : configMatches d c = true
    · rw [matching, matching, List.filter_cons_of_pos hmatch, Setting.lastGiven_cons_lastGiven]
    · rw [matching, matching, List.filter_cons_of_neg hmatch]
      exact Setting.lastGiven_lastGiven
  · intro s hs
    rw [hsame.supports] at hs
    rw [configure_value_of_not_supports hs, hsame.wlrDevice, h.unsupported s hs]

theorem applied_new {outputs : List OutputIds} (hl : d.wlrDevice.isLibinput = true)
    (hnew : d.value = d.wlrDevice.dflt) : Applied cs
      (cgInputConfigureLibinputDevice (cs.reverse.map storedConfig) outputs d) := by
  have hsame : SameDevice d
      (cgInputConfigureLibinputDevice (cs.reverse.map storedConfig) outputs d) :=
    sameDevice_configure
  constructor
  · intro s hs
    rw [hsame.supports] at hs
    rw [configure_stored_value hl hs, hsame.matching, hsame.wlrDevice, hnew]
  · intro s hs
    rw [hsame.supports] at hs
    rw [configure_value_of_not_supports hs, hsame.wlrDevice, hnew]

theorem inputStep_inv (h : InputInv cs server) (ev : InputEvent) :
    InputInv (cs ++ inputCommands [ev]) (inputStep server ev) := by
  cases ev with
  | configure cmd =>
    have hstored : inputManagerMergeInputConfigs cmd.config emptyInputConfig :: server.inputConfig =
        (cs ++ [cmd.config]).reverse.map storedConfig := by
      rw [h.inputConfig, List.reverse_concat, List.map_cons, storedConfig]
    refine ⟨hstored, fun d hd hl => ?_⟩
    obtain ⟨d', hd', rfl⟩ := List.mem_map.mp hd
    rw [hstored] at hl ⊢
    rw [sameDevice_configure.wlrDevice] at hl
    exact applied_configure hl (h.devices d' hd' hl)
  | newInput identifier device =>
    rw [show inputCommands [.newInput identifier device] = [] from rfl, List.append_nil]
    refine ⟨h.inputConfig, fun d hd hl => ?_⟩
    obtain rfl | hd := List.mem_cons.mp hd
    · rw [sameDevice_configure.wlrDevice] at hl
      rw [h.inputConfig]
      exact applied_new hl rfl
    · exact h.devices d hd hl
  | deviceDestroy i =>
    rw [show inputCommands [.deviceDestroy i] = [] from rfl, List.append_nil]
    exact ⟨h.inputConfig, fun d hd hl => h.devices d (List.mem_of_mem_eraseIdx hd) hl⟩
  | outputs outputs =>
    rw [show inputCommands [.outputs outputs] = [] from rfl, List.append_nil]
    exact ⟨h.inputConfig, h.devices⟩

theorem inputRun_inv : InputInv (inputCommands evs) (inputRun evs) := by
  induction evs using List.reverseRecOn with
  | nil => exact ⟨rfl, fun d hd => absurd hd List.not_mem_nil⟩
  | append_singleton evs ev ih =>
    rw [inputCommands, List.filterMap_append, inputRun, List.foldl_concat]
    exact inputStep_inv ih ev

/-- The oldest matching command that decides the setting and the newest that
gives it say the same; the event mode is decided by any matching command. -/
def Settled (d : InputDevice) (s : DeviceSetting) (cs : List InputConfig) : Prop :=
  ∀ newest, (matching d cs).reverse.find? s.setting.isSet = some newest →
    ∀ oldest, (matching d cs).find? (fun c => decide (s = .sendEvents) || s.setting.isSet c) =
      some oldest →
    (if s.setting.isSet oldest then s.setting.get oldest else d.wlrDevice.dflt s) =
      s.setting.get newest

theorem Applied.value_eq_iff (h : Applied cs d) (hs : d.supports s = true) :
    d.value s = s.setting.lastGiven (d.wlrDevice.dflt s) (matching d cs) ↔ Settled d s cs := by
  have hrev : (matching d cs.reverse).reverse = matching d cs := by
    rw [matching, List.filter_reverse, List.reverse_reverse, matching]
  rw [h.supported s hs, Setting.lastGiven, hrev, Setting.lastGiven, Settled]
  cases hnew : (matching d cs).reverse.find? s.setting.isSet with
  | none =>
    -- nobody gives the setting, so that whoever decides it says the default
    refine iff_of_true ?_ fun newest hnewest => absurd hnewest.symm (Option.some_ne_none newest)
    cases hold : (matching d cs).find? (appliedSetting d.wlrDevice s).isSet with
    | none => rfl
    | some oldest =>
      have hunset : s.setting.isSet oldest = false := by
        have hmem := List.mem_reverse.mpr (List.mem_of_find?_eq_some hold)
        simpa using List.find?_eq_none.mp hnew oldest hmem
      show (if s.setting.isSet oldest then _ else _) = _
      rw [hunset, if_neg Bool.false_ne_true]
      rfl
  | some newest =>
    obtain ⟨oldest, hold⟩ : ∃ oldest,
        (matching d cs).find? (appliedSetting d.wlrDevice s).isSet = some oldest := by
      rw [← Option.isSome_iff_exists, List.find?_isSome]
      refine ⟨newest, List.mem_reverse.mp (List.mem_of_find?_eq_some hnew), ?_⟩
      show (decide _ || s.setting.isSet newest) = true
      rw [List.find?_some hnew, Bool.or_true]
    rw [hold]
    constructor
    · rintro heq newest' hnewest oldest' holdest
      obtain rfl := Option.some.inj hnewest
      obtain rfl := Option.some.inj (hold.symm.trans holdest)
      exact heq
    · intro hsettled
      exact hsettled newest rfl oldest hold

/-- **What `input` commands do.**  After every run each libinput device has, for
each setting it has at all, the value of the most recent command that matches it
and gives the setting, exactly when the oldest one that decides it says the
same.  A setting that the device does not have keeps its default. -/
theorem device_settings_iff (hd : d ∈ (inputRun evs).devices)
    (hl : d.wlrDevice.isLibinput = true) :
    (d.supports s = true →
      (d.value s =
          s.setting.lastGiven (d.wlrDevice.dflt s) (matching d (inputCommands evs)) ↔
        Settled d s (inputCommands evs))) ∧
    (d.supports s = false → d.value s = d.wlrDevice.dflt s) := by
  have happlied := inputRun_inv.devices d hd hl
  exact ⟨happlied.value_eq_iff, happlied.unsupported s⟩

/-- A touchpad that can do everything, with every setting 0 at first. -/
def touchpad : WlrInputDevice where
  type := .pointer
  isLibinput := true
  tapFingerCount := 3
  accelIsAvailable := true
  hasNaturalScroll := true
  leftHandedIsAvailable := true
  clickMethods := 3
  middleEmulationIsAvailable := true
  scrollMethods := 7
  dwtIsAvailable := true
  hasMatrix := true
  dflt
    | .accelSpeed => .fin 0
    | .calibrationMatrix => Vector.replicate 6 (.fin 0)
    | .sendEvents | .tap | .tapButtonMap | .tapDrag | .tapDragLock | .accelProfile
    | .naturalScroll | .leftHanded | .clickMethod | .middleEmulation | .scrollMethod
    | .scrollButton | .dwt => (0 : ℤ)

/-- `input * tap enabled`, then `input * tap disabled`. -/
def tapTwice : List InputEvent :=
  [.newInput (ascii "0:0:pad") touchpad,
    .configure ⟨{ emptyInputConfig with identifier := some (ascii "*"), tap := 1 }, nofun⟩,
    .configure ⟨{ emptyInputConfig with identifier := some (ascii "*"), tap := 0 }, nofun⟩]

theorem device_settings_tap : ∃ d ∈ (inputRun tapTwice).devices,
    (d.value .tap = DeviceSetting.tap.setting.lastGiven (d.wlrDevice.dflt .tap)
        (matching d (inputCommands tapTwice)) ↔
      Settled d .tap (inputCommands tapTwice)) := by
  refine ⟨_, List.mem_cons_self, ?_⟩
  exact (device_settings_iff List.mem_cons_self (by decide +kernel)).1 (by decide +kernel)

/-- Tapping stays enabled. -/
theorem device_settings_tap_kept : ∃ d ∈ (inputRun tapTwice).devices,
    d.wlrDevice.isLibinput = true ∧ d.supports .tap = true ∧ d.value .tap = (1 : ℤ) ∧
    DeviceSetting.tap.setting.lastGiven (d.wlrDevice.dflt .tap)
      (matching d (inputCommands tapTwice)) = (0 : ℤ) := by
  refine ⟨_, List.mem_cons_self, ?_⟩
  decide +kernel

end Runs

end Cagebreak
