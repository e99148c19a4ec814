/-
The configuration of input devices.

An `input` command gives one setting of the devices it names.  The server keeps
a record for each command, `emptyInputConfig` with the setting filled in; a
field that is not given has a value that the parser does not produce.
-/
import Cagebreak.Lib.CFloat
import Cagebreak.Lib.Text

namespace Cagebreak

/-- `INT_MIN`. -/
def intMin : ℤ := -2 ^ 31

/-- `FLT_MIN`. -/
def fltMin : CFloat := .fin (1 / 2 ^ 126)

/-- `struct calibration_matrix`. -/
structure CalibrationMatrix where
  configured : Bool
  matrix : Vector CFloat 6
  deriving DecidableEq

/-- `struct cg_input_config`. -/
structure InputConfig where
  identifier : Option Text
  accelProfile : ℤ
  calibrationMatrix : CalibrationMatrix
  clickMethod : ℤ
  drag : ℤ
  dragLock : ℤ
  dwt : ℤ
  leftHanded : ℤ
  middleEmulation : ℤ
  naturalScroll : ℤ
  pointerAccel : CFloat
  scrollFactor : CFloat
  scrollButton : ℤ
  scrollMethod : ℤ
  sendEvents : ℤ
  tap : ℤ
  tapButtonMap : ℤ
  mappedToOutput : Option Text
  enableKeybindings : ℤ
  repeatDelay : ℤ
  repeatRate : ℤ
  deriving DecidableEq

/-- `input_manager_create_empty_input_config`. -/
def emptyInputConfig : InputConfig where
  identifier := none
  accelProfile := intMin
  calibrationMatrix := ⟨false, Vector.replicate 6 (.fin 0)⟩
  clickMethod := intMin
  drag := intMin
  dragLock := intMin
  dwt := intMin
  leftHanded := intMin
  middleEmulation := intMin
  naturalScroll := intMin
  pointerAccel := fltMin
  scrollFactor := fltMin
  scrollButton := intMin
  scrollMethod := intMin
  sendEvents := intMin
  tap := intMin
  tapButtonMap := intMin
  mappedToOutput := none
  enableKeybindings := -1
  repeatDelay := -1
  repeatRate := -1

/-- `input_manager_merge_input_configs`; `cfg1` has precedence.  The output a
device is mapped to is not copied. -/
def inputManagerMergeInputConfigs (cfg1 cfg2 : InputConfig) : InputConfig where
  identifier := if cfg1.identifier = none then cfg2.identifier else cfg1.identifier
  tap := if cfg1.tap = intMin then cfg2.tap else cfg1.tap
  sendEvents := if cfg1.sendEvents = intMin then cfg2.sendEvents else cfg1.sendEvents
  dwt := if cfg1.dwt = intMin then cfg2.dwt else cfg1.dwt
  dragLock := if cfg1.dragLock = intMin then cfg2.dragLock else cfg1.dragLock
  drag := if cfg1.drag = intMin then cfg2.drag else cfg1.drag
  tapButtonMap := if cfg1.tapButtonMap = intMin then cfg2.tapButtonMap else cfg1.tapButtonMap
  leftHanded := if cfg1.leftHanded = intMin then cfg2.leftHanded else cfg1.leftHanded
  scrollMethod := if cfg1.scrollMethod = intMin then cfg2.scrollMethod else cfg1.scrollMethod
  scrollButton := if cfg1.scrollButton = intMin then cfg2.scrollButton else cfg1.scrollButton
  scrollFactor := if cfg1.scrollFactor.eq fltMin then cfg2.scrollFactor else cfg1.scrollFactor
  pointerAccel := if cfg1.pointerAccel.eq fltMin then cfg2.pointerAccel else cfg1.pointerAccel
  accelProfile := if cfg1.accelProfile = intMin then cfg2.accelProfile else cfg1.accelProfile
  naturalScroll := if cfg1.naturalScroll = intMin then cfg2.naturalScroll else cfg1.naturalScroll
  middleEmulation :=
    if cfg1.middleEmulation = intMin then cfg2.middleEmulation else cfg1.middleEmulation
  clickMethod := if cfg1.clickMethod = intMin then cfg2.clickMethod else cfg1.clickMethod
  enableKeybindings :=
    if cfg1.enableKeybindings = -1 then cfg2.enableKeybindings else cfg1.enableKeybindings
  repeatDelay := if cfg1.repeatDelay = -1 then cfg2.repeatDelay else cfg1.repeatDelay
  repeatRate := if cfg1.repeatRate = -1 then cfg2.repeatRate else cfg1.repeatRate
  calibrationMatrix :=
    if cfg1.calibrationMatrix.configured = false then cfg2.calibrationMatrix
    else cfg1.calibrationMatrix
  mappedToOutput := none

/-- What `keybinding_configure_input` stores for a command: all of it but the
output that the device is mapped to, and an unconfigured matrix. -/
theorem merge_emptyInputConfig (cfg : InputConfig) :
    inputManagerMergeInputConfigs cfg emptyInputConfig =
      { cfg with
        mappedToOutput := none
        calibrationMatrix :=
          if cfg.calibrationMatrix.configured = false then emptyInputConfig.calibrationMatrix
          else cfg.calibrationMatrix } := by
  have hint : ∀ a m : ℤ, (if a = m then m else a) = a := by
    intro a m
    split
    · next h => exact h.symm
    · rfl
  have hfloat : ∀ a : CFloat, (if a.eq fltMin then fltMin else a) = a := by
    intro a
    split
    · next h => exact (CFloat.eq_of_eq h).symm
    · rfl
  have hident : ∀ a : Option Text, (if a = none then none else a) = a := by
    intro a
    split
    · next h => exact h.symm
    · rfl
  simp only [inputManagerMergeInputConfigs, emptyInputConfig, hint, hfloat, hident]

end Cagebreak
