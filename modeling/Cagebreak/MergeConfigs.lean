/-
The full merges of configurations.

`merge_output_configs` and `input_manager_merge_input_configs` pick every field from
their first argument, unless it is unset there.  What stands for an unset field is
another value from field to field; `OutputSetting` and `InputSetting` list the fields a
command can give, each with the values that leave it unset.

* `mergeConfigs_monoid` — both merges are associative, an empty configuration is their
  identity, and the first argument has precedence field by field.
-/
import Cagebreak.InputConfig
import Cagebreak.OutputConfig

namespace Cagebreak

open Setting

/-! ### Outputs -/

/-- Every field is picked by itself, but for the position, which is picked as a whole. -/
theorem mergeOutputConfigs_eq {a b : OutputConfig} : mergeOutputConfigs a b =
    { status := override (· = .default) a.status b.status
      role := override (· = .default) a.role b.role
      pos := override (·.x = -1) a.pos b.pos
      outputName := override (· = none) a.outputName b.outputName
      refreshRate := override (·.eq (.fin 0)) a.refreshRate b.refreshRate
      scale := override (·.eq (.fin (-1))) a.scale b.scale
      priority := override (· = -1) a.priority b.priority
      angle := override (· = -1) a.angle b.angle } := by
  simp only [override, decide_eq_true_eq]
  rfl

/-- What can be set for an output. -/
inductive OutputSetting
  | status
  | role
  | pos
  | outputName
  | refreshRate
  | scale
  | priority
  | angle
  deriving DecidableEq, Repr

namespace OutputSetting

/-- The type of the values of a setting. -/
abbrev Value : OutputSetting → Type
  | status => OutputStatus
  | role => OutputRole
  | pos => OutputPos
  | outputName => Option Text
  | refreshRate => CFloat
  | scale => CFloat
  | priority => ℤ
  | angle => ℤ

def get : (s : OutputSetting) → OutputConfig → s.Value
  | status => OutputConfig.status
  | role => OutputConfig.role
  | pos => OutputConfig.pos
  | outputName => OutputConfig.outputName
  | refreshRate => OutputConfig.refreshRate
  | scale => OutputConfig.scale
  | priority => OutputConfig.priority
  | angle => OutputConfig.angle

/-- The values that stand for an unset field; a position is unset by its `x`. -/
def unset : (s : OutputSetting) → s.Value → Bool
  | status => fun v => v = OutputStatus.default
  | role => fun v => v = OutputRole.default
  | pos => fun v => v.x = -1
  | outputName => fun v => v = none
  | refreshRate => fun v => v.eq (.fin 0)
  | scale => fun v => v.eq (.fin (-1))
  | priority => fun v => v = -1
  | angle => fun v => v = -1

/-- What a configuration says about a setting. -/
def setting (s : OutputSetting) : Setting OutputConfig s.Value := ofUnset s.get s.unset

theorem overrides (s : OutputSetting) : s.setting.Overrides mergeOutputConfigs := by
  refine ofUnset_overrides fun new old => ?_
  rw [mergeOutputConfigs_eq]
  cases s with
  | _ => rfl

end OutputSetting

section Outputs

variable {a b c : OutputConfig}

theorem mergeOutputConfigs_assoc : mergeOutputConfigs (mergeOutputConfigs a b) c =
    mergeOutputConfigs a (mergeOutputConfigs b c) := by
  simp only [mergeOutputConfigs_eq, override_assoc]

theorem mergeOutputConfigs_empty_left : mergeOutputConfigs emptyOutputConfig a = a := by
  rfl

/-- Of a position that is unset the rest is forgotten. -/
theorem mergeOutputConfigs_empty_right : mergeOutputConfigs a emptyOutputConfig =
    { a with pos := if a.pos.x = -1 then emptyOutputConfig.pos else a.pos } := by
  have hrate : override (·.eq (.fin 0)) a.refreshRate emptyOutputConfig.refreshRate =
      a.refreshRate := override_right fun h => (CFloat.eq_fin.mp h).symm
  have hscale : override (·.eq (.fin (-1))) a.scale emptyOutputConfig.scale = a.scale :=
    override_right fun h => (CFloat.eq_fin.mp h).symm
  have hstatus : override (· = .default) a.status emptyOutputConfig.status = a.status :=
    override_right fun h => (of_decide_eq_true h).symm
  have hrole : override (· = .default) a.role emptyOutputConfig.role = a.role :=
    override_right fun h => (of_decide_eq_true h).symm
  have hname : override (· = none) a.outputName emptyOutputConfig.outputName = a.outputName :=
    override_right fun h => (of_decide_eq_true h).symm
  have hpriority : override (· = -1) a.priority emptyOutputConfig.priority = a.priority :=
    override_right fun h => (of_decide_eq_true h).symm
  have hangle : override (· = -1) a.angle emptyOutputConfig.angle = a.angle :=
    override_right fun h => (of_decide_eq_true h).symm
  rw [mergeOutputConfigs_eq, hrate, hscale, hstatus, hrole, hname, hpriority, hangle]
  simp only [override, decide_eq_true_eq]

end Outputs

/-! ### Input devices -/

theorem inputManagerMergeInputConfigs_eq {a b : InputConfig} : inputManagerMergeInputConfigs a b =
    { identifier := override (· = none) a.identifier b.identifier
      accelProfile := override (· = intMin) a.accelProfile b.accelProfile
      calibrationMatrix :=
        override (!·.configured) a.calibrationMatrix b.calibrationMatrix
      clickMethod := override (· = intMin) a.clickMethod b.clickMethod
      drag := override (· = intMin) a.drag b.drag
      dragLock := override (· = intMin) a.dragLock b.dragLock
      dwt := override (· = intMin) a.dwt b.dwt
      leftHanded := override (· = intMin) a.leftHanded b.leftHanded
      middleEmulation := override (· = intMin) a.middleEmulation b.middleEmulation
      naturalScroll := override (· = intMin) a.naturalScroll b.naturalScroll
      pointerAccel := override (·.eq fltMin) a.pointerAccel b.pointerAccel
      scrollFactor := override (·.eq fltMin) a.scrollFactor b.scrollFactor
      scrollButton := override (· = intMin) a.scrollButton b.scrollButton
      scrollMethod := override (· = intMin) a.scrollMethod b.scrollMethod
      sendEvents := override (· = intMin) a.sendEvents b.sendEvents
      tap := override (· = intMin) a.tap b.tap
      tapButtonMap := override (· = intMin) a.tapButtonMap b.tapButtonMap
      mappedToOutput := none
      enableKeybindings := override (· = -1) a.enableKeybindings b.enableKeybindings
      repeatDelay := override (· = -1) a.repeatDelay b.repeatDelay
      repeatRate := override (· = -1) a.repeatRate b.repeatRate } := by
  simp only [inputManagerMergeInputConfigs, override, decide_eq_true_eq, Bool.not_eq_true']

/-- What can be set for an input device. -/
inductive InputSetting
  | identifier
  | accelProfile
  | calibrationMatrix
  | clickMethod
  | drag
  | dragLock
  | dwt
  | leftHanded
  | middleEmulation
  | naturalScroll
  | pointerAccel
  | scrollFactor
  | scrollButton
  | scrollMethod
  | sendEvents
  | tap
  | tapButtonMap
  | enableKeybindings
  | repeatDelay
  | repeatRate
  deriving DecidableEq, Repr

namespace InputSetting

/-- The type of the values of a setting. -/
abbrev Value : InputSetting → Type
  | identifier => Option Text
  | calibrationMatrix => CalibrationMatrix
  | pointerAccel => CFloat
  | scrollFactor => CFloat
  | _ => ℤ

def get : (s : InputSetting) → InputConfig → s.Value
  | identifier => InputConfig.identifier
  | accelProfile => InputConfig.accelProfile
  | calibrationMatrix => InputConfig.calibrationMatrix
  | clickMethod => InputConfig.clickMethod
  | drag => InputConfig.drag
  | dragLock => InputConfig.dragLock
  | dwt => InputConfig.dwt
  | leftHanded => InputConfig.leftHanded
  | middleEmulation => InputConfig.middleEmulation
  | naturalScroll => InputConfig.naturalScroll
  | pointerAccel => InputConfig.pointerAccel
  | scrollFactor => InputConfig.scrollFactor
  | scrollButton => InputConfig.scrollButton
  | scrollMethod => InputConfig.scrollMethod
  | sendEvents => InputConfig.sendEvents
  | tap => InputConfig.tap
  | tapButtonMap => InputConfig.tapButtonMap
  | enableKeybindings => InputConfig.enableKeybindings
  | repeatDelay => InputConfig.repeatDelay
  | repeatRate => InputConfig.repeatRate

/-- The values that stand for an unset field. -/
def unset : (s : InputSetting) → s.Value → Bool
  | identifier => fun v => v = none
  | calibrationMatrix => fun v => !v.configured
  | pointerAccel => fun v => v.eq fltMin
  | scrollFactor => fun v => v.eq fltMin
  | enableKeybindings => fun v => v = -1
  | repeatDelay => fun v => v = -1
  | repeatRate => fun v => v = -1
  | accelProfile | clickMethod | drag | dragLock | dwt | leftHanded | middleEmulation
  | naturalScroll | scrollButton | scrollMethod | sendEvents | tap | tapButtonMap =>
    fun v => v = intMin

/-- What a configuration says about a setting. -/
def setting (s : InputSetting) : Setting InputConfig s.Value := ofUnset s.get s.unset

theorem overrides (s : InputSetting) : s.setting.Overrides inputManagerMergeInputConfigs := by
  refine ofUnset_overrides fun new old => ?_
  rw [inputManagerMergeInputConfigs_eq]
  cases s with
  | _ => rfl

end InputSetting

section Inputs

variable {a b c : InputConfig}

theorem inputManagerMergeInputConfigs_assoc :
    inputManagerMergeInputConfigs (inputManagerMergeInputConfigs a b) c =
      inputManagerMergeInputConfigs a (inputManagerMergeInputConfigs b c) := by
  simp only [inputManagerMergeInputConfigs_eq, override_assoc]

theorem inputManagerMergeInputConfigs_empty_left :
    inputManagerMergeInputConfigs emptyInputConfig a = { a with mappedToOutput := none } := by
  have hfloat : ∀ x : CFloat, override (·.eq fltMin) fltMin x = x :=
    fun x => if_pos (CFloat.eq_fin.mpr rfl)
  have hint : ∀ m x : ℤ, override (· = m) m x = x := fun m x => if_pos (by simp)
  have hident : override (· = none) none a.identifier = a.identifier := rfl
  have hmatrix : override (!·.configured) emptyInputConfig.calibrationMatrix
      a.calibrationMatrix = a.calibrationMatrix := rfl
  rw [inputManagerMergeInputConfigs_eq, hmatrix]
  simp only [emptyInputConfig, hfloat, hint, hident]

end Inputs

/-- **Both full merges are override monoids.**  They are associative; an empty configuration
is an identity on both sides, but that the rest of an unset position or matrix is
forgotten and no output is mapped to; and each setting comes from the first argument
if that one gives it. -/
theorem mergeConfigs_monoid :
    ((∀ a b c : OutputConfig, mergeOutputConfigs (mergeOutputConfigs a b) c =
        mergeOutputConfigs a (mergeOutputConfigs b c)) ∧
      (∀ a : OutputConfig, mergeOutputConfigs emptyOutputConfig a = a) ∧
      (∀ a : OutputConfig, mergeOutputConfigs a emptyOutputConfig =
        { a with pos := if a.pos.x = -1 then emptyOutputConfig.pos else a.pos }) ∧
      ∀ s : OutputSetting, s.setting.Overrides mergeOutputConfigs) ∧
    ((∀ a b c : InputConfig, inputManagerMergeInputConfigs (inputManagerMergeInputConfigs a b) c =
        inputManagerMergeInputConfigs a (inputManagerMergeInputConfigs b c)) ∧
      (∀ a : InputConfig, inputManagerMergeInputConfigs emptyInputConfig a =
        { a with mappedToOutput := none }) ∧
      (∀ a : InputConfig, inputManagerMergeInputConfigs a emptyInputConfig =
        { a with
          mappedToOutput := none
          calibrationMatrix := if a.calibrationMatrix.configured = false
            then emptyInputConfig.calibrationMatrix else a.calibrationMatrix }) ∧
      ∀ s : InputSetting, s.setting.Overrides inputManagerMergeInputConfigs) := by
  constructor
  · exact ⟨fun _ _ _ => mergeOutputConfigs_assoc, fun _ => mergeOutputConfigs_empty_left,
      fun _ => mergeOutputConfigs_empty_right, OutputSetting.overrides⟩
  · exact ⟨fun _ _ _ => inputManagerMergeInputConfigs_assoc,
      fun _ => inputManagerMergeInputConfigs_empty_left, fun _ => merge_emptyInputConfig _,
      InputSetting.overrides⟩

end Cagebreak
