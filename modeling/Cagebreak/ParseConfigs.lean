/-
The settings of outputs, input devices and messages, as they are read from a
line (`parse.c`).

A number that is missing or invalid is reported in its place, by a value that
the caller compares with; what counts as invalid depends on `errno`.
-/
import Cagebreak.Lib.Reader
import Cagebreak.Dump
import Cagebreak.OutputConfig

namespace Cagebreak

namespace Parse

open Strto Reader

/-- `" "`. -/
def space : Text := ascii " "

/-- `0.01`, as a `double`. -/
def hundredth : CFloat := .fin (5764607523034235 / 2 ^ 59)

/-- `INT_MAX`. -/
def intMax : ℤ := 2 ^ 31 - 1

/-- `parse_float`. -/
def parseFloat (delim : Text) : Reader CFloat := do
  let uintStr ← token delim
  match uintStr with
  | none => pure (.fin (-1))
  | some str =>
    let ufloat ← convert (strtof str)
    let range ← isErange
    -- `ufloat != NAN` holds of every number
    if !ufloat.eq (.inf false) && !range then pure ufloat else pure fltMin

/-- `parse_uint`. -/
def parseUint (delim : Text) : Reader ℤ := do
  let uintStr ← token delim
  match uintStr with
  | none => pure (-1)
  | some str =>
    let uint ← convert (strtol str)
    let range ← isErange
    if 0 ≤ uint ∧ uint ≤ intMax ∧ range = false then pure uint else pure (-1)

/-- Numbers that `parse_float` reads one after the other. -/
def parseFloats (errstr : Text) : (n : ℕ) → Reader (Vector CFloat n)
  | 0 => pure #v[]
  | n + 1 => do
    let xs ← parseFloats errstr n
    let x ← parseFloat space
    failIf (x.eq fltMin) errstr
    pure (xs.push x)

/-- A number from `parse_uint` that its caller takes from `least` on. -/
def parseUintFrom (least : ℤ) (delim errstr : Text) : Reader ℤ := do
  let n ← parseUint delim
  failIf (n < least) errstr
  pure n

/-- A number from `parse_float` that its caller takes above `0.01`. -/
def parsePositive (errstr : Text) : Reader CFloat := do
  let x ← parseFloat space
  failIf (x.le hundredth) errstr
  pure x

/-! ### Outputs -/

/-- `parse_output_config_keyword`: the status that a keyword stands for. -/
def parseOutputConfigKeyword (keyStr : Option Text) : Option OutputStatus :=
  match keyStr with
  | none => none
  | some key =>
    if key = ascii "pos" then some .default
    else if key = ascii "prio" then some .default
    else if key = ascii "rotate" then some .default
    else if key = ascii "scale" then some .default
    else if key = ascii "enable" then some .enable
    else if key = ascii "permanent" then some .default
    else if key = ascii "peripheral" then some .default
    else if key = ascii "disable" then some .disable
    else none

/-- The part of `parse_output_config` after `pos`. -/
def parseOutputPos (name : Text) (cfg : OutputConfig) : Reader OutputConfig := do
  let x ← parseUintFrom 0 space
    (ascii "Error parsing x coordinate of output configuration for output " ++ name)
  let y ← parseUintFrom 0 space
    (ascii "Error parsing y coordinate of output configuration for output " ++ name)
  let resStr ← token space
  failIf (resStr ≠ some (ascii "res"))
    (ascii "Expected keyword \"res\" in output configuration for output " ++ name)
  let width ← parseUintFrom 1 (ascii "x")
    (ascii "Error parsing width of output configuration for output " ++ name ++
      ascii " (hint: width must be larger than 0)")
  let height ← parseUintFrom 1 space
    (ascii "Error parsing height of output configuration for output " ++ name ++
      ascii " (hint: height must e larger than 0)")
  let rateStr ← token space
  failIf (rateStr ≠ some (ascii "rate"))
    (ascii "Expected keyword \"rate\" in output configuration for output " ++ name)
  let refreshRate ← parsePositive
    (ascii "Error parsing refresh rate of output configuration for output " ++ name ++
      ascii ", expected positive float")
  pure { cfg with
    pos := ⟨x, y, width, height⟩
    refreshRate := refreshRate
    outputName := some name }

/-- `parse_output_config`.  Until it is read, of the position only `x` is
initialised; the other fields stay unread then. -/
def parseOutputConfig : Reader OutputConfig := do
  let nameStr ← token space
  let name ← require nameStr (ascii "Expected name of output to be configured, got none")
  let keyStr ← token space
  match parseOutputConfigKeyword keyStr with
  | none =>
    fail (ascii "Expected keyword \"pos\", \"prio\", \"enable\", \"disable\", " ++
      ascii "\"permanent\" or \"peripheral\" in output configuration for output " ++ name)
  | some status =>
    let cfg := { emptyOutputConfig with status := status }
    if status = .enable ∨ status = .disable then
      pure { cfg with outputName := some name }
    else if keyStr = some (ascii "rotate") then
      let n ← parseUint space
      -- converted to `uint32_t`, so that the remainder is never negative
      let angle := n % 2 ^ 32 % 4
      failIf (angle < 0) (ascii "Error parsing option rotate for output " ++ name)
      pure { cfg with angle := angle, outputName := some name }
    else if keyStr = some (ascii "prio") then
      let priority ← parseUintFrom 0 space
        (ascii "Error parsing priority of output configuration for output " ++ name)
      pure { cfg with priority := priority, outputName := some name }
    else if keyStr = some (ascii "scale") then
      let scale ← parsePositive
        (ascii "Error parsing scale of output configuration for output " ++ name ++
          ascii ", expected positive float")
      pure { cfg with scale := scale, outputName := some name }
    else if keyStr = some (ascii "peripheral") then
      pure { cfg with outputName := some name, role := .peripheral }
    else if keyStr = some (ascii "permanent") then
      pure { cfg with outputName := some name, role := .permanent }
    else parseOutputPos name cfg

/-! ### Input devices -/

/-- The functions of other libraries that the parser calls: `0` is
`XKB_KEY_NoSymbol`, and an event without a name has the code `-1`. -/
structure Libraries where
  xkbKeysymFromName : Text → UInt32
  libevdevEventCodeFromName : Text → ℤ
  libevdevEventCodeGetName : ℤ → Option Text

variable (L : Libraries)

/-- The conversion from `long` to `int`. -/
def toInt (n : ℤ) : ℤ := (n + 2 ^ 31) % 2 ^ 32 - 2 ^ 31

/-- `get_mouse_bindsym`. -/
def getMouseBindsym (name : Text) : Except Text ℤ :=
  let code := L.libevdevEventCodeFromName name
  if code = -1 then .error (ascii "Unknown event " ++ name) else .ok code

/-- `get_mouse_bindcode`. -/
def getMouseBindcode (name : Text) : Reader (Except Text ℤ) := do
  clearErrno
  let n ← convert (strtol name)
  let code := toInt n
  let range ← isErange
  if (strtol name).endptr = name ∧ code ≤ 0 then
    pure (.error (ascii "Button event code must be a positive integer."))
  else if range then
    pure (.error (ascii "Button event code out of range."))
  else
    let event := L.libevdevEventCodeGetName code
    if event.any fun ev => ev.take 4 = ascii "BTN_" then pure (.ok code)
    else pure (.error (ascii "Event code " ++ Printf.decimal code ++ ascii " (" ++
      event.getD (ascii "(null)") ++ ascii ") is not a button"))

/-- `input_manager_get_mouse_button`. -/
def inputManagerGetMouseButton (name : Text) : Reader (Except Text ℤ) :=
  match getMouseBindsym L name with
  | .ok 0 => getMouseBindcode L name
  | button => pure button

/-- One of the values that a setting has words for. -/
def choose (options : List (String × ℤ)) (value errstr : Text) : Reader ℤ :=
  match options.find? fun o => ascii o.1 = value with
  | some o => pure o.2
  | none => fail errstr

/-- The error text of most settings. -/
def invalidOption (value : Text) (setting : String) (expected : String) : Text :=
  ascii "Invalid option \"" ++ value ++ ascii "\" to setting \"" ++ ascii setting ++
    ascii "\"" ++ ascii expected

/-- A setting that is enabled or disabled. -/
def parseSwitch (value : Text) (setting : String) : Reader ℤ :=
  choose [("enabled", 1), ("disabled", 0)] value (invalidOption value setting "")

/-- The part of `parse_input_config` that reads the value of a setting; `value`
is the rest of the line. -/
def parseInputSetting (setting value : Text) (cfg : InputConfig) : Reader InputConfig :=
  if setting = ascii "accel_profile" then do
    let n ← choose [("adaptive", 2), ("flat", 1)] value
      (ascii "Invalid profile \"" ++ value ++ ascii "\" for accel_profile configuration")
    pure { cfg with accelProfile := n }
  else if setting = ascii "calibration_matrix" then do
    let matrix ← parseFloats (ascii "Failed to read calibration matrix, expected 6 " ++
      ascii "floating point values separated by spaces") 6
    pure { cfg with calibrationMatrix := ⟨true, matrix⟩ }
  else if setting = ascii "click_method" then
    -- the results of `strcmp` are not compared with zero
    if value ≠ ascii "none" then pure { cfg with clickMethod := 0 }
    else if value ≠ ascii "button_areas" then pure { cfg with clickMethod := 1 }
    else if value ≠ ascii "clickfinger" then pure { cfg with clickMethod := 2 }
    else
      fail (ascii "Invalid method \"" ++ value ++ ascii "\" for click_method configuration")
  else if setting = ascii "drag" then do
    let n ← parseSwitch value "drag"
    pure { cfg with drag := n }
  else if setting = ascii "drag_lock" then do
    let n ← parseSwitch value "drag_lock"
    pure { cfg with dragLock := n }
  else if setting = ascii "dwt" then do
    let n ← parseSwitch value "dwt"
    pure { cfg with dwt := n }
  else if setting = ascii "events" then do
    let n ← choose [("enabled", 0), ("disabled", 1), ("disabled_on_external_mouse", 2)] value
      (invalidOption value "events" "")
    pure { cfg with sendEvents := n }
  else if setting = ascii "left_handed" then do
    let n ← parseSwitch value "left_handed"
    pure { cfg with leftHanded := n }
  else if setting = ascii "middle_emulation" then do
    let n ← parseSwitch value "middle_emulation"
    pure { cfg with middleEmulation := n }
  else if setting = ascii "natural_scroll" then do
    let n ← parseSwitch value "natural_scroll"
    pure { cfg with naturalScroll := n }
  else if setting = ascii "pointer_accel" then do
    let xs ← parseFloats (invalidOption value "pointer_accel" ", expected float value") 1
    pure { cfg with pointerAccel := xs[0] }
  else if setting = ascii "scroll_button" then do
    match ← inputManagerGetMouseButton L value with
    | .ok button => pure { cfg with scrollButton := button }
    | .error err =>
      fail (ascii "Error parsing button for \"scroll_button\" setting. Returned error \"" ++
        err ++ ascii "\"")
  else if setting = ascii "scroll_factor" then do
    let xs ← parseFloats (invalidOption value "scroll_factor" ", expected float value") 1
    pure { cfg with scrollFactor := xs[0] }
  else if setting = ascii "scroll_method" then do
    let n ← choose [("none", 0), ("two_finger", 1), ("edge", 2), ("on_button_down", 4)] value
      (invalidOption value "scroll_method" "")
    pure { cfg with scrollMethod := n }
  else if setting = ascii "tap" then do
    let n ← parseSwitch value "tap"
    pure { cfg with tap := n }
  else if setting = ascii "tap_button_map" then do
    let n ← choose [("lrm", 0), ("lmr", 1)] value (invalidOption value "tap_button_map" "")
    -- the source assigns `tap`
    pure { cfg with tap := n }
  else if setting = ascii "keybindings" then do
    let n ← parseSwitch value "keybindings"
    pure { cfg with enableKeybindings := n }
  else if setting = ascii "repeat_delay" then do
    let n ← parseUintFrom 0 space
      (invalidOption value "repeat_delay" ", expected positive integer")
    pure { cfg with repeatDelay := n }
  else if setting = ascii "repeat_rate" then do
    let n ← parseUintFrom 0 space
      (invalidOption value "repeat_rate" ", expected positive integer")
    pure { cfg with repeatRate := n }
  else fail (ascii "Invalid option to command \"input\"")

/-- `parse_input_config`. -/
def parseInputConfig : Reader InputConfig := do
  let identStr ← token space
  let ident ← require identStr
    (ascii "Expected identifier of input device to configure, got none")
  let settingStr ← token space
  let setting ← require settingStr
    (ascii "Expected setting to be set on input device, got none")
  let value ← rest
  parseInputSetting L setting value { emptyInputConfig with identifier := some ident }

/-! ### Messages -/

/-- `struct cg_message_config`, as far as a line gives it. -/
structure MessageConfig where
  font : Option Text
  displayTime : ℤ
  bgColor : Vector CFloat 4
  fgColor : Vector CFloat 4
  enabled : ℤ
  anchor : Dump.MessageAnchor

/-- The configuration that `parse_message_config` starts with. -/
def emptyMessageConfig : MessageConfig where
  font := none
  displayTime := -1
  bgColor := #v[.fin (-1), .fin 0, .fin 0, .fin 0]
  fgColor := #v[.fin (-1), .fin 0, .fin 0, .fin 0]
  enabled := -1
  anchor := .noOpt

/-- The words for the places of a message. -/
def anchors : List (String × Dump.MessageAnchor) :=
  [("top_left", .topLeft), ("top_center", .topCenter), ("top_right", .topRight),
    ("bottom_left", .bottomLeft), ("bottom_center", .bottomCenter),
    ("bottom_right", .bottomRight), ("center", .center)]

/-- The error text for both colours. -/
def colorError : Text :=
  ascii "Error parsing command \"configure_message bg_color\", " ++
    ascii "expected 4 float values separated by spaces"

/-- `parse_message_config`. -/
def parseMessageConfig : Reader MessageConfig := do
  let settingStr ← token space
  let setting ← require settingStr
    (ascii "Expected setting to be set for message configuration, got none")
  let cfg := emptyMessageConfig
  if setting = ascii "font" then do
    let font ← rest
    pure { cfg with font := some font }
  else if setting = ascii "display_time" then do
    let n ← parseUintFrom 0 space
      (ascii "Error parsing command \"configure_message display_time\", " ++
        ascii "expected a non-negative integer")
    pure { cfg with displayTime := n }
  else if setting = ascii "bg_color" then do
    let color ← parseFloats colorError 4
    pure { cfg with bgColor := color }
  else if setting = ascii "fg_color" then do
    let color ← parseFloats colorError 4
    pure { cfg with fgColor := color }
  else if setting = ascii "anchor" then do
    let value ← rest
    match anchors.find? fun a => ascii a.1 = value with
    | some a => pure { cfg with anchor := a.2 }
    | none =>
      fail (ascii "Error parsing command \"configure_message anchor\", " ++
        ascii "the given anchor value is not a valid option")
  else if setting = ascii "enable" then pure { cfg with enabled := 1 }
  else if setting = ascii "disable" then pure { cfg with enabled := 0 }
  else fail (ascii "Invalid option to command \"configure_message\"")

end Parse

end Cagebreak
