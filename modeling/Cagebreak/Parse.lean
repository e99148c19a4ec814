/-
The parser of command lines (`parse.c`).

`parse_command` is a chain of comparisons with the word that a line begins
with.  Here the chain is the table `branches`, and a `Branch` says how the rest
of the line is read: words whose branches differ in the action, the error texts
and the numbers only have one branch with parameters.
-/
import Cagebreak.ParseConfigs

namespace Cagebreak

namespace Parse

open Strto Reader

/-- `enum keybinding_action`. -/
inductive KeybindingAction
  | runCommand
  | closeView
  | splitVertical
  | splitHorizontal
  | changeTty
  | layoutFullscreen
  | cycleViews
  | cycleTiles
  | cycleOutput
  | configureOutput
  | configureMessage
  | configureInput
  | quit
  | noop
  | switchOutput
  | switchWorkspace
  | switchMode
  | switchDefaultMode
  | resizeTileHorizontal
  | resizeTileVertical
  | moveToTile
  | moveToWorkspace
  | moveToOutput
  | moveViewToTile
  | moveViewToWorkspace
  | moveViewToOutput
  | moveViewToCycleOutput
  | dump
  | showTime
  | showInfo
  | displayMessage
  | sendCustomEvent
  | cursor
  | swapLeft
  | swapRight
  | swapTop
  | swapBottom
  | swap
  | mergeLeft
  | mergeRight
  | mergeTop
  | mergeBottom
  | focusLeft
  | focusRight
  | focusTop
  | focusBottom
  | definekey
  | setmodecursor
  | background
  | definemode
  | workspaces
  deriving DecidableEq, Repr

/-- `union keybinding_params`, with the member that is written; `us` may have
two or three numbers. -/
inductive KeybindingParams
  | c (str : Option Text)
  | cs (mode cursor : Text)
  | u (n : UInt32)
  | is (pixels tile : UInt32)
  | us (a b : UInt32)
  | us3 (a b c : UInt32)
  | i (n : ℤ)
  | b (flag : Bool)
  | f (x : CFloat)
  | color (xs : Vector CFloat 3)
  | kb (mode : UInt16) (modifiers key : UInt32) (action : KeybindingAction)
      (data : KeybindingParams)
  | oCfg (cfg : OutputConfig)
  | iCfg (cfg : InputConfig)
  | mCfg (cfg : MessageConfig)

/-- What `parse_command` writes to a keybinding. -/
abbrev Command := KeybindingAction × KeybindingParams

/-- `MAX_NESTING_LEVEL`. -/
def maxNestingLevel : ℕ := 50

variable (L : Libraries) (modes : List Text)

/-! ### Key definitions -/

/-- The modifier that a letter stands for. -/
def modifier : UInt8 → Option UInt32
  | 83 => some 1    -- `S`: `WLR_MODIFIER_SHIFT`
  | 65 => some 8    -- `A`: `WLR_MODIFIER_ALT`
  | 67 => some 4    -- `C`: `WLR_MODIFIER_CTRL`
  | 76 => some 64   -- `L`: `WLR_MODIFIER_LOGO`
  | 50 => some 16   -- `2`: `WLR_MODIFIER_MOD2`
  | 51 => some 32   -- `3`: `WLR_MODIFIER_MOD3`
  | 53 => some 128  -- `5`: `WLR_MODIFIER_MOD5`
  | _ => none

/-- The modifiers at the beginning of a key definition, and the key after them. -/
def parseModifiers (modifiers : UInt32) : Text → Except Text (UInt32 × Text)
  | c :: 45 :: keyDef =>
    match modifier c with
    | some m => parseModifiers (modifiers ||| m) keyDef
    | none => .error (ascii "Unknown modifier \"" ++ [c] ++ ascii "\"")
  | keyDef => .ok (modifiers, keyDef)

/-- `parse_key`: the modifiers and the key. -/
def parseKey (keyDef : Option Text) : Reader (UInt32 × UInt32) := do
  let keyDef ← require keyDef (ascii "Expected key definition, got nothing.")
  match parseModifiers 0 keyDef with
  | .error errstr => fail errstr
  | .ok (modifiers, key) =>
    let keysym := L.xkbKeysymFromName key
    failIf (keysym = 0)
      (ascii "Could not convert key \"" ++ key ++ ascii "\" to keysym.")
    pure (modifiers, keysym)

/-- `parse_keybinding`, of a binding that its caller gives the mode `mode`;
`command` reads the command. -/
def parseKeybinding (mode : UInt16) (command : Reader Command) : Reader KeybindingParams := do
  let key ← token space
  let (modifiers, keysym) ← parseKey L key
  let (action, data) ← command
  pure (.kb mode modifiers keysym action data)

/-- `parse_bind`. -/
def parseBind (command : Reader Command) : Reader KeybindingParams :=
  parseKeybinding L 1 command

/-- `get_mode_index_from_name`. -/
def getModeIndexFromName (modeName : Text) : Option ℕ :=
  modes.findIdx? fun mode => mode = modeName

/-- `parse_definekey`. -/
def parseDefinekey (command : Reader Command) : Reader KeybindingParams := do
  let modeStr ← token space
  let mode ← require modeStr (ascii "Too few arguments to \"definekey\". Expected mode")
  match getModeIndexFromName modes mode with
  | none => fail (ascii "Unknown mode \"" ++ mode ++ ascii "\"")
  | some modeIdx => parseKeybinding L modeIdx.toUInt16 command

/-- `parse_escape`. -/
def parseEscape : Reader KeybindingParams := do
  let key ← token space
  let (modifiers, keysym) ← parseKey L key
  pure (.kb 0 modifiers keysym .switchMode (.u 1))

/-! ### Arguments -/

/-- A number of `parse_background`, after `i` others. -/
def parseColor (i : ℕ) : Reader CFloat := do
  let nstr ← token (ascii " \n")
  let nstr ← require nstr
    (ascii "Expected three space-separated numbers (rgb) for background color setting. Got " ++
      Printf.decimal i ++ ascii ".")
  let nval ← convert (strtof nstr)
  failIf ((strtof nstr).endptr ≠ [])
    (ascii "Could not parse number \"" ++ nstr ++ ascii "\" for background color setting.")
  failIf (nval.lt (.fin 0) || CFloat.lt (.fin 1) nval)
    (ascii "Expected a number between 0 and 1 for setting of background color. Got " ++
      Printf.fixed nval ++ ascii ".")
  pure nval

/-- `parse_background`. -/
def parseBackground : Reader (Vector CFloat 3) := do
  let r ← parseColor 0
  let g ← parseColor 1
  let b ← parseColor 2
  pure #v[r, g, b]

/-- `parse_cursor`. -/
def parseCursor : Reader ℤ := do
  let str ← rest
  if str = ascii "enable" then pure 1
  else if str = ascii "disable" then pure 0
  else fail (ascii "Invalid option \"" ++ str ++
    ascii "\" for \"cursor\". Expected \"enable\" or \"disable\".")

/-- `parse_definemode`. -/
def parseDefinemode : Reader Text := do
  let mode ← token space
  require mode (ascii "Expected mode to succeed \"definemode\" keyword.")

/-- `parse_workspaces`. -/
def parseWorkspaces : Reader ℤ := do
  let nwsStr ← token space
  let nwsStr ← require nwsStr (ascii "Expected argument for \"workspaces\" command, got none.")
  let nws ← convert (strtol nwsStr)
  failIf (¬(1 ≤ nws ∧ nws ≤ 30))
    (ascii "More than 30 workspaces are not supported. Received " ++ Printf.decimal nws)
  pure nws

/-- A number from one on; `what` begins the error text. -/
def parseFromOne (what : String) (str : Text) : Reader ℤ := do
  let n ← convert (strtol str)
  failIf (n < 1) (ascii what ++ ascii " larger or equal to 1. Got " ++ Printf.decimal n)
  pure n

/-- A number from one on, read by a branch that consults `errno`. -/
def parseInRange (what : String) (str : Text) : Reader ℤ := do
  let n ← convert (strtol str)
  let range ← isErange
  failIf (n < 1 ∨ range = true)
    (ascii what ++ ascii " larger or equal to 1. Got " ++ Printf.decimal n)
  pure n

/-- The next token, which has to be there. -/
def argument (missing : String) : Reader Text := do
  let str ← token space
  require str (ascii missing)

/-- The next token as a number from one on, if there is one. -/
def parseOptional (what : String) : Reader (Option ℤ) := do
  match ← token space with
  | none => pure none
  | some str =>
    let n ← parseFromOne what str
    pure (some n)

/-- The meaning of `true` and `false`. -/
def followValue (str : Text) : Reader UInt32 :=
  if str = ascii "true" then pure 1
  else if str = ascii "false" then pure 0
  else fail (ascii "The value of \"follow\" must be \"true\" or \"false\", got " ++ str)

/-- The optional last argument of the commands that move something. -/
def parseFollow : Reader UInt32 := do
  match ← token space with
  | none => pure 1
  | some str => followValue str

/-- The index of the mode that the next token names. -/
def parseMode (missing unknown : String) : Reader ℕ := do
  let mode ← argument missing
  match getModeIndexFromName modes mode with
  | none => fail (ascii "Unknown mode \"" ++ mode ++ ascii unknown)
  | some modeIdx => pure modeIdx

/-! ### Branches -/

/-- How the rest of a command is read. -/
inductive Branch
  /-- only the action is set -/
  | plain (action : KeybindingAction)
  | flag (action : KeybindingAction) (b : Bool)
  | split (action : KeybindingAction)
  /-- `focus`, `next`: an optional number -/
  | cycle (action : KeybindingAction) (what : String)
  | cycleBack (action : KeybindingAction)
  | only
  /-- `message`, `custom_event`, `exec`: all that is left -/
  | line (action : KeybindingAction)
  | resize (action : KeybindingAction) (sign : ℤ)
  /-- `screen`, `workspace`: a number, counted from `first` -/
  | number (action : KeybindingAction) (missing what : String) (first : ℤ)
  | moveView (action : KeybindingAction) (missing what missing' what' : String) (first : ℤ)
  | move (action : KeybindingAction) (missing what : String) (first : ℤ)
  | movetotile
  | merge (action : KeybindingAction)
  | exchangeTowards (action : KeybindingAction)
  | exchange
  | switchvt
  | mode (action : KeybindingAction) (missing unknown : String)
  | setmodecursor
  | bind
  | definekey
  | background
  | escape
  | cursor
  | definemode
  | workspaces
  | output
  | input
  | configureMessage

/-- `vsplit`, `hsplit`.  The error is only logged. -/
def parseSplit (action : KeybindingAction) : Reader Command := do
  match ← token space with
  | none => pure (action, .f (.fin (1 / 2)))
  | some str =>
    let percentage ← convert (strtof str)
    let range ← isErange
    -- `percentage == NAN` holds of no number
    if percentage.eq (.inf false) || range then failSilently
    else if CFloat.le (.fin 1) percentage || percentage.le hundredth then failSilently
    else pure (action, .f percentage)

/-- `only`. -/
def parseOnly : Reader Command := do
  match ← parseOptional "Screen must be an integer number" with
  | none => pure (.layoutFullscreen, .us 0 0)
  | some screen =>
    let str ← argument "\"only\" requires either none or two arguments, got one"
    let workspace ← parseFromOne "Workspace must be an integer number" str
    pure (.layoutFullscreen, .us (.ofInt screen) (.ofInt (workspace - 1)))

/-- `resizeleft`, `resizeright`, `resizeup`, `resizedown`. -/
def parseResize (action : KeybindingAction) (sign : ℤ) : Reader Command := do
  let pixels ← parseOptional "Number of pixels must be an integer number"
  let tile ← parseOptional "The tile id must be an integer number"
  pure (action, .is (.ofInt (sign * pixels.getD 10)) (.ofInt (tile.getD 0)))

/-- `movetotile`. -/
def parseMovetotile : Reader Command := do
  let str ← argument "Expected argument for \"movetotile\" action, got none."
  let tile ← parseInRange "Tile number must be an integer" str
  let follow ← parseFollow
  pure (.moveToTile, .us (.ofInt tile) follow)

/-- `mergeleft`, `mergeright`, `mergeup`, `mergedown`. -/
def parseMerge (action : KeybindingAction) : Reader Command := do
  match ← token space with
  | none => pure (action, .u 0)
  | some str =>
    let tile ← parseInRange "The tile id must be an integer number" str
    pure (action, .u (.ofInt tile))

/-- `exchangeleft`, `exchangeright`, `exchangeup`, `exchangedown`. -/
def parseExchangeTowards (action : KeybindingAction) : Reader Command := do
  match ← token space with
  | none => pure (action, .us 0 1)
  | some str =>
    if str ≠ ascii "true" ∧ str ≠ ascii "false" then do
      let tile ← parseInRange "The tile id must be an integer number" str
      let follow ← parseFollow
      pure (action, .us (.ofInt tile) follow)
    else do
      let follow ← followValue str
      pure (action, .us 0 follow)

/-- `exchange`. -/
def parseExchange : Reader Command := do
  let str1 ← argument "\"exchange\" requires two arguments, but none were provided"
  let tile1 ← parseInRange "The tile id must be an integer number" str1
  let str2 ← argument "\"exchange\" requires two arguments, but only one was provided"
  let tile2 ← parseInRange "The tile id must be an integer number" str2
  let follow ← parseFollow
  pure (.swap, .us3 (.ofInt tile1) (.ofInt tile2) follow)

/-- `switchvt`. -/
def parseSwitchvt : Reader Command := do
  let ntty ← argument "Expected argument for \"switchvt\" command, got none."
  let tty ← convert (strtol ntty)
  let range ← isErange
  failIf range (ascii "TTY number out of range.")
  pure (.changeTty, .u (.ofInt tty))

/-- `setmodecursor`. -/
def parseSetmodecursor : Reader Command := do
  let missing := "Expected mode name and cursor name after \"setmodecursor\". Got nothing."
  let mode ← argument missing
  let cursor ← argument missing
  pure (.setmodecursor, .cs mode cursor)

/-- A branch of `parse_command`; `command` reads a nested command. -/
def parseBranch (command : Reader Command) : Branch → Reader Command
  | .plain action => pure (action, .c none)
  | .flag action b => pure (action, .b b)
  | .split action => parseSplit action
  | .cycle action what => do
    let id ← parseOptional what
    pure (action, .us 0 (.ofInt (id.getD 0)))
  | .cycleBack action => pure (action, .us 1 0)
  | .only => parseOnly
  | .line action => do
    -- `saveptr` is never `NULL`
    let str ← rest
    pure (action, .c (some str))
  | .resize action sign => parseResize action sign
  | .number action missing what first => do
    let str ← argument missing
    let n ← parseFromOne what str
    pure (action, .u (.ofInt (n - first)))
  | .moveView action missing what missing' what' first => do
    let viewStr ← argument missing
    let viewId ← parseFromOne what viewStr
    let str ← argument missing'
    let n ← parseFromOne what' str
    let follow ← parseFollow
    pure (action, .us3 (.ofInt viewId) (.ofInt (n - first)) follow)
  | .move action missing what first => do
    let str ← argument missing
    let n ← parseFromOne what str
    let follow ← parseFollow
    pure (action, .us (.ofInt (n - first)) follow)
  | .movetotile => parseMovetotile
  | .merge action => parseMerge action
  | .exchangeTowards action => parseExchangeTowards action
  | .exchange => parseExchange
  | .switchvt => parseSwitchvt
  | .mode action missing unknown => do
    let modeIdx ← parseMode modes missing unknown
    pure (action, .u modeIdx.toUInt32)
  | .setmodecursor => parseSetmodecursor
  | .bind => do
    let kb ← parseBind L command
    pure (.definekey, kb)
  | .definekey => do
    let kb ← parseDefinekey L modes command
    pure (.definekey, kb)
  | .background => do
    let color ← parseBackground
    pure (.background, .color color)
  | .escape => do
    let kb ← parseEscape L
    pure (.definekey, kb)
  | .cursor => do
    let i ← parseCursor
    pure (.cursor, .i i)
  | .definemode => do
    let mode ← parseDefinemode
    pure (.definemode, .c (some mode))
  | .workspaces => do
    let nws ← parseWorkspaces
    pure (.workspaces, .i nws)
  | .output => do
    let cfg ← parseOutputConfig
    pure (.configureOutput, .oCfg cfg)
  | .input => do
    let cfg ← parseInputConfig L
    pure (.configureInput, .iCfg cfg)
  | .configureMessage => do
    let cfg ← parseMessageConfig
    pure (.configureMessage, .mCfg cfg)

/-- The words of `parse_command`, in their order. -/
def branches : List (String × Branch) :=
  [("vsplit", .split .splitVertical),
    ("hsplit", .split .splitHorizontal),
    ("quit", .plain .quit),
    ("dump", .plain .dump),
    ("show_info", .plain .showInfo),
    ("close", .plain .closeView),
    ("focus", .cycle .cycleTiles "Tile id must be an integer number"),
    ("focusprev", .cycleBack .cycleTiles),
    ("next", .cycle .cycleViews "View id must be an integer number"),
    ("prev", .cycleBack .cycleViews),
    ("only", .only),
    ("abort", .plain .noop),
    ("message", .line .displayMessage),
    ("custom_event", .line .sendCustomEvent),
    ("time", .plain .showTime),
    ("nextscreen", .flag .cycleOutput false),
    ("prevscreen", .flag .cycleOutput true),
    ("exec", .line .runCommand),
    ("resizeleft", .resize .resizeTileHorizontal (-1)),
    ("resizeright", .resize .resizeTileHorizontal 1),
    ("resizedown", .resize .resizeTileVertical 1),
    ("resizeup", .resize .resizeTileVertical (-1)),
    ("screen", .number .switchOutput "Expected argument for \"output\" action, got none."
      "Workspace number must be an integer number" 0),
    ("workspace", .number .switchWorkspace "Expected argument for \"workspace\" action, got none."
      "Workspace number must be an integer number" 1),
    ("moveviewtoscreen", .moveView .moveViewToOutput
      "Expected argument for \"moveviewtoscreen\" action, got none."
      "View id must be an integer"
      "Expected two arguments for \"moveviewtoscreen\" action, got one."
      "Output number must be an integer" 0),
    ("moveviewtoworkspace", .moveView .moveViewToWorkspace
      "Expected argument for \"moveviewtoworkspace\" action, got none."
      "View id number must be an integer"
      "Expected argument for \"moveviewtoworkspace\" action, got none."
      "Workspace number must be an integer" 1),
    ("moveviewtotile", .moveView .moveViewToTile
      "Expected argument for \"moveviewtotile\" action, got none."
      "View id number must be an integer"
      "Expected argument for \"moveviewtoworkspace\" action, got none."
      "Tile id must be an integer" 0),
    ("movetoscreen", .move .moveToOutput
      "Expected argument for \"movetoscreen\" action, got none."
      "Output number must be an integer" 0),
    ("movetoworkspace", .move .moveToWorkspace
      "Expected argument for \"movetoworkspace\" action, got none."
      "Workspace number must be an integer" 1),
    ("movetotile", .movetotile),
    ("mergeleft", .merge .mergeLeft),
    ("mergeright", .merge .mergeRight),
    ("mergeup", .merge .mergeTop),
    ("mergedown", .merge .mergeBottom),
    ("exchangeleft", .exchangeTowards .swapLeft),
    ("exchangeright", .exchangeTowards .swapRight),
    ("exchangeup", .exchangeTowards .swapTop),
    ("exchangedown", .exchangeTowards .swapBottom),
    ("exchange", .exchange),
    ("focusleft", .plain .focusLeft),
    ("focusright", .plain .focusRight),
    ("focusup", .plain .focusTop),
    ("focusdown", .plain .focusBottom),
    ("movetonextscreen", .flag .moveViewToCycleOutput false),
    ("movetoprevscreen", .flag .moveViewToCycleOutput true),
    ("switchvt", .switchvt),
    ("mode", .mode .switchMode "Expected mode after \"mode\". Got nothing." "\" for \"mode\""),
    ("setmode", .mode .switchDefaultMode
      "Expected mode after \"switch_default_mode\". Got nothing." "\" for switch_default_mode"),
    ("setmodecursor", .setmodecursor),
    ("bind", .bind),
    ("definekey", .definekey),
    ("background", .background),
    ("escape", .escape),
    ("cursor", .cursor),
    ("definemode", .definemode),
    ("workspaces", .workspaces),
    ("output", .output),
    ("input", .input),
    ("configure_message", .configureMessage)]

/-- The branch for a word. -/
def branchOf (action : Text) : Option Branch :=
  (branches.find? fun b => ascii b.1 = action).map Prod.snd

/-- `parse_command`, when commands may be nested `room` times more. -/
def command : ℕ → Reader Command
  | 0 => do
    let _ ← token space
    fail (ascii "Nesting level of commands is too deep. Giving up.")
  | room + 1 => do
    let actionStr ← token space
    let action ← require actionStr (ascii "Expexted an action to parse, got none.")
    match branchOf action with
    | some branch => parseBranch L modes (command room) branch
    | none => fail (ascii "Error, unsupported action \"" ++ action ++ ascii "\".")

/-- `parse_command`. -/
def parseCommand (nestingLevel : ℕ) : Reader Command :=
  command L modes (maxNestingLevel - nestingLevel)

end Parse

end Cagebreak
