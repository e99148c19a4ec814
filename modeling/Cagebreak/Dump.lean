/-
The text of the command `dump`.

`keybinding_dump` puts the state of the server into one text, which it hands to
`ipc_send_event`.  The structures hold what is printed of the server: the numbers
are those that the conversions of the formats print, and the lists those that the
loops walk through.

The definitions say what is to be printed, as if memory had no bounds: `viewText` is
the text that `print_view` is meant to return, and so on.  The functions of the source,
with the arrays and the numbers of 32 bits that they work with, are those of
`Cagebreak.DumpStrings`.
-/
import Cagebreak.Lib.Printf
import Cagebreak.Libinput

namespace Cagebreak

namespace Dump

open Exec Printf

/-- What is printed of a `struct cg_view`; `title` is what `get_title` returns. -/
structure View where
  id : ℤ
  pid : ℤ
  title : Option Text
  ox : ℤ
  oy : ℤ
  xwayland : Bool

/-- What is printed of a `struct cg_tile`. -/
structure Tile where
  id : ℤ
  x : ℤ
  y : ℤ
  width : ℤ
  height : ℤ
  viewId : Option ℤ

/-- What is printed of a `struct cg_workspace`; `tiles` are those met after the
focused one. -/
structure Workspace where
  views : List View
  focusedTile : Tile
  tiles : List Tile

/-- What is printed of a `struct cg_output`; `refreshRate` is
`(float)refresh / 1000.0`, and `workspaces` is the whole array. -/
structure Output where
  name : Text
  priority : ℤ
  x : ℤ
  y : ℤ
  width : ℤ
  height : ℤ
  refreshRate : ℚ
  permanent : Bool
  destroyed : Bool
  currWorkspace : ℤ
  workspaces : List Workspace

/-- What is printed of a `struct cg_keyboard_group`. -/
structure KeyboardGroup where
  identifier : Option Text
  enableKeybindings : Bool
  repeatDelay : ℤ
  repeatRate : ℤ

/-- What is printed of a `struct cg_input_device`; a type that is unknown is
`none`. -/
structure InputDev where
  identifier : Option Text
  isVirtual : Bool
  type : Option WlrInputDeviceType

/-- `enum cg_message_anchor`. -/
inductive MessageAnchor
  | topLeft
  | topCenter
  | topRight
  | bottomLeft
  | bottomCenter
  | bottomRight
  | center
  | noOpt

/-- `struct cg_message_config`. -/
structure MessageConfig where
  font : Text
  displayTime : ℤ
  bgColor : Vector CFloat 4
  fgColor : Vector CFloat 4
  enabled : ℤ
  anchor : MessageAnchor

/-- The focused view: its id, and that of its tile. -/
structure Focus where
  viewId : ℤ
  tileId : Option ℤ

/-- What is printed of a `struct cg_server`.  `outputs` are the enabled ones. -/
structure Server where
  nws : ℕ
  nws_pos : 1 ≤ nws
  bs : Bool
  bgColor : Vector CFloat 3
  focus : Option Focus
  currOutput : Text
  modes : List Text
  defaultMode : ℕ
  messageConfig : MessageConfig
  outputs : List Output
  keyboardGroups : List KeyboardGroup
  inputDevices : List InputDev
  cursorX : ℚ
  cursorY : ℚ

/-- `bool`, as `%d` prints it. -/
def flag (b : Bool) : PrintArg := .int (if b then 1 else 0)

/-- A call of `print_str`. -/
def printStr (fmt : String) (args : List PrintArg) : Text × List PrintArg := (ascii fmt, args)

/-- What `dyn_str_to_str` is to join, after these calls of `print_str` on an array of
`nmemb` strings. -/
def joinedText (nmemb : ℕ) (strs : List (Text × List PrintArg)) : Exec Text := do
  deref (decide (strs.length ≤ nmemb))
  let strArr ← strs.mapM fun str => format str.1 str.2
  .ok strArr.flatten

/-- The calls of a loop, with commas between them. -/
def separated (fmt : String) (strs : List Text) : List (Text × List PrintArg) :=
  (strs.map fun str => printStr fmt [.str str]).intersperse (printStr "," [])

/-- The text of `print_view`. -/
def viewText (bs : Bool) (view : View) : Exec Text :=
  joinedText 5 (
    [printStr "\"id\": %d,\n" [.int view.id],
      printStr "\"pid\": %d,\n" [.int view.pid]] ++
    (if bs then [printStr "\"title\": \"%s\",\n" [.str (view.title.getD [])]] else []) ++
    [printStr "\"coords\": \x7b\"x\":%d,\"y\":%d\x7d,\n" [.int view.ox, .int view.oy],
      printStr "\"type\": \"%s\"\n"
        [.str (if view.xwayland then ascii "xwayland" else ascii "xdg")]])

/-- The text of `print_tile`. -/
def tileText (tile : Tile) : Exec Text :=
  joinedText 4
    [printStr "\"id\": %d,\n" [.int tile.id],
      printStr "\"coords\": \x7b\"x\":%d,\"y\":%d\x7d,\n" [.int tile.x, .int tile.y],
      printStr "\"size\": \x7b\"width\":%d,\"height\":%d\x7d,\n"
        [.int tile.width, .int tile.height],
      printStr "\"view_id\": %d\n" [.int (tile.viewId.getD (-1))]]

/-- The text of `print_views`. -/
def viewsText (bs : Bool) (ws : Workspace) : Exec Text :=
  if ws.views = [] then .ok (ascii "\x7b\x7d")
  else do
    let strs ← ws.views.mapM (viewText bs)
    joinedText (2 * ws.views.length - 1) (separated "\x7b\n%s\n\x7d" strs)

/-- The text of `print_tiles`. -/
def tilesText (ws : Workspace) : Exec Text := do
  let tiles := ws.focusedTile :: ws.tiles
  let strs ← tiles.mapM tileText
  joinedText (2 * tiles.length - 1) (separated "\x7b\n%s\n\x7d" strs)

/-- The text of `print_workspace`. -/
def workspaceText (bs : Bool) (ws : Workspace) : Exec Text := do
  let viewsStr ← viewsText bs ws
  let tilesStr ← tilesText ws
  joinedText 6
    [printStr "\"views\": [" [],
      printStr "%s" [.str viewsStr],
      printStr "]," [],
      printStr "\"tiles\": [" [],
      printStr "%s" [.str tilesStr],
      printStr "]" []]

/-- The workspaces that are printed, which are the first `nws` of the array. -/
def Output.printed (nws : ℕ) (outp : Output) : List Workspace := outp.workspaces.take nws

/-- The text of `print_workspaces`. -/
def workspacesText (bs : Bool) (nws : ℕ) (outp : Output) : Exec Text := do
  let strs ← (outp.printed nws).mapM (workspaceText bs)
  joinedText (2 * nws + 1) (
    printStr "\"workspaces\": [" [] :: separated "\x7b%s\x7d" strs ++ [printStr "]\n" []])

/-- The text of `print_output`. -/
def outputText (bs : Bool) (nws : ℕ) (outp : Output) : Exec Text := do
  let workspacesStr ← workspacesText bs nws outp
  joinedText 10
    [printStr "\"%s\": \x7b\n" [.str outp.name],
      printStr "\"priority\": %d,\n" [.int outp.priority],
      printStr "\"coords\": \x7b\"x\":%d,\"y\":%d\x7d,\n" [.int outp.x, .int outp.y],
      printStr "\"size\": \x7b\"width\":%d,\"height\":%d\x7d,\n"
        [.int outp.width, .int outp.height],
      printStr "\"refresh_rate\": %f,\n" [.double (.fin outp.refreshRate)],
      printStr "\"permanent\": %d,\n" [flag outp.permanent],
      printStr "\"active\": %d,\n" [flag (!outp.destroyed)],
      printStr "\"curr_workspace\": %d,\n" [.int (outp.currWorkspace + 1)],
      printStr "%s" [.str workspacesStr],
      printStr "\x7d" []]

/-- The text of `print_outputs`.  In `uint32_t`, `(2 * noutps - 1) + 2` is 1 when there are
no outputs. -/
def outputsText (server : Server) : Exec Text := do
  let strs ← server.outputs.mapM (outputText server.bs server.nws)
  joinedText (2 * server.outputs.length + 1) (
    printStr "\"outputs\": \x7b" [] :: separated "%s" strs ++ [printStr "\x7d\n" []])

/-- The first string of `print_keyboard_group` and `print_input_device`. -/
def printIdentifier (identifier : Option Text) : Text × List PrintArg :=
  match identifier with
  | some identifier => printStr "\"%s\": \x7b\n" [.str identifier]
  | none => printStr "\"NULL\": \x7b\n" []

/-- The text of `print_keyboard_group`. -/
def keyboardGroupText (grp : KeyboardGroup) : Exec Text :=
  joinedText 5
    [printIdentifier grp.identifier,
      printStr "\"commands_enabled\": %d,\n" [flag grp.enableKeybindings],
      printStr "\"repeat_delay\": %d,\n" [.int grp.repeatDelay],
      printStr "\"repeat_rate\": %d\n" [.int grp.repeatRate],
      printStr "\x7d" []]

/-- The text of `print_keyboard_groups`. -/
def keyboardGroupsText (server : Server) : Exec Text := do
  let strs ← server.keyboardGroups.mapM keyboardGroupText
  joinedText (2 * server.keyboardGroups.length + 2) (
    printStr "\"keyboards\": \x7b" [] :: separated "%s" strs ++ [printStr "\x7d\n" []])

/-- The type of a device in `print_input_device`. -/
def deviceType : Option WlrInputDeviceType → Text
  | some .pointer => ascii "pointer"
  | some .switch => ascii "switch"
  | some .tabletPad => ascii "tablet pad"
  | some .tablet => ascii "tablet"
  | some .touch => ascii "touch"
  | some .keyboard => ascii "keyboard"
  | none => ascii "unknown"

/-- The text of `print_input_device`. -/
def inputDeviceText (dev : InputDev) : Exec Text :=
  joinedText 4
    [printIdentifier dev.identifier,
      printStr "\"is_virtual\": %d,\n" [flag dev.isVirtual],
      printStr "\"type\": \"%s\"\n" [.str (deviceType dev.type)],
      printStr "\x7d" []]

/-- The text of `print_input_devices`. -/
def inputDevicesText (server : Server) : Exec Text := do
  let strs ← server.inputDevices.mapM inputDeviceText
  joinedText (2 * server.inputDevices.length + 2) (
    printStr "\"input_devices\": \x7b" [] :: separated "%s" strs ++ [printStr "\x7d\n" []])

def MessageAnchor.text : MessageAnchor → Text × List PrintArg
  | .topLeft => printStr "\"anchor\": \"top_left\"\n" []
  | .topCenter => printStr "\"anchor\": \"top_center\"\n" []
  | .topRight => printStr "\"anchor\": \"top_right\"\n" []
  | .bottomLeft => printStr "\"anchor\": \"bottom_left\"\n" []
  | .bottomCenter => printStr "\"anchor\": \"bottom_center\"\n" []
  | .bottomRight => printStr "\"anchor\": \"bottom_right\"\n" []
  | .center => printStr "\"anchor\": \"center\"\n" []
  | .noOpt => printStr "\"anchor\": \"no_op\"\n" []

/-- The text of `print_message_conf`. -/
def messageConfText (config : MessageConfig) : Exec Text :=
  joinedText 8
    [printStr "\"message_config\": \x7b" [],
      printStr "\"font\": \"%s\",\n" [.str config.font],
      printStr "\"display_time\": %d,\n" [.int config.displayTime],
      printStr "\"bg_color\": [%f,%f,%f,%f],\n" [.double config.bgColor[0],
        .double config.bgColor[1], .double config.bgColor[2], .double config.bgColor[3]],
      printStr "\"fg_color\": [%f,%f,%f,%f],\n" [.double config.fgColor[0],
        .double config.fgColor[1], .double config.fgColor[2], .double config.fgColor[3]],
      printStr "\"enabled\": %d,\n" [flag (decide (config.enabled = 1))],
      config.anchor.text,
      printStr "\x7d" []]

/-- The call of `print_str` in `print_modes`; without modes there is none. -/
def modesCalls (modes : List Text) : List (Text × List PrintArg) :=
  if modes = [] then []
  else [printStr "\"modes\":[\"%s\"],\n" [.str ((modes.intersperse (ascii "\",\"")).flatten)]]

/-- `get_mode_name`. -/
def getModeName (modes : List Text) (modeNr : ℕ) : Text := modes[modeNr]?.getD (ascii "NULL")

/-- The text that `keybinding_dump` is to assemble. -/
def dumpText (server : Server) : Exec Text := do
  let messageString ← messageConfText server.messageConfig
  let outpsStr ← outputsText server
  let keyboardsStr ← keyboardGroupsText server
  let inputDevStr ← inputDevicesText server
  joinedText 14 (
    [printStr "\x7b\"event_name\":\"dump\"," [],
      printStr "\"nws\":%d,\n" [.int server.nws],
      printStr "\"bg_color\":[%f,%f,%f],\n" [.double server.bgColor[0],
        .double server.bgColor[1], .double server.bgColor[2]],
      printStr "\"views_curr_id\":%d,\n" [.int (server.focus.elim (-1) Focus.viewId)],
      printStr "\"tiles_curr_id\":%d,\n" [.int ((server.focus.bind Focus.tileId).getD (-1))],
      printStr "\"curr_output\":\"%s\",\n" [.str server.currOutput],
      printStr "\"default_mode\":\"%s\",\n" [.str (getModeName server.modes server.defaultMode)]] ++
    modesCalls server.modes ++
    [printStr "%s," [.str messageString],
      printStr "%s," [.str outpsStr],
      printStr "%s," [.str keyboardsStr],
      printStr "%s," [.str inputDevStr],
      printStr "\"cursor_coords\":\x7b\"x\":%f,\"y\":%f\x7d\n" [.double (.fin server.cursorX),
        .double (.fin server.cursorY)],
      printStr "\x7d" []])

end Dump

end Cagebreak
