/-
The state of the window manager.

The heap is kept by components: every field of a source structure is a map
from pointers to values, and a pointer is a number that is never handed out
twice.  `…Live` maps record which blocks are still allocated; following a
pointer to a freed block, or a `NULL` pointer, is `Fault.undefined`.

* `Tiles` — tiles and workspaces, with the rings the tiles form;
* `Outputs` — outputs, in the order of `server->outputs`;
* `Views` — views and the lists they are linked into;
* `Display` — which tile shows which view, and the focused view;
* `Scene` — where views are placed, how large they are and if they are shown.

The model covers the time from the start of the compositor until it quits, in
which `server->running` holds and allocations succeed.
-/
import Cagebreak.Lib.Exec
import Cagebreak.Lib.Ring
import Cagebreak.Lib.Rect
import Mathlib.Algebra.Group.Nat.Defs
import Mathlib.Algebra.Order.Ring.Unbundled.Rat

namespace Cagebreak

open Exec

abbrev TilePtr := ℕ
abbrev WsPtr := ℕ
abbrev OutPtr := ℕ
abbrev ViewPtr := ℕ

/-- Counters of type `uint32_t` wrap around. -/
def uint32Size : ℕ := 2 ^ 32

/-! ### Tiles and workspaces -/

/-- `struct cg_tile` and `struct cg_workspace`.  `wsFrame` is no field of the
source: it records the size a workspace was last made full screen with. -/
structure Tiles where
  tileTop : ℕ
  tileLive : TilePtr → Bool
  tileWorkspace : TilePtr → WsPtr
  tileBox : TilePtr → Rect
  tileLinks : DLinks TilePtr
  tileId : TilePtr → ℕ
  tilesCurrId : ℕ
  wsTop : ℕ
  wsLive : WsPtr → Bool
  wsOutput : WsPtr → OutPtr
  wsNum : WsPtr → ℕ
  wsFocused : WsPtr → Option TilePtr
  wsFrame : WsPtr → Rect

namespace Tiles

/-- `ws->focused_tile`. -/
def focusedTile (T : Tiles) (w : WsPtr) : Exec TilePtr := do
  deref (T.wsLive w)
  nonNull (T.wsFocused w)

/-- The loop `first || it != ws->focused_tile` over the tiles of a workspace,
left at the first tile that satisfies `p`. -/
def findTile (T : Tiles) (w : WsPtr) (p : TilePtr → Exec Bool) : Exec (Option TilePtr) := do
  let f ← T.focusedTile w
  let test := fun t => do
    deref (T.tileLive t)
    p t
  if ← test f then .ok (some f)
  else DLinks.findNode T.tileLinks.next f test (T.tileTop + 1) (T.tileLinks.next f)

/-- The tiles visited by the same loop when it is not left early. -/
def ringOf (T : Tiles) (w : WsPtr) : Exec (List TilePtr) := do
  let f ← T.focusedTile w
  let l ← DLinks.collect T.tileLinks.next f (T.tileTop + 1) (T.tileLinks.next f)
  .ok (f :: l)

end Tiles

/-! ### Outputs -/

/-- The box of an output in the layout.  The backend gives every connected
output a nonempty box. -/
structure LayoutBox where
  x : ℤ
  y : ℤ
  width : ℤ
  height : ℤ
  width_pos : 1 ≤ width
  height_pos : 1 ≤ height
  deriving DecidableEq

/-- The rectangle of the size of a layout box that the tiles of a workspace share. -/
def LayoutBox.frame (b : LayoutBox) : Rect := ⟨0, 0, b.width, b.height⟩

/-- `struct cg_output` and the fields of `struct cg_server` about outputs.
`outBox` is what `output_get_layout_box` reports, and `sceneOutput` tells whether
`wlr_scene_get_scene_output` finds a scene output for an output. -/
structure Outputs where
  outTop : ℕ
  outLive : OutPtr → Bool
  outName : OutPtr → String
  outBox : OutPtr → LayoutBox
  sceneOutput : OutPtr → Bool
  outWorkspaces : OutPtr → List WsPtr
  outCurr : OutPtr → ℕ
  outPriority : OutPtr → ℤ
  outputs : List OutPtr
  currOutput : Option OutPtr
  nws : ℕ

namespace Outputs

/-- `output->workspaces[i]`. -/
def wsAt (O : Outputs) (o : OutPtr) (i : ℕ) : Exec WsPtr := do
  deref (O.outLive o)
  nonNull ((O.outWorkspaces o)[i]?)

/-- `server->curr_output`, which must not be `NULL`. -/
def curOut (O : Outputs) : Exec OutPtr := nonNull O.currOutput

/-- `output->workspaces[output->curr_workspace]` of the current output. -/
def curWs (O : Outputs) : Exec WsPtr := do
  let o ← O.curOut
  O.wsAt o (O.outCurr o)

/-- `output_get_num`: outputs are told apart by their names. -/
def outputGetNum (O : Outputs) (o : OutPtr) : ℤ :=
  match O.outputs.findIdx? fun it => O.outName it == O.outName o with
  | some i => i + 1
  | none => -1

/-- `output_from_num`. -/
def outputFromNum (O : Outputs) (num : ℕ) : Option OutPtr :=
  if num = 0 then none else O.outputs[num - 1]?

end Outputs

/-! ### Views -/

/-- A `struct wl_list` that views are linked with: the head of the `views`
(`true`) or of the `unmanaged_views` (`false`) of a workspace, or the link of a
view. -/
inductive Node
  | head (managed : Bool) (w : WsPtr)
  | view (v : ViewPtr)
  deriving DecidableEq, Repr

/-- `wl_container_of(it, view, link)`, which is meaningless for a list head. -/
def Node.toView : Node → Exec ViewPtr
  | head _ _ => .error .undefined
  | view v => .ok v

/-- What does not change during the life of a view: `view->type`,
`xwayland_surface->override_redirect`, what
`wlr_xwayland_surface_override_redirect_wants_focus` answers, and the process. -/
structure ViewAttrs where
  xwayland : Bool
  overrideRedirect : Bool
  wantsFocus : Bool
  pid : ℤ
  deriving DecidableEq, Repr

/-- `view->type != CG_XWAYLAND_VIEW || xwayland_view_should_manage(view)`. -/
def ViewAttrs.managed (a : ViewAttrs) : Bool := !a.xwayland || !a.overrideRedirect

/-- `struct cg_view`.  A view is mapped while `view->wlr_surface != NULL`. -/
structure Views where
  viewTop : ℕ
  viewLive : ViewPtr → Bool
  viewId : ViewPtr → ℕ
  viewAttrs : ViewPtr → ViewAttrs
  viewWorkspace : ViewPtr → Option WsPtr
  viewMapped : ViewPtr → Bool
  links : DLinks Node
  viewsCurrId : ℕ

namespace Views

/-- The view is placed in tiles by the window manager. -/
def managed (V : Views) (v : ViewPtr) : Bool := (V.viewAttrs v).managed

/-- `view->workspace`, which must not be `NULL`. -/
def workspaceOf (V : Views) (v : ViewPtr) : Exec WsPtr := do
  deref (V.viewLive v)
  nonNull (V.viewWorkspace v)

/-- `wl_list_remove`. -/
def wlListRemove (V : Views) (n : Node) : Exec Views := do
  let a ← nonNull (V.links.prev n)
  let c ← nonNull (V.links.next n)
  .ok { V with links := V.links.unlink a n c }

/-- `wl_list_insert`: link `n` in behind `a`. -/
def wlListInsert (V : Views) (a n : Node) : Exec Views := do
  let c ← nonNull (V.links.next a)
  .ok { V with links := V.links.insert a n c }

/-- `wl_list_init`. -/
def wlListInit (V : Views) (n : Node) : Views :=
  { V with links :=
    ⟨Function.update V.links.next n (some n), Function.update V.links.prev n (some n)⟩ }

/-- More than the number of nodes there are. -/
def fuel (V : Views) (T : Tiles) : ℕ := V.viewTop + 2 * T.wsTop + 1

end Views

/-! ### What is shown where -/

/-- `tile->view`, `view->tile` and `seat->focused_view`. -/
structure Display where
  tileView : TilePtr → Option ViewPtr
  viewTile : ViewPtr → Option TilePtr
  focusedView : Option ViewPtr

/-- `view->ox` and `view->oy`, the position of the node of a view in the scene,
the size last passed to `view->impl->maximize`, and whether the node is enabled. -/
structure Scene where
  viewPos : ViewPtr → ℤ × ℤ
  nodePos : ViewPtr → ℤ × ℤ
  viewSize : ViewPtr → ℤ × ℤ
  nodeEnabled : ViewPtr → Bool

/-! ### Events -/

/-- The events sent to clients, with the values of their fields. -/
inductive Event
  | mergeTile (tileId mergeTileId workspace : ℤ) (output : String) (outputId : ℤ)
  | swapTile (tileId swapTileId workspace : ℤ) (output : String) (outputId : ℤ)
  | resizeTile (tileId : ℤ) (oldDims newDims : Rect) (workspace : ℤ) (output : String)
      (outputId : ℤ)
  | fullscreen (tileId workspace : ℤ) (output : String) (outputId : ℤ)
  | split (tileId newTileId workspace : ℤ) (output : String) (outputId : ℤ) (vertical : Bool)
  | cycleOutputs (oldOutput : String) (oldOutputId : ℤ) (newOutput : String) (newOutputId : ℤ)
      (reverse : Bool)
  | cycleViews (oldViewId oldViewPid newViewId newViewPid tileId workspace : ℤ) (output : String)
      (outputId : ℤ)
  | switchWs (oldWorkspace newWorkspace : ℤ) (output : String) (outputId : ℤ)
  | focusTile (oldTileId newTileId oldWorkspace newWorkspace : ℤ) (oldOutput : String)
      (oldOutputId : ℤ) (output : String) (outputId : ℤ)
  | moveViewToCycleOutput (viewId viewPid : ℤ) (oldOutput : String) (oldOutputId : ℤ)
      (newOutput : String) (newOutputId oldTileId newTileId : ℤ)
  | setNws (oldNws newNws : ℤ)
  | switchOutput (oldOutput : String) (oldOutputId : ℤ) (newOutput : String) (newOutputId : ℤ)
  | moveView (viewId : ℤ) (oldOutput : String) (oldWorkspace oldTile : ℤ) (newOutput : String)
      (newWorkspace newTile : ℤ)
  | viewMap (viewId tileId workspace : ℤ) (output : String) (outputId viewPid : ℤ)
  | viewUnmap (viewId tileId workspace : ℤ) (output : String) (outputId viewPid : ℤ)
  | cursorSwitchTile (oldOutput : String) (oldOutputId oldTile : ℤ) (newOutput : String)
      (newOutputId newTile : ℤ)
  | newOutput (output : String) (outputId priority : ℤ) (restart : Bool)
  | destroyOutput (output : String) (outputId : ℤ) (permanent : Bool)
  deriving DecidableEq, Repr

/-! ### The whole state -/

/-- `struct cg_server` and `struct cg_seat`.  `cursorAt` is what the output
layout answers about the cursor: the output below it and the position there.
`terminated` is set by `wl_display_terminate`. -/
structure Server where
  tiles : Tiles
  outs : Outputs
  views : Views
  disp : Display
  scene : Scene
  cursorTile : Option TilePtr
  cursorAt : Option (OutPtr × ℚ × ℚ)
  terminated : Bool
  events : List Event

namespace Server

/-- `ipc_send_event`. -/
def emit (s : Server) (e : Event) : Server := { s with events := s.events ++ [e] }

def setTileView (s : Server) (t : TilePtr) (v : Option ViewPtr) : Server :=
  { s with disp.tileView := Function.update s.disp.tileView t v }

def setViewTile (s : Server) (v : ViewPtr) (t : Option TilePtr) : Server :=
  { s with disp.viewTile := Function.update s.disp.viewTile v t }

def setFocusedView (s : Server) (v : Option ViewPtr) : Server :=
  { s with disp.focusedView := v }

def setViewWorkspace (s : Server) (v : ViewPtr) (w : WsPtr) : Server :=
  { s with views.viewWorkspace := Function.update s.views.viewWorkspace v (some w) }

/-- `wlr_scene_node_set_enabled`. -/
def setNodeEnabled (s : Server) (v : ViewPtr) (b : Bool) : Server :=
  { s with scene.nodeEnabled := Function.update s.scene.nodeEnabled v b }

/-- The focused tile of the current workspace of the current output. -/
def curTile (s : Server) : Exec TilePtr := do
  let w ← s.outs.curWs
  s.tiles.focusedTile w

/-- The state when the compositor starts: no output is connected yet. -/
def init : Server where
  tiles :=
    { tileTop := 0
      tileLive := fun _ => false
      tileWorkspace := fun _ => 0
      tileBox := fun _ => ⟨0, 0, 0, 0⟩
      tileLinks := ⟨fun _ => none, fun _ => none⟩
      tileId := fun _ => 0
      tilesCurrId := 1
      wsTop := 0
      wsLive := fun _ => false
      wsOutput := fun _ => 0
      wsNum := fun _ => 0
      wsFocused := fun _ => none
      wsFrame := fun _ => ⟨0, 0, 0, 0⟩ }
  outs :=
    { outTop := 0
      outLive := fun _ => false
      outName := fun _ => ""
      outBox := fun _ => ⟨0, 0, 1, 1, le_rfl, le_rfl⟩
      sceneOutput := fun _ => false
      outWorkspaces := fun _ => []
      outCurr := fun _ => 0
      outPriority := fun _ => -1
      outputs := []
      currOutput := none
      nws := 1 }
  views :=
    { viewTop := 0
      viewLive := fun _ => false
      viewId := fun _ => 0
      viewAttrs := fun _ => ⟨false, false, false, 0⟩
      viewWorkspace := fun _ => none
      viewMapped := fun _ => false
      links := ⟨fun _ => none, fun _ => none⟩
      viewsCurrId := 1 }
  disp := ⟨fun _ => none, fun _ => none, none⟩
  scene := ⟨fun _ => (0, 0), fun _ => (0, 0), fun _ => (0, 0), fun _ => true⟩
  cursorTile := none
  cursorAt := none
  terminated := false
  events := []

end Server

end Cagebreak
