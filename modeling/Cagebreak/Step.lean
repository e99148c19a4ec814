/-
The window manager as a transition system.

An `Input` is a command from a key binding, a configuration line or a client,
or an event from the display.  `step` handles one input; `Reachable` states are
those some sequence of inputs leads to.
-/
import Cagebreak.Layout

namespace Cagebreak

open Exec

/-- The commands that act on tiles, views and workspaces or lead to another output,
with their operands as `parse_command` stores them.  The command `output`, which
configures an output, is left out.  The parser accepts between 1 and 30 workspaces. -/
inductive Action
  | layoutFullscreen (screen workspace : ℕ)
  | splitHorizontal (percentage : Percentage)
  | splitVertical (percentage : Percentage)
  | cycleViews (reverse : Bool) (viewId : ℕ)
  | cycleTiles (reverse : Bool) (tileId : ℕ)
  | cycleOutput (reverse : Bool)
  | switchWorkspace (ws : ℕ)
  | switchOutput (output : ℕ)
  | resizeTileHorizontal (pixs : ℤ) (tileId : ℕ)
  | resizeTileVertical (pixs : ℤ) (tileId : ℕ)
  | moveToTile (tileId : ℕ) (follow : Bool)
  | moveToWorkspace (ws : ℕ) (follow : Bool)
  | moveToOutput (output : ℕ) (follow : Bool)
  | moveViewToTile (viewId tileId : ℕ) (follow : Bool)
  | moveViewToWorkspace (viewId ws : ℕ) (follow : Bool)
  | moveViewToOutput (viewId output : ℕ) (follow : Bool)
  | merge (dir : Direction) (tileId : ℕ)
  | swapDir (dir : Direction) (tileId : ℕ) (follow : Bool)
  | swap (tileId swapTileId : ℕ) (follow : Bool)
  | focus (dir : Direction)
  | moveViewToCycleOutput (reverse : Bool)
  | workspaces (nws : {n : ℕ // 1 ≤ n ∧ n ≤ 30})

namespace Server

/-- `run_action`. -/
def runAction (s : Server) : Action → Exec Server
  | .layoutFullscreen screen workspace => s.keybindingWorkspaceFullscreen screen workspace
  | .splitHorizontal percentage => do
    let o ← s.outs.curOut
    s.keybindingSplitOutput o false percentage
  | .splitVertical percentage => do
    let o ← s.outs.curOut
    s.keybindingSplitOutput o true percentage
  | .cycleViews reverse viewId => s.keybindingCycleViews none viewId reverse true
  | .cycleTiles reverse tileId =>
    if tileId = 0 then s.keybindingCycleTiles reverse else s.keybindingFocusTile tileId
  | .cycleOutput reverse => s.keybindingCycleOutputs reverse true
  | .switchWorkspace ws => s.keybindingSwitchWs ws
  | .switchOutput output => s.keybindingSwitchOutput output
  | .resizeTileHorizontal pixs tileId => s.resizeTile pixs 0 tileId
  | .resizeTileVertical pixs tileId => s.resizeTile 0 pixs tileId
  | .moveToTile tileId follow => do
    let id ← s.focusedViewId
    s.keybindingMoveViewToTile id tileId follow
  | .moveToWorkspace ws follow => do
    let id ← s.focusedViewId
    s.keybindingMoveViewToWorkspace id ws follow
  | .moveToOutput output follow => do
    let id ← s.focusedViewId
    s.keybindingMoveViewToOutput id output follow
  | .moveViewToTile viewId tileId follow => s.keybindingMoveViewToTile viewId tileId follow
  | .moveViewToWorkspace viewId ws follow => s.keybindingMoveViewToWorkspace viewId ws follow
  | .moveViewToOutput viewId output follow => s.keybindingMoveViewToOutput viewId output follow
  | .merge dir tileId => do
    let tile ← s.addressedTile tileId
    ifSome tile s (s.mergeTile dir)
  | .swapDir dir tileId follow => s.swapTile tileId dir follow
  | .swap tileId swapTileId follow => do
    let a ← s.tileFromId tileId
    let b ← s.tileFromId swapTileId
    s.swapTiles a b follow
  | .focus dir => do
    let f ← s.curTile
    s.focusTile dir f
  | .moveViewToCycleOutput reverse => s.keybindingMoveViewToCycleOutput reverse
  | .workspaces nws => s.keybindingSetNws nws

end Server

/-- What the compositor reacts to.  Events that change the output layout tell
where the cursor is afterwards. -/
inductive Input
  | command (action : Action)
  | outputNew (name : String) (box : LayoutBox) (cursor : Option (OutPtr × ℚ × ℚ))
  | outputDestroy (o : OutPtr) (cursor : Option (OutPtr × ℚ × ℚ))
  | layoutChange (o : OutPtr) (box : LayoutBox)
  | cursorMotion (cursor : Option (OutPtr × ℚ × ℚ))
  | viewNew (attrs : ViewAttrs)
  | viewMap (v : ViewPtr) (x y : ℤ)
  | viewUnmap (v : ViewPtr) (kb : Bool)
  | viewDestroy (v : ViewPtr) (kb : Bool)

/-- Handle one input.  Only existing outputs and views can be the subject of an
event, and only unmapped views are mapped; once the display has been
terminated nothing is handled any more. -/
def step (s : Server) (i : Input) : Exec Server :=
  if s.terminated then .ok s
  else match i with
    | .command action => s.runAction action
    | .outputNew name box cursor => { s with cursorAt := cursor }.handleNewOutput name box
    | .outputDestroy o cursor => do
      deref (decide (o ∈ s.outs.outputs))
      { s with cursorAt := cursor }.outputDestroy o
    | .layoutChange o box =>
      .ok { s with outs.outBox := Function.update s.outs.outBox o box }
    | .cursorMotion cursor => { s with cursorAt := cursor }.processCursorMotion
    | .viewNew attrs => s.viewInit attrs
    | .viewMap v x y => do
      deref (!s.views.viewMapped v)
      s.viewMap v x y
    | .viewUnmap v kb => do
      deref (s.views.viewMapped v)
      s.viewUnmap v kb
    | .viewDestroy v kb => s.viewDestroy v kb

/-- The states some sequence of inputs leads to. -/
def Reachable (s : Server) : Prop := Steps step (fun _ _ => True) Server.init s

end Cagebreak
