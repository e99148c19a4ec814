/-
The tile and view commands of `keybinding.c`.

Functions that the source has once for each direction are one definition with
an axis and a side here; the members of the family are that definition applied
to their own axis and side.  The accessors `get_x`, `get_width` and so on that
the source passes around are `Rect.coord` and `Rect.dim` along the axis.
-/
import Cagebreak.Window

namespace Cagebreak

open Exec

/-- The four directions a command can name. -/
inductive Direction
  | left
  | right
  | top
  | bottom
  deriving DecidableEq, Repr

namespace Direction

/-- The axis along which the direction points. -/
def axis : Direction → Axis
  | left | right => .horizontal
  | top | bottom => .vertical

/-- The direction points to larger coordinates. -/
def after : Direction → Bool
  | left | top => false
  | right | bottom => true

end Direction

/-- `is_between_strict`. -/
def isBetweenStrict (a b x : ℤ) : Bool := a < x && x < b

/-- `intervalls_intersect`. -/
def intervallsIntersect (x1 x2 y1 y2 : ℤ) : Bool := y2 > x1 && y1 < x2

/-! ### Looking up tiles and views -/

namespace Tiles

/-- The test made by `find_right_tile` and its siblings: does `it` lie directly
behind (`after`) or before `tile`, at the height of its centre? -/
def facesCentre (T : Tiles) (a : Axis) (after : Bool) (tile it : TilePtr) : Bool :=
  let b := T.tileBox tile
  let c := T.tileBox it
  let centre := b.coord a.compl + (b.dim a.compl).tdiv 2
  (if after then decide (c.coord a = b.coord a + b.dim a)
    else decide (c.coord a + c.dim a = b.coord a)) &&
  (isBetweenStrict (c.coord a.compl) (c.coord a.compl + c.dim a.compl) centre ||
    decide (c.coord a.compl + c.dim a.compl = centre))

/-- `find_left_tile`, `find_right_tile`, `find_top_tile`, `find_bottom_tile`. -/
def findDirTile (T : Tiles) (a : Axis) (after : Bool) (tile : TilePtr) :
    Exec (Option TilePtr) := do
  deref (T.tileLive tile)
  DLinks.findNode T.tileLinks.next tile
    (fun it => do
      deref (T.tileLive it)
      .ok (T.facesCentre a after tile it))
    (T.tileTop + 1) (T.tileLinks.next tile)

/-- `find_left_tile`. -/
def findLeftTile (T : Tiles) := T.findDirTile .horizontal false
/-- `find_right_tile`. -/
def findRightTile (T : Tiles) := T.findDirTile .horizontal true
/-- `find_top_tile`. -/
def findTopTile (T : Tiles) := T.findDirTile .vertical false
/-- `find_bottom_tile`. -/
def findBottomTile (T : Tiles) := T.findDirTile .vertical true

/-- The search function a command with this direction uses. -/
def findTileTowards (T : Tiles) : Direction → TilePtr → Exec (Option TilePtr)
  | .left => T.findLeftTile
  | .right => T.findRightTile
  | .top => T.findTopTile
  | .bottom => T.findBottomTile

end Tiles

namespace Server

/-- `tile_from_id`. -/
def tileFromId (s : Server) (id : ℕ) : Exec (Option TilePtr) :=
  s.outs.outputs.findSomeM? fun o => (List.range s.outs.nws).findSomeM? fun i => do
    let w ← s.outs.wsAt o i
    s.tiles.findTile w fun t => .ok (decide (id = s.tiles.tileId t))

/-- `view_from_id`. -/
def viewFromId (s : Server) (id : ℕ) : Exec (Option ViewPtr) :=
  s.outs.outputs.findSomeM? fun o => (List.range s.outs.nws).findSomeM? fun i => do
    let w ← s.outs.wsAt o i
    s.findView s.views.links.next (.head true w) fun v => do
      deref (s.views.viewLive v)
      .ok (decide (id = s.views.viewId v))

/-- Number of the workspace, name and number of the output of a tile, as the
events give them. -/
def placeOf (s : Server) (t : TilePtr) : Exec (ℤ × String × ℤ) := do
  let o ← s.outputOfTile t
  .ok (s.tiles.wsNum (s.tiles.tileWorkspace t) + 1, s.outs.outName o, s.outs.outputGetNum o)

/-! ### Changing the current output, workspace and tile -/

/-- Focus the view of the focused tile of the current workspace. -/
def refocus (s : Server) : Exec Server := do
  let f ← s.curTile
  s.seatSetFocus (s.disp.tileView f)

/-- `set_output`. -/
def setOutput (s : Server) (o : OutPtr) : Exec Server := do
  let s := { s with outs.currOutput := some o }
  s.refocus

/-- The neighbour of `o` in the circular list of outputs. -/
def cycleOutput (l : List OutPtr) (o : OutPtr) (reverse : Bool) : Option OutPtr :=
  match l.findIdx? (· == o) with
  | none => none
  | some i => l[(if reverse then i + l.length - 1 else i + 1) % l.length]?

/-- `keybinding_cycle_outputs`. -/
def keybindingCycleOutputs (s : Server) (reverse triggerEvent : Bool) : Exec Server := do
  let old ← s.outs.curOut
  let o ← nonNull (cycleOutput s.outs.outputs old reverse)
  let s ← s.setOutput o
  .ok (if triggerEvent then
    s.emit (.cycleOutputs (s.outs.outName old) (s.outs.outputGetNum old) (s.outs.outName o)
      (s.outs.outputGetNum o) reverse) else s)

/-- `keybinding_switch_output`. -/
def keybindingSwitchOutput (s : Server) (num : ℕ) : Exec Server := do
  let old ← s.outs.curOut
  ifSome (s.outs.outputFromNum num) s fun o => do
    let s ← s.setOutput o
    .ok (s.emit (.switchOutput (s.outs.outName old) (s.outs.outputGetNum old) (s.outs.outName o)
      (s.outs.outputGetNum o)))

/-- `keybinding_switch_ws`. -/
def keybindingSwitchWs (s : Server) (ws : ℕ) : Exec Server :=
  if s.outs.nws ≤ ws then .ok s
  else do
    let o ← s.outs.curOut
    let oldWs := s.outs.outCurr o
    let s ← s.workspaceFocus o ws
    let w ← s.outs.wsAt o ws
    let f ← s.tiles.focusedTile w
    let s ← s.seatSetFocus (s.disp.tileView f)
    .ok (s.emit (.switchWs (oldWs + 1) (ws + 1) (s.outs.outName o) (s.outs.outputGetNum o)))

/-- `keybinding_focus_tile`. -/
def keybindingFocusTile (s : Server) (tileId : ℕ) : Exec Server := do
  let o ← s.outs.curOut
  let w ← s.outs.curWs
  let oldTile ← s.tiles.focusedTile w
  let tile ← s.tileFromId tileId
  ifSome tile s fun t => do
    let ot ← s.outputOfTile t
    let wt := s.tiles.tileWorkspace t
    let s ← (if o = ot then .ok s else s.setOutput ot)
    let oc ← s.outs.curOut
    let s ← (if s.outs.outCurr oc = s.tiles.wsNum wt then .ok s
      else s.keybindingSwitchWs (s.tiles.wsNum wt))
    let s ← s.workspaceFocusTile wt t
    let s ← s.seatSetFocus (s.disp.tileView t)
    .ok (s.emit (.focusTile (s.tiles.tileId oldTile) (s.tiles.tileId t) (s.tiles.wsNum w + 1)
      (s.tiles.wsNum wt + 1) (s.outs.outName o) (s.outs.outputGetNum o) (s.outs.outName ot)
      (s.outs.outputGetNum ot)))

/-- `keybinding_cycle_tiles`. -/
def keybindingCycleTiles (s : Server) (reverse : Bool) : Exec Server := do
  let f ← s.curTile
  deref (s.tiles.tileLive f)
  let t ← nonNull (if reverse then s.tiles.tileLinks.prev f else s.tiles.tileLinks.next f)
  deref (s.tiles.tileLive t)
  s.keybindingFocusTile (s.tiles.tileId t)

/-- `focus_tile` with the search function of a direction. -/
def focusTile (s : Server) (dir : Direction) (t : TilePtr) : Exec Server := do
  let next ← s.tiles.findTileTowards dir t
  ifSome next s fun n => do
    let s ← s.workspaceFocusTile (s.tiles.tileWorkspace t) n
    s.seatSetFocus (s.disp.tileView n)

/-! ### Merging and swapping tiles -/

/-- `merge_tile`: the neighbour in the given direction is absorbed when the two
have the same extent across it. -/
def mergeTile (s : Server) (dir : Direction) (t : TilePtr) : Exec Server := do
  let a := dir.axis
  let neighbour ← s.tiles.findTileTowards dir t
  ifSome neighbour s fun m =>
    let b := s.tiles.tileBox t
    let c := s.tiles.tileBox m
    if m = t ∨ b.dim a.compl ≠ c.dim a.compl ∨ b.coord a.compl ≠ c.coord a.compl then .ok s
    else do
      let mergeTileId := s.tiles.tileId m
      let s ← s.workspaceTileUpdateView m none
      let p ← nonNull (s.tiles.tileLinks.prev m)
      let n ← nonNull (s.tiles.tileLinks.next m)
      let T := s.tiles
      let wm := T.tileWorkspace m
      let s := { s with
        tiles := { T with
          tileLive := Function.update T.tileLive m false
          -- the pointers of the absorbed tile itself go with its memory
          tileLinks := T.tileLinks.unlink p m n
          wsFocused := if T.wsFocused wm = some m then Function.update T.wsFocused wm (some t)
            else T.wsFocused
          tileBox := Function.update T.tileBox t
            (b.setSpan a (min (c.coord a) (b.coord a)) (c.dim a + b.dim a)) }
        cursorTile := if s.cursorTile = some m then some t else s.cursorTile }
      let s ← ifSome (s.disp.tileView t) s fun v => s.viewMaximize v t
      let (ws, output, outputId) ← s.placeOf t
      .ok (s.emit (.mergeTile (s.tiles.tileId t) mergeTileId ws output outputId))

/-- `swap_tiles`. -/
def swapTiles (s : Server) (tile swapTile : Option TilePtr) (follow : Bool) : Exec Server :=
  match tile, swapTile with
  | some a, some b =>
    if a = b then .ok s
    else do
      deref (s.tiles.tileLive a && s.tiles.tileLive b)
      let va := s.disp.tileView a
      let vb := s.disp.tileView b
      let s ← s.workspaceTileUpdateView a none
      let s ← s.workspaceTileUpdateView b va
      let s ← s.workspaceTileUpdateView a vb
      let s ← (if follow then s.keybindingFocusTile (s.tiles.tileId b) else s.refocus)
      let (ws, output, outputId) ← s.placeOf a
      .ok (s.emit (.swapTile (s.tiles.tileId a) (s.tiles.tileId b) ws output outputId))
  | _, _ => .ok s

/-- The tile a command addresses: the focused tile for `0`, else by its id. -/
def addressedTile (s : Server) (tileId : ℕ) : Exec (Option TilePtr) :=
  if tileId = 0 then do
    let f ← s.curTile
    .ok (some f)
  else s.tileFromId tileId

/-- `swap_tile` with the search function of a direction. -/
def swapTile (s : Server) (tileId : ℕ) (dir : Direction) (follow : Bool) : Exec Server := do
  let tile ← s.addressedTile tileId
  ifSome tile s fun t => do
    let n ← s.tiles.findTileTowards dir t
    s.swapTiles (some t) n follow

/-! ### Cycling through views -/

/-- The view `keybinding_cycle_views` goes on to: the first hidden one, or the
one asked for unless it is visible. -/
def cycleTarget (s : Server) (w : WsPtr) (viewId : ℕ) (reverse : Bool) : Exec (Option ViewPtr) :=
  let hidden := fun v => do
    let vis ← s.viewIsVisible v
    .ok !vis
  if viewId = 0 then
    s.findView (if reverse then s.views.links.next else s.views.links.prev) (.head true w) hidden
  else do
    let v ← s.viewFromId viewId
    ifSome v none fun v => do
      let vis ← s.viewIsVisible v
      .ok (if vis then none else some v)

/-- The event of `keybinding_cycle_views`. -/
def emitCycleViews (s : Server) (w : WsPtr) (current : Option ViewPtr) (v : ViewPtr) :
    Exec Server := do
  let (oldId, oldPid) ← ifSome current ((-1 : ℤ), (-1 : ℤ)) fun c => do
    deref (s.views.viewLive c)
    .ok (if s.views.links.next (.view c) = s.views.links.next (.head true w) then (-1, -1)
      else ((s.views.viewId c : ℤ), (s.views.viewAttrs c).pid))
  let vt ← nonNull (s.disp.viewTile v)
  let o := s.tiles.wsOutput w
  deref (s.tiles.tileLive vt && s.tiles.wsLive w && s.outs.outLive o)
  .ok (s.emit (.cycleViews oldId oldPid (s.views.viewId v) (s.views.viewAttrs v).pid
    (s.tiles.tileId vt) (s.tiles.wsNum w + 1) (s.outs.outName o) (s.outs.outputGetNum o)))

/-- `keybinding_cycle_views` on the tile given, or on the focused tile. -/
def keybindingCycleViews (s : Server) (tile : Option TilePtr) (viewId : ℕ) (reverse ipc : Bool) :
    Exec Server := do
  let t ← tile.elim s.curTile .ok
  deref (s.tiles.tileLive t)
  let current := s.disp.tileView t
  let w := s.tiles.tileWorkspace t
  let next ← s.cycleTarget w viewId reverse
  ifSome next s fun v => do
    let s ← s.workspaceTileUpdateView t (some v)
    let f ← s.curTile
    let s ← (if t = f then s.seatSetFocus (some v) else .ok s)
    if ipc then s.emitCycleViews w current v else .ok s

end Server

end Cagebreak
