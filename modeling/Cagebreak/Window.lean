/-
Views, the tiles that show them, and the keyboard focus.

The functions of `view.c` and `workspace.c`, and the parts of `seat.c` that
decide which view has the focus and which tile the cursor is in.  Scene nodes
below the views, messages on the screen, surfaces and seats of the compositor
library take no part in what is modelled and are left out.
-/
import Cagebreak.State

namespace Cagebreak

open Exec

namespace Server

/-! ### Views -/

/-- `view_maximize`. -/
def viewMaximize (s : Server) (v : ViewPtr) (t : TilePtr) : Exec Server := do
  deref (s.tiles.tileLive t)
  let w ← s.views.workspaceOf v
  deref (s.tiles.wsLive w && s.outs.outLive (s.tiles.wsOutput w))
  let b := s.tiles.tileBox t
  let out := s.outs.outBox (s.tiles.wsOutput w)
  .ok { s with
    scene.viewPos := Function.update s.scene.viewPos v (b.x, b.y)
    scene.nodePos := Function.update s.scene.nodePos v (b.x + out.x, b.y + out.y)
    scene.viewSize := Function.update s.scene.viewSize v (b.width, b.height)
    disp.viewTile := Function.update s.disp.viewTile v (some t) }

/-- `view_get_tile`. -/
def viewGetTile (s : Server) (v : ViewPtr) : Exec (Option TilePtr) := do
  deref (s.views.viewLive v)
  ifSome (s.disp.viewTile v) none fun t => do
    deref (s.tiles.tileLive t)
    .ok (if s.disp.tileView t = some v then some t else none)

/-- `view_is_visible`. -/
def viewIsVisible (s : Server) (v : ViewPtr) : Exec Bool := do
  deref (s.views.viewLive v)
  if s.views.managed v then do
    let t ← s.viewGetTile v
    .ok t.isSome
  else .ok true

/-- `wl_list_for_each` (or its reverse) over the views linked behind `h`, left
at the first view that satisfies `p`. -/
def findView (s : Server) (step : Node → Option Node) (h : Node) (p : ViewPtr → Exec Bool) :
    Exec (Option ViewPtr) := do
  let test := fun n : Node => do
    let v ← n.toView
    p v
  let found ← DLinks.findNode step h test (s.views.fuel s.tiles) (step h)
  ifSome found none fun n => do
    let v ← n.toView
    .ok (some v)

/-- The views visited by the same loop when it is not left early. -/
def viewsOf (s : Server) (h : Node) : Exec (List ViewPtr) := do
  let l ← DLinks.collect s.views.links.next h (s.views.fuel s.tiles) (s.views.links.next h)
  l.mapM Node.toView

/-- `view_get_prev_view`: the list is walked backwards, over its head. -/
def viewGetPrevView (s : Server) (v : ViewPtr) : Exec (Option ViewPtr) := do
  let w ← s.views.workspaceOf v
  let test := fun n : Node =>
    if n = .head true w then .ok false
    else do
      let u ← n.toView
      let vis ← s.viewIsVisible u
      .ok !vis
  let found ← DLinks.findNode s.views.links.prev (.view v) test (s.views.fuel s.tiles)
    (s.views.links.prev (.view v))
  ifSome found none fun n => do
    let u ← n.toView
    .ok (some u)

/-- `view_activate`. -/
def viewActivate (s : Server) (v : Option ViewPtr) : Exec Unit :=
  ifSome v () fun v => deref (s.views.viewLive v)

/-! ### Tiles and workspaces -/

/-- `workspace_tile_update_view`. -/
def workspaceTileUpdateView (s : Server) (t : TilePtr) (view : Option ViewPtr) : Exec Server := do
  deref (s.tiles.tileLive t)
  let s ← ifSome (s.disp.tileView t) s fun old => do
    deref (s.views.viewLive old)
    .ok ((s.setNodeEnabled old false).setViewTile old none)
  let s := s.setTileView t view
  ifSome view s fun v => do
    let s ← s.viewMaximize v t
    .ok (s.setNodeEnabled v true)

/-- `full_screen_workspace_tiles`. -/
def fullScreenWorkspaceTiles (s : Server) (w : WsPtr) : Exec Server := do
  let t := s.tiles.tileTop
  let o := s.tiles.wsOutput w
  deref (s.outs.outLive o)
  let T := s.tiles
  let frame := (s.outs.outBox o).frame
  let s := { s with
    tiles := { T with
      tileTop := t + 1
      tileLive := Function.update T.tileLive t true
      tileWorkspace := Function.update T.tileWorkspace t w
      tileBox := Function.update T.tileBox t frame
      tileLinks := ⟨Function.update T.tileLinks.next t (some t),
        Function.update T.tileLinks.prev t (some t)⟩
      tileId := Function.update T.tileId t T.tilesCurrId
      tilesCurrId := (T.tilesCurrId + 1) % uint32Size
      wsFocused := Function.update T.wsFocused w (some t)
      wsFrame := Function.update T.wsFrame w frame }
    disp.tileView := Function.update s.disp.tileView t none }
  s.workspaceTileUpdateView t none

/-- The workspace that `full_screen_workspace` makes, with the number its callers give it. -/
def newWorkspace (s : Server) (o : OutPtr) (num : ℕ) : Exec (WsPtr × Server) := do
  let w := s.tiles.wsTop
  let T := s.tiles
  let s := { s with
    tiles := { T with
      wsTop := w + 1
      wsLive := Function.update T.wsLive w true
      wsOutput := Function.update T.wsOutput w o
      wsNum := Function.update T.wsNum w num } }
  let s ← s.fullScreenWorkspaceTiles w
  .ok (w, { s with views := (s.views.wlListInit (.head true w)).wlListInit (.head false w) })

/-- `full_screen_workspace`, which answers `NULL` when the scene has no scene output for
the output. -/
def fullScreenWorkspace (s : Server) (o : OutPtr) (num : ℕ) : Exec (Option WsPtr × Server) := do
  deref (s.outs.outLive o)
  if s.outs.sceneOutput o then do
    let (w, s) ← s.newWorkspace o num
    .ok (some w, s)
  else .ok (none, s)

/-- `workspace_focus_tile`. -/
def workspaceFocusTile (s : Server) (w : WsPtr) (t : TilePtr) : Exec Server := do
  deref (s.tiles.wsLive w && s.tiles.tileLive t)
  .ok { s with tiles.wsFocused := Function.update s.tiles.wsFocused w (some t) }

/-- The loop of `workspace_free_tiles`. -/
def freeTilesLoop (w : WsPtr) : ℕ → Server → Exec Server
  | 0, _ => .error .diverges
  | n + 1, s =>
    match s.tiles.wsFocused w with
    | none => .ok s
    | some t => do
      deref (s.tiles.tileLive t)
      freeTilesLoop w n { s with
        cursorTile := if s.cursorTile = some t then none else s.cursorTile
        tiles.tileLive := Function.update s.tiles.tileLive t false
        tiles.wsFocused := Function.update s.tiles.wsFocused w (s.tiles.tileLinks.next t) }

/-- `workspace_free_tiles`: the ring is cut open and freed from its start. -/
def workspaceFreeTiles (s : Server) (w : WsPtr) : Exec Server := do
  let f ← s.tiles.focusedTile w
  deref (s.tiles.tileLive f)
  let p ← nonNull (s.tiles.tileLinks.prev f)
  let s := { s with
    tiles.tileLinks := { s.tiles.tileLinks with
      next := Function.update s.tiles.tileLinks.next p none } }
  freeTilesLoop w (s.tiles.tileTop + 1) s

/-- `workspace_free`. -/
def workspaceFree (s : Server) (w : WsPtr) : Exec Server := do
  let s ← s.workspaceFreeTiles w
  .ok { s with tiles.wsLive := Function.update s.tiles.wsLive w false }

/-- `workspace_focus`. -/
def workspaceFocus (s : Server) (o : OutPtr) (ws : ℕ) : Exec Server :=
  if s.outs.nws ≤ ws then .ok s
  else do
    let wOld ← s.outs.wsAt o (s.outs.outCurr o)
    let w ← s.outs.wsAt o ws
    deref (s.tiles.wsLive wOld && s.tiles.wsLive w)
    .ok { s with outs.outCurr := Function.update s.outs.outCurr o ws }

/-! ### The seat -/

/-- The output a tile is on. -/
def outputOfTile (s : Server) (t : TilePtr) : Exec OutPtr := do
  deref (s.tiles.tileLive t)
  deref (s.tiles.wsLive (s.tiles.tileWorkspace t))
  let o := s.tiles.wsOutput (s.tiles.tileWorkspace t)
  deref (s.outs.outLive o)
  .ok o

/-- `process_cursor_motion`: the tile below the cursor becomes the cursor tile. -/
def processCursorMotion (s : Server) : Exec Server :=
  ifSome s.cursorAt s fun (o, x, y) => do
    deref (decide (o ∈ s.outs.outputs))
    let w ← s.outs.wsAt o (s.outs.outCurr o)
    let f ← s.tiles.focusedTile w
    let found ← s.tiles.findTile w fun t =>
      let b := s.tiles.tileBox t
      .ok (decide ((b.x : ℚ) ≤ x ∧ (b.y : ℚ) ≤ y ∧
        x ≤ (b.x + b.width : ℤ) ∧ y ≤ (b.y + b.height : ℤ)))
    -- a loop that ends without a hit has come back to the focused tile
    let t := found.getD f
    let s ← ifSome s.cursorTile s fun c =>
      if c = t then .ok s
      else do
        let oc ← s.outputOfTile c
        .ok (s.emit (.cursorSwitchTile (s.outs.outName oc) (s.outs.outputGetNum oc)
          (s.tiles.tileId c) (s.outs.outName o) (s.outs.outputGetNum o) (s.tiles.tileId t)))
    .ok { s with cursorTile := some t }

/-- The end of `seat_set_focus`, once the view has become active. -/
def seatEnter (s : Server) (v : ViewPtr) : Exec Server := do
  let s ← s.processCursorMotion
  let w ← s.views.workspaceOf v
  deref (s.tiles.wsLive w && s.outs.outLive (s.tiles.wsOutput w))
  .ok s

/-- `seat_set_focus`.  A managed view is put into the focused tile, and the
head of the current list of views is moved behind it. -/
def seatSetFocus (s : Server) (view : Option ViewPtr) : Exec Server := do
  let prevView := s.disp.focusedView
  match view with
  | none => do
    let f ← s.curTile
    let s ← s.workspaceTileUpdateView f none
    let s := s.setFocusedView none
    s.viewActivate prevView
    s.processCursorMotion
  | some v => do
    deref (s.views.viewLive v)
    if s.views.managed v then do
      let w ← s.outs.curWs
      let f ← s.tiles.focusedTile w
      let s ← s.workspaceTileUpdateView f (some v)
      let V ← s.views.wlListRemove (.head true w)
      let V ← V.wlListInsert (.view v) (.head true w)
      let s := { s with views := V }
      s.viewActivate prevView
      let s := s.setFocusedView (some v)
      s.seatEnter v
    else if (s.views.viewAttrs v).wantsFocus then s.seatEnter v
    else .ok s

/-! ### Mapping and unmapping views -/

/-- Unlink a view from the list it is in. -/
def unlinkView (s : Server) (v : ViewPtr) : Exec Server := do
  let V ← s.views.wlListRemove (.view v)
  .ok { s with views := V }

/-- Link a view in at the front of a list of a workspace. -/
def linkView (s : Server) (managed : Bool) (w : WsPtr) (v : ViewPtr) : Exec Server := do
  let V ← s.views.wlListInsert (.head managed w) (.view v)
  .ok { s with views := V }

/-- `view_init`. -/
def viewInit (s : Server) (attrs : ViewAttrs) : Exec Server := do
  let w ← s.outs.curWs
  deref (s.tiles.wsLive w)
  let v := s.views.viewTop
  let V := s.views
  .ok { s with
    views := { V with
      viewTop := v + 1
      viewLive := Function.update V.viewLive v true
      viewId := Function.update V.viewId v V.viewsCurrId
      viewAttrs := Function.update V.viewAttrs v attrs
      viewWorkspace := Function.update V.viewWorkspace v none
      viewMapped := Function.update V.viewMapped v false
      viewsCurrId := (V.viewsCurrId + 1) % uint32Size }
    disp.viewTile := Function.update s.disp.viewTile v none
    scene.nodeEnabled := Function.update s.scene.nodeEnabled v true }

/-- The id of the tile a view points at, `-1` for `NULL`. -/
def tileIdOf (s : Server) (v : ViewPtr) : Exec ℤ :=
  ifSome (s.disp.viewTile v) (-1) fun t => do
    deref (s.tiles.tileLive t)
    .ok (s.tiles.tileId t)

/-- `view_map` on the current workspace; `x`, `y` are where an unmanaged
surface has put itself. -/
def viewMap (s : Server) (v : ViewPtr) (x y : ℤ) : Exec Server := do
  deref (s.views.viewLive v)
  let w ← s.outs.curWs
  deref (s.tiles.wsLive w && s.outs.outLive (s.tiles.wsOutput w))
  let o := s.tiles.wsOutput w
  let s := { s with views.viewMapped := Function.update s.views.viewMapped v true }
  let s := s.setViewWorkspace v w
  let s ← s.linkView (s.views.managed v) w v
  let cur ← s.outs.curOut
  let out := s.outs.outBox o
  let pos := (x - (s.outs.outBox cur).x, y - (s.outs.outBox cur).y)
  let s := if s.views.managed v then s else { s with
    scene.viewPos := Function.update s.scene.viewPos v pos
    scene.nodePos := Function.update s.scene.nodePos v (pos.1 + out.x, pos.2 + out.y) }
  let s ← s.seatSetFocus (some v)
  let tileId ← s.tileIdOf v
  .ok (s.emit (.viewMap (s.views.viewId v) tileId (s.tiles.wsNum w + 1) (s.outs.outName o)
    (s.outs.outputGetNum o) (s.views.viewAttrs v).pid))

/-- The part of `view_unmap` that takes a managed view out of focus and tile. -/
def viewWithdraw (s : Server) (v : ViewPtr) (kb : Bool) : Exec Server := do
  let prev ← s.viewGetPrevView v
  let s ← (if s.disp.focusedView = some v then s.seatSetFocus prev
    else if kb then s.seatSetFocus s.disp.focusedView else .ok s)
  let tile ← s.viewGetTile v
  ifSome tile s fun t => s.workspaceTileUpdateView t prev

/-- `view_unmap`; `kb` tells whether the keyboard focus is on the surface of
the view (for an unmanaged view: there or nowhere). -/
def viewUnmap (s : Server) (v : ViewPtr) (kb : Bool) : Exec Server := do
  let w ← s.views.workspaceOf v
  deref (s.tiles.wsLive w && s.outs.outLive (s.tiles.wsOutput w))
  let o := s.tiles.wsOutput w
  let outputId := s.outs.outputGetNum o
  if s.views.viewMapped v then do
    let tileId ← s.tileIdOf v
    let s ← (if s.views.managed v then s.viewWithdraw v kb
      else if kb then s.seatSetFocus s.disp.focusedView else .ok s)
    let s ← s.unlinkView v
    let s := { s with views.viewMapped := Function.update s.views.viewMapped v false }
    .ok (s.emit (.viewUnmap (s.views.viewId v) tileId (s.tiles.wsNum w + 1) (s.outs.outName o)
      outputId (s.views.viewAttrs v).pid))
  else .ok s

/-- `view_destroy`. -/
def viewDestroy (s : Server) (v : ViewPtr) (kb : Bool) : Exec Server := do
  deref (s.views.viewLive v)
  let s ← (if s.views.viewMapped v then s.viewUnmap v kb else .ok s)
  let s := { s with views.viewLive := Function.update s.views.viewLive v false }
  let f ← s.curTile
  s.viewActivate (s.disp.tileView f)
  .ok s

end Server

end Cagebreak
