/-
Commands and events that change the layout: splitting and resizing tiles,
moving views, full screen workspaces, the number of workspaces, and outputs
that come and go.
-/
import Cagebreak.Command

namespace Cagebreak

open Exec

/-- A split percentage the parser accepts, as the map from the old size of a
tile to the truncated product `(int)(((float)size) * percentage)`. -/
structure Percentage where
  scale : ℤ → ℤ
  scale_nonneg : ∀ n, 1 ≤ n → 0 ≤ scale n
  scale_lt : ∀ n, 1 ≤ n → scale n < n

/-- The size kept by the focused tile. -/
instance : CoeFun Percentage fun _ => ℤ → ℤ := ⟨Percentage.scale⟩

namespace Server

/-! ### Splitting -/

/-- `keybinding_split_output`; a vertical split cuts the horizontal axis. -/
def keybindingSplitOutput (s : Server) (o : OutPtr) (vertical : Bool) (percentage : Percentage) :
    Exec Server := do
  let a : Axis := if vertical then .horizontal else .vertical
  let original := s.disp.focusedView
  let w ← s.outs.wsAt o (s.outs.outCurr o)
  let f ← s.tiles.focusedTile w
  deref (s.tiles.tileLive f)
  let b := s.tiles.tileBox f
  let n := percentage (b.dim a)
  if n < 1 ∨ b.dim a.compl < 1 then .ok s
  else do
    let nextView ← s.findView s.views.links.next (.head true w) fun v => do
      let vis ← s.viewIsVisible v
      .ok (!vis && decide (original ≠ some v))
    let t := s.tiles.tileTop
    let c ← nonNull (s.tiles.tileLinks.next f)
    let T := s.tiles
    let s := { s with
      tiles := { T with
        tileTop := t + 1
        tileLive := Function.update T.tileLive t true
        tileWorkspace := Function.update T.tileWorkspace t w
        tileBox := Function.update
          (Function.update T.tileBox t (b.setSpan a (b.coord a + n) (b.dim a - n)))
          f (b.setSpan a (b.coord a) n)
        tileLinks := T.tileLinks.insert f t c
        tileId := Function.update T.tileId t T.tilesCurrId
        tilesCurrId := (T.tilesCurrId + 1) % uint32Size }
      disp.tileView := Function.update s.disp.tileView t none }
    let s ← s.workspaceTileUpdateView t nextView
    let s ← s.workspaceFocusTile w f
    let s ← ifSome nextView s fun v => s.viewMaximize v t
    let s ← ifSome original s fun v => s.viewMaximize v f
    let (ws, output, outputId) ← s.placeOf f
    .ok (s.emit (.split (s.tiles.tileId f) (s.tiles.tileId t) ws output outputId vertical))

/-! ### Full screen workspaces -/

/-- Point the views of a list at a tile. -/
def pointViewsAt (s : Server) (l : List ViewPtr) (t : TilePtr) : Server :=
  l.foldl (fun s v => s.setViewTile v (some t)) s

/-- `output_make_workspace_fullscreen`. -/
def outputMakeWorkspaceFullscreen (s : Server) (o : OutPtr) (ws : ℕ) : Exec Server :=
  if s.outs.nws ≤ ws then .ok s
  else do
    let w ← s.outs.wsAt o ws
    let f ← s.tiles.focusedTile w
    deref (s.tiles.tileLive f)
    let current ← (s.disp.tileView f).elim
      (s.findView s.views.links.next (.head true w) s.viewIsVisible) (.ok ∘ some)
    let s ← s.workspaceFreeTiles w
    let s ← s.fullScreenWorkspaceTiles w
    let f ← s.tiles.focusedTile w
    let l ← s.viewsOf (.head true w)
    let s := s.pointViewsAt l f
    let s ← s.workspaceTileUpdateView f current
    if s.outs.outCurr o = ws ∧ s.outs.currOutput = some o then s.seatSetFocus current
    else .ok s

/-- `keybinding_workspace_fullscreen`. -/
def keybindingWorkspaceFullscreen (s : Server) (screen workspace : ℕ) : Exec Server := do
  let cur ← s.outs.curOut
  let ws := if screen ≠ 0 then workspace else s.outs.outCurr cur
  ifSome (if screen ≠ 0 then s.outs.outputFromNum screen else some cur) s fun o =>
    if s.outs.nws ≤ ws then .ok s
    else do
      let s ← s.outputMakeWorkspaceFullscreen o ws
      let w ← s.outs.wsAt o ws
      let f ← s.tiles.focusedTile w
      .ok (s.emit (.fullscreen (s.tiles.tileId f) (s.tiles.wsNum w + 1) (s.outs.outName o)
        (s.outs.outputGetNum o)))

/-! ### Resizing -/

/-- The loop `for(it = tile->next; it != tile && it != NULL; it = it->next)`:
the tiles it visits. -/
def siblingsLoop (T : Tiles) (tile : TilePtr) : ℕ → Option TilePtr → Exec (List TilePtr)
  | 0, _ => .error .diverges
  | _ + 1, none => .ok []
  | n + 1, some it =>
    if it = tile then .ok []
    else do
      deref (T.tileLive it)
      let l ← siblingsLoop T tile n (T.tileLinks.next it)
      .ok (it :: l)

/-- The other tiles of the ring of `tile`. -/
def siblings (T : Tiles) (tile : TilePtr) : Exec (List TilePtr) := do
  deref (T.tileLive tile)
  siblingsLoop T tile (T.tileTop + 1) (T.tileLinks.next tile)

/-- The two tiles meet across the axis. -/
def meetAcross (T : Tiles) (a : Axis) (tile it : TilePtr) : Bool :=
  let b := T.tileBox tile
  let c := T.tileBox it
  intervallsIntersect (b.coord a.compl) (b.coord a.compl + b.dim a.compl)
    (c.coord a.compl) (c.coord a.compl + c.dim a.compl)

/-- The offsets handed on to `it` when `tile` gets the given ones: to a tile
behind it, to a tile before it, or to none. -/
def handedOn (T : Tiles) (a : Axis) (tile it : TilePtr) (coordOffset dimOffset : ℤ) :
    Option (ℤ × ℤ) :=
  let b := T.tileBox tile
  let c := T.tileBox it
  if meetAcross T a tile it then
    if c.coord a = b.coord a + b.dim a then
      some (dimOffset + coordOffset, -dimOffset - coordOffset)
    else if c.coord a + c.dim a = b.coord a then some (0, coordOffset)
    else none
  else none

/-- `resize_allowed`. -/
def resizeAllowed (T : Tiles) (a : Axis) (orig : TilePtr) :
    ℕ → TilePtr → Option TilePtr → ℤ → ℤ → Exec Bool
  | 0, _, _, _, _ => .error .diverges
  | n + 1, tile, parent, coordOffset, dimOffset =>
    if coordOffset = 0 ∧ dimOffset = 0 then .ok true
    else if (T.tileBox tile).dim a + dimOffset ≤ 0 then .ok false
    else do
      let its ← siblings T tile
      its.allM fun it =>
        if some it = parent ∨ it = orig then .ok true
        else match handedOn T a tile it coordOffset dimOffset with
          | none => .ok true
          | some (c, d) => resizeAllowed T a orig n it (some tile) c d

/-- `resize`: the tiles around come first, then the tile itself. -/
def resize (a : Axis) (orig : TilePtr) :
    ℕ → Server → TilePtr → Option TilePtr → ℤ → ℤ → Exec Server
  | 0, _, _, _, _, _ => .error .diverges
  | n + 1, s, tile, parent, coordOffset, dimOffset =>
    if coordOffset = 0 ∧ dimOffset = 0 then .ok s
    else do
      let its ← siblings s.tiles tile
      let s ← its.foldlM (fun s it =>
        if some it = parent ∨ it = orig then .ok s
        else match handedOn s.tiles a tile it coordOffset dimOffset with
          | none => .ok s
          | some (c, d) => resize a orig n s it (some tile) c d) s
      let b := s.tiles.tileBox tile
      let b' := b.setSpan a (b.coord a + coordOffset) (b.dim a + dimOffset)
      let s := { s with tiles.tileBox := Function.update s.tiles.tileBox tile b' }
      let s ← ifSome (s.disp.tileView tile) s fun v => s.viewMaximize v tile
      let (ws, output, outputId) ← s.placeOf tile
      .ok (s.emit (.resizeTile (s.tiles.tileId tile) b b' ws output outputId))

/-- One half of `resize_tile`, along one axis, for the box of the current
output. -/
def resizeAlong (s : Server) (a : Axis) (o : OutPtr) (tile : TilePtr) (pixs : ℤ) : Exec Server := do
  deref (s.tiles.tileLive tile)
  let b := s.tiles.tileBox tile
  let size := (s.outs.outBox o).frame.dim a
  if pixs ≠ 0 ∧ b.dim a < size ∧ isBetweenStrict 0 size (b.dim a + pixs) then do
    -- at the far edge of the output the near edge of the tile moves
    let offset := if b.coord a + b.dim a = size then -pixs else 0
    let allowed ← resizeAllowed s.tiles a tile (s.tiles.tileTop + 2) tile none offset pixs
    if allowed then resize a tile (s.tiles.tileTop + 2) s tile none offset pixs else .ok s
  else .ok s

/-- `resize_tile`. -/
def resizeTile (s : Server) (hpixs vpixs : ℤ) (tileId : ℕ) : Exec Server := do
  let o ← s.outs.curOut
  let f ← s.curTile
  let tile ← (if tileId ≠ 0 then s.tileFromId tileId else .ok (some f))
  ifSome tile s fun tile => do
    let s ← s.resizeAlong .horizontal o tile hpixs
    s.resizeAlong .vertical o tile vpixs

/-! ### Moving views -/

/-- Take a view out of its tile, which goes on to a hidden view, and out of its
list. -/
def takeView (s : Server) (v : ViewPtr) : Exec Server :=
  match s.disp.viewTile v with
  | none => s.unlinkView v
  | some old => do
    let s ← s.workspaceTileUpdateView old none
    let s ← s.unlinkView v
    let s ← s.keybindingCycleViews (some old) 0 false false
    let f ← s.curTile
    if s.disp.tileView old = none ∧ old = f then s.seatSetFocus none else .ok s

/-- Put a view that is in no list into a tile and the list of its workspace. -/
def putView (s : Server) (v : ViewPtr) (t : TilePtr) : Exec Server := do
  deref (s.tiles.tileLive t)
  let w := s.tiles.tileWorkspace t
  let s := s.setViewWorkspace v w
  let s ← s.linkView true w v
  let s := (s.setViewTile v (some t)).setTileView t (some v)
  let f ← s.curTile
  if t = f then s.seatSetFocus (some v) else .ok s

/-- Leave a tile without a view. -/
def emptyTile (s : Server) (t : TilePtr) : Exec Server := do
  deref (s.tiles.tileLive t)
  ifSome (s.disp.tileView t) s fun u => do
    deref (s.views.viewLive u)
    .ok ((s.setViewTile u none).setTileView t none)

/-- `keybinding_move_view_to_tile`; without a view the target is emptied. -/
def keybindingMoveViewToTile (s : Server) (viewId tileId : ℕ) (follow : Bool) : Exec Server := do
  let view ← s.viewFromId viewId
  let tile ← s.tileFromId tileId
  let oldTile := view.bind s.disp.viewTile
  let (oldOutput, oldWs) ← ifSome view ("", (-1 : ℤ)) fun v => do
    let w ← s.views.workspaceOf v
    deref (s.tiles.wsLive w && s.outs.outLive (s.tiles.wsOutput w))
    .ok (s.outs.outName (s.tiles.wsOutput w), (s.tiles.wsNum w : ℤ))
  ifSome tile s fun t => do
    let s ← view.elim (s.emptyTile t) fun v => do
      let s ← s.takeView v
      s.putView v t
    let s ← (if follow then s.keybindingFocusTile (s.tiles.tileId t)
      else ifSome (s.disp.tileView t) s fun u => s.workspaceTileUpdateView t (some u))
    let oc ← s.outs.curOut
    let oldId ← ifSome oldTile (-1 : ℤ) fun old => do
      deref (s.tiles.tileLive old)
      .ok (s.tiles.tileId old : ℤ)
    .ok (s.emit (.moveView viewId oldOutput oldWs oldId (s.outs.outName oc)
      (s.tiles.wsNum (s.tiles.tileWorkspace t)) (s.tiles.tileId t)))

/-- `keybinding_move_view_to_output`. -/
def keybindingMoveViewToOutput (s : Server) (viewId outputNum : ℕ) (follow : Bool) :
    Exec Server :=
  ifSome (s.outs.outputFromNum outputNum) s fun o => do
    let w ← s.outs.wsAt o (s.outs.outCurr o)
    let f ← s.tiles.focusedTile w
    s.keybindingMoveViewToTile viewId (s.tiles.tileId f) follow

/-- `keybinding_move_view_to_workspace`. -/
def keybindingMoveViewToWorkspace (s : Server) (viewId ws : ℕ) (follow : Bool) : Exec Server :=
  if s.outs.nws ≤ ws then .ok s
  else do
    let o ← s.outs.curOut
    let w ← s.outs.wsAt o ws
    let f ← s.tiles.focusedTile w
    s.keybindingMoveViewToTile viewId (s.tiles.tileId f) follow

/-- The view the commands without a view id move: that of the focused tile.
For an empty tile they pass `-1` as an unsigned number. -/
def focusedViewId (s : Server) : Exec ℕ := do
  let f ← s.curTile
  ifSome (s.disp.tileView f) (uint32Size - 1) fun v => do
    deref (s.views.viewLive v)
    .ok (s.views.viewId v)

/-- Let the focused tile go on from its view `v`, which is about to move to
another output. -/
def leaveView (s : Server) (f : TilePtr) (v : ViewPtr) : Exec Server := do
  let s ← s.unlinkView v
  let s := s.setTileView f none
  let s ← s.keybindingCycleViews none 0 false false
  let f ← s.curTile
  if s.disp.tileView f = none then s.seatSetFocus none else .ok s

/-- Show a view that is in no list in the focused tile. -/
def arriveView (s : Server) (v : ViewPtr) : Exec Server := do
  let w ← s.outs.curWs
  let s ← s.linkView true w v
  let f ← s.tiles.focusedTile w
  let s ← s.workspaceTileUpdateView f (some v)
  let s := s.setViewWorkspace v w
  s.seatSetFocus (some v)

/-- `keybinding_move_view_to_cycle_output`. -/
def keybindingMoveViewToCycleOutput (s : Server) (reverse : Bool) : Exec Server :=
  if s.outs.outputs.length ≤ 1 then .ok s
  else do
    let old ← s.outs.curOut
    let f ← s.curTile
    let view := s.disp.tileView f
    let s ← ifSome view s fun v => s.leaveView f v
    let s ← s.keybindingCycleOutputs reverse false
    let s ← ifSome view s fun v => s.arriveView v
    let (id, pid) := view.elim ((-1 : ℤ), (-1 : ℤ)) fun v =>
      ((s.views.viewId v : ℤ), (s.views.viewAttrs v).pid)
    let new ← s.outs.curOut
    let wOld ← s.outs.wsAt old (s.outs.outCurr old)
    let fOld ← s.tiles.focusedTile wOld
    let fNew ← s.curTile
    .ok (s.emit (.moveViewToCycleOutput id pid (s.outs.outName old) (s.outs.outputGetNum old)
      (s.outs.outName new) (s.outs.outputGetNum new) (s.tiles.tileId fOld) (s.tiles.tileId fNew)))

/-! ### The number of workspaces -/

/-- `wl_list_for_each_safe` over the views linked behind `h`. -/
def forEachViewSafe (h : Node) (body : Server → ViewPtr → Exec Server) :
    ℕ → Option Node → Server → Exec Server
  | 0, _, _ => .error .diverges
  | _ + 1, none, _ => .error .undefined
  | n + 1, some x, s =>
    if x = h then .ok s
    else do
      let tmp := s.views.links.next x
      let v ← x.toView
      let s ← body s v
      forEachViewSafe h body n tmp s

/-- Move the views of one list to the front of another, whose workspace they
get. -/
def moveViews (s : Server) (managed : Bool) (w w' : WsPtr) : Exec Server :=
  forEachViewSafe (.head managed w)
    (fun s v => do
      let s ← s.unlinkView v
      let s ← s.linkView managed w' v
      .ok (s.setViewWorkspace v w'))
    (s.views.fuel s.tiles) (s.views.links.next (.head managed w)) s

/-- Replace the array `output->workspaces`. -/
def setWorkspaces (s : Server) (o : OutPtr) (l : List WsPtr) : Server :=
  { s with outs.outWorkspaces := Function.update s.outs.outWorkspaces o l }

/-- One more workspace for an output.  `keybinding_set_nws` sets its number before it
compares it with `NULL`. -/
def addWorkspace (o : OutPtr) (s : Server) (i : ℕ) : Exec Server := do
  let (w, s) ← s.fullScreenWorkspace o i
  let w ← nonNull w
  .ok (s.setWorkspaces o (s.outs.outWorkspaces o ++ [w]))

theorem addWorkspace_ensures {s : Server} {o : OutPtr} {i : ℕ} {P : Server → Prop}
    (h : Ensures (s.newWorkspace o i) fun p =>
      P (p.2.setWorkspaces o (p.2.outs.outWorkspaces o ++ [p.1]))) :
    Ensures (addWorkspace o s i) P := by
  refine Ensures.bind (P := fun p : Option WsPtr × Server => ∀ w, p.1 = some w →
    P (p.2.setWorkspaces o (p.2.outs.outWorkspaces o ++ [w]))) ?_ fun p hp => ?_
  · refine Ensures.deref fun _ => Ensures.ite (fun _ => ?_) fun _ => Ensures.ok nofun
    refine Ensures.bind h fun p hp => Ensures.ok fun w hw => ?_
    obtain rfl := Option.some.inj hw
    exact hp
  · obtain ⟨w, s₁⟩ := p
    exact Ensures.nonNull fun w hw => Ensures.ok (hp w hw)

/-- The part of `keybinding_set_nws` done for one output. -/
def outputSetNws (oldNws nws : ℕ) (s : Server) (o : OutPtr) : Exec Server := do
  let s ← (List.range' nws (oldNws - nws)).foldlM (fun s i => do
    let w ← s.outs.wsAt o i
    let last ← s.outs.wsAt o (nws - 1)
    deref (s.tiles.wsLive w && s.tiles.wsLive last)
    let s ← s.moveViews true w last
    let s ← s.moveViews false w last
    s.workspaceFree w) s
  let s := s.setWorkspaces o ((s.outs.outWorkspaces o).take nws)
  let s ← (List.range' oldNws (nws - oldNws)).foldlM (addWorkspace o) s
  if nws ≤ s.outs.outCurr o then do
    let s := { s with outs.outCurr := Function.update s.outs.outCurr o 0 }
    s.workspaceFocus o (nws - 1)
  else .ok s

/-- `keybinding_set_nws`. -/
def keybindingSetNws (s : Server) (nws : ℕ) : Exec Server := do
  let oldNws := s.outs.nws
  let s := { s with outs.nws := nws }
  let s ← s.outs.outputs.foldlM (outputSetNws oldNws nws) s
  let s ← s.refocus
  .ok (s.emit (.setNws oldNws s.outs.nws))

/-! ### Outputs -/

/-- `output_insert`: the new output goes before the first one of lower
priority. -/
def outputInsert (O : Outputs) (o : OutPtr) : List OutPtr :=
  O.outputs.takeWhile (fun it => decide (O.outPriority o ≤ O.outPriority it)) ++
    o :: O.outputs.dropWhile (fun it => decide (O.outPriority o ≤ O.outPriority it))

/-- `handle_new_output`, for a connector with a name and the box the layout
gives it.  No stored configuration applies to it, and its scene output has just been
made, so that it gets all of its workspaces. -/
def handleNewOutput (s : Server) (name : String) (box : LayoutBox) : Exec Server := do
  let o := s.outs.outTop
  let O := s.outs
  let O := { O with
    outTop := o + 1
    outLive := Function.update O.outLive o true
    outName := Function.update O.outName o name
    outBox := Function.update O.outBox o box
    sceneOutput := Function.update O.sceneOutput o true
    outWorkspaces := Function.update O.outWorkspaces o []
    outCurr := Function.update O.outCurr o 0
    outPriority := Function.update O.outPriority o (-1) }
  let s := { s with outs := { O with outputs := outputInsert O o } }
  let s ← (List.range s.outs.nws).foldlM (addWorkspace o) s
  let s ← s.workspaceFocus o 0
  let s := { s with outs.currOutput := s.outs.currOutput.or (some o) }
  .ok (s.emit (.newOutput name (s.outs.outputGetNum o) (-1) false))

/-- What `output_clear` does with the views of one list of a workspace. -/
def rehomeViews (s : Server) (managed : Bool) (w wNew : WsPtr) : Exec Server :=
  forEachViewSafe (.head managed w)
    (fun s v => do
      let s ← s.unlinkView v
      if s.outs.outputs = [] then
        .ok { s with views.viewLive := Function.update s.views.viewLive v false }
      else do
        let s ← s.linkView managed wNew v
        let s := s.setViewWorkspace v wNew
        let f ← s.tiles.focusedTile wNew
        let s := s.setViewTile v (some f)
        if managed ∧ s.disp.focusedView = none then s.seatSetFocus (some v) else .ok s)
    (s.views.fuel s.tiles) (s.views.links.next (.head managed w)) s

/-- `output_clear`. -/
def outputClear (s : Server) (o : OutPtr) : Exec Server := do
  let s ← (if s.outs.currOutput = some o ∧ 1 < s.outs.outputs.length then
    s.keybindingCycleOutputs false true else .ok s)
  let s := { s with outs.outputs := s.outs.outputs.erase o }
  (List.range s.outs.nws).foldlM (fun s i => do
    let w ← s.outs.wsAt o i
    let l ← s.tiles.ringOf w
    let s ← l.foldlM (fun s t => s.workspaceTileUpdateView t none) s
    let wNew ← s.outs.curWs
    let s ← s.rehomeViews true w wNew
    s.rehomeViews false w wNew) s

/-- `output_destroy`, for an output that is not permanent. -/
def outputDestroy (s : Server) (o : OutPtr) : Exec Server := do
  let name := s.outs.outName o
  let num := s.outs.outputGetNum o
  let s ← s.outputClear o
  let s ← (List.range s.outs.nws).foldlM (fun s i => do
    let w ← s.outs.wsAt o i
    deref (s.tiles.wsLive w)
    s.workspaceFree w) s
  let s := { s with
    outs.outLive := Function.update s.outs.outLive o false
    outs.sceneOutput := Function.update s.outs.sceneOutput o false }
  let s := s.emit (.destroyOutput name num false)
  .ok (if s.outs.outputs = [] then { s with terminated := true } else s)

end Server

end Cagebreak
