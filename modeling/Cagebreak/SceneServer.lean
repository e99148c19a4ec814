/-
Views in the scene.

Every workspace has a tree in the scene, and every view a tree of its own, which
hangs below that of a workspace from the creation of the view on.  Freeing a
workspace destroys its tree with all that is below it.

The model follows the views, the workspaces and the outputs through everything
that creates, moves or frees one of them while the server is running.  An output
that is disabled, enabled or removed is an event here: when that happens, and
where an output is put into the list of the enabled ones, is decided by its
configuration.  So is the view that is moved: it is the one with the focus, or
the one a command names.  The order of the lists of views follows the focus and
is left out, and a permanent output that loses its monitor keeps all that is
modelled here.
-/
import Cagebreak.Lib.Exec
import Cagebreak.Lib.Forest
import Cagebreak.OutputServer

namespace Cagebreak

open Exec
open OutputServer (after resizeArray)

/-- `struct cg_workspace`, with the lists of its views. -/
structure SceneWs where
  scene : ℕ
  views : List ℕ
  unmanagedViews : List ℕ
  deriving DecidableEq

/-- `struct cg_view`. -/
structure SceneView where
  sceneTree : ℕ
  workspace : Option ℕ
  managed : Bool
  mapped : Bool
  deriving DecidableEq

/-- `struct cg_output`. -/
structure SceneOut where
  workspaces : List (Option ℕ)
  currWorkspace : ℕ
  deriving DecidableEq

/-- `struct cg_server`.  What has been freed is `none`. -/
structure SceneServer where
  scene : Forest
  wsTop : ℕ
  ws : ℕ → Option SceneWs
  viewTop : ℕ
  view : ℕ → Option SceneView
  outTop : ℕ
  out : ℕ → Option SceneOut
  outputs : List ℕ
  disabledOutputs : List ℕ
  currOutput : Option ℕ
  nws : ℕ

namespace SceneServer

/-- `output->workspaces[i]`. -/
def wsAt (s : SceneServer) (o i : ℕ) : Exec ℕ := do
  let c ← nonNull (s.out o)
  let entry ← nonNull c.workspaces[i]?
  nonNull entry

/-- `server->curr_output->workspaces[server->curr_output->curr_workspace]`. -/
def currWs (s : SceneServer) : Exec ℕ := do
  let o ← nonNull s.currOutput
  let c ← nonNull (s.out o)
  let w ← s.wsAt o c.currWorkspace
  let _ ← nonNull (s.ws w)
  .ok w

def setView (s : SceneServer) (v : ℕ) (c : Option SceneView) : SceneServer :=
  { s with view := Function.update s.view v c }

def setOut (s : SceneServer) (o : ℕ) (c : Option SceneOut) : SceneServer :=
  { s with out := Function.update s.out o c }

/-- `wl_list_remove(&view->link)`: the view leaves the list it is in. -/
def unlink (s : SceneServer) (v : ℕ) : SceneServer :=
  { s with ws := fun w => (s.ws w).map fun d => { d with
      views := d.views.filter (· ≠ v)
      unmanagedViews := d.unmanagedViews.filter (· ≠ v) } }

/-- `wl_list_insert` into a list of a workspace. -/
def link (s : SceneServer) (w v : ℕ) (managed : Bool) : Exec SceneServer := do
  let d ← nonNull (s.ws w)
  .ok { s with ws := Function.update s.ws w (some (if managed then
    { d with views := v :: d.views } else { d with unmanagedViews := v :: d.unmanagedViews })) }

/-- `wlr_scene_node_reparent`. -/
def reparent (s : SceneServer) (n p : ℕ) : Exec SceneServer := do
  deref (s.scene.live n && s.scene.live p)
  .ok { s with scene := s.scene.reparent n p }

/-! ### Views -/

/-- `view_init`. -/
def viewInit (s : SceneServer) (managed : Bool) : Exec SceneServer := do
  let w ← s.currWs
  let d ← nonNull (s.ws w)
  deref (s.scene.live d.scene)
  .ok { s.setView s.viewTop (some ⟨s.scene.top, none, managed, false⟩) with
    viewTop := s.viewTop + 1
    scene := s.scene.create d.scene }

/-- `view_map`, on the current workspace. -/
def viewMap (s : SceneServer) (v : ℕ) : Exec SceneServer := do
  let c ← nonNull (s.view v)
  let w ← s.currWs
  let d ← nonNull (s.ws w)
  let s ← s.reparent c.sceneTree d.scene
  let s := s.setView v (some { c with workspace := some w, mapped := true })
  s.link w v c.managed

/-- `view_unmap`. -/
def viewUnmap (s : SceneServer) (v : ℕ) : Exec SceneServer := do
  let c ← nonNull (s.view v)
  let w ← nonNull c.workspace
  let _ ← nonNull (s.ws w)
  if c.mapped then .ok ((s.unlink v).setView v (some { c with mapped := false }))
  else .ok s

/-- `view_destroy`. -/
def viewDestroy (s : SceneServer) (v : ℕ) : Exec SceneServer := do
  let c ← nonNull (s.view v)
  let s ← (if c.mapped then s.viewUnmap v else .ok s)
  deref (s.scene.live c.sceneTree)
  let s := { s.setView v none with scene := s.scene.destroy c.sceneTree }
  let _ ← s.currWs
  .ok s

/-! ### Outputs and workspaces -/

/-- The output that `keybinding_cycle_outputs` turns to. -/
def nextOutput (s : SceneServer) (reverse : Bool) (o : ℕ) : Exec ℕ :=
  let dir := fun l : List ℕ => if reverse then l.reverse else l
  if o ∈ s.outputs then nonNull ((after o (dir s.outputs)).or (dir s.outputs).head?)
  else nonNull (after o (dir s.disabledOutputs))

/-- `set_output`. -/
def setOutput (s : SceneServer) (o : ℕ) : Exec SceneServer := do
  let s := { s with currOutput := some o }
  let _ ← s.currWs
  .ok s

/-- `keybinding_cycle_outputs`. -/
def keybindingCycleOutputs (s : SceneServer) (reverse : Bool) : Exec SceneServer := do
  let old ← nonNull s.currOutput
  let o ← s.nextOutput reverse old
  s.setOutput o

/-- What `output_clear` does with a view: it moves to the workspace `cw`, or is
freed when there is no output any more. -/
def rescue (cw : ℕ) (managed : Bool) (s : SceneServer) (v : ℕ) : Exec SceneServer := do
  let c ← nonNull (s.view v)
  let s := s.unlink v
  if s.outputs = [] then .ok (s.setView v none)
  else do
    let d ← nonNull (s.ws cw)
    let s ← s.link cw v managed
    let s ← s.reparent c.sceneTree d.scene
    .ok (s.setView v (some { c with workspace := some cw }))

/-- The part of `output_clear` about the workspace `i`. -/
def clearWs (o : ℕ) (s : SceneServer) (i : ℕ) : Exec SceneServer := do
  let w ← s.wsAt o i
  let cw ← s.currWs
  let d ← nonNull (s.ws w)
  let s ← d.views.foldlM (rescue cw true) s
  let d ← nonNull (s.ws w)
  d.unmanagedViews.foldlM (rescue cw false) s

/-- `output_clear`. -/
def outputClear (s : SceneServer) (o : ℕ) : Exec SceneServer := do
  let s ← (if s.currOutput = some o ∧ 1 < s.outputs.length then s.keybindingCycleOutputs false
    else .ok s)
  let s := { s with
    outputs := s.outputs.erase o
    disabledOutputs := s.disabledOutputs.erase o }
  (List.range s.nws).foldlM (clearWs o) s

/-- `workspace_free`. -/
def workspaceFree (s : SceneServer) (w : ℕ) : Exec SceneServer := do
  let d ← nonNull (s.ws w)
  deref (s.scene.live d.scene)
  .ok { s with
    scene := s.scene.destroy d.scene
    ws := Function.update s.ws w none }

/-- `output_destroy`, for an output that is not replaced. -/
def outputDestroy (s : SceneServer) (o : ℕ) : Exec SceneServer := do
  let s ← s.outputClear o
  let s ← (List.range s.nws).foldlM (fun s i => do
    let w ← s.wsAt o i
    s.workspaceFree w) s
  .ok (s.setOut o none)

/-- The output is disabled. -/
def outputDisable (s : SceneServer) (o : ℕ) : Exec SceneServer := do
  let s ← s.outputClear o
  .ok { s with disabledOutputs := o :: s.disabledOutputs }

/-- `output_insert`, at the place `k` among the outputs. -/
def insertAt (l : List ℕ) (k o : ℕ) : List ℕ := l.take k ++ o :: l.drop k

/-- The output is put into the list of the enabled ones. -/
def outputEnable (s : SceneServer) (o k : ℕ) : SceneServer :=
  { s with
    outputs := insertAt (s.outputs.erase o) k o
    disabledOutputs := s.disabledOutputs.erase o }

/-- `full_screen_workspace`, for the entry `i` of the array. -/
def addWorkspace (o : ℕ) (s : SceneServer) (i : ℕ) : SceneServer :=
  { s.setOut o ((s.out o).map fun c =>
      { c with workspaces := c.workspaces.set i (some s.wsTop) }) with
    scene := s.scene.create 0
    wsTop := s.wsTop + 1
    ws := Function.update s.ws s.wsTop (some ⟨s.scene.top, [], []⟩) }

/-- `handle_new_output`, for an output that is kept enabled. -/
def handleNewOutput (s : SceneServer) (k : ℕ) : SceneServer :=
  let o := s.outTop
  let s := { s.setOut o (some ⟨List.replicate s.nws none, 0⟩) with
    outTop := o + 1
    outputs := insertAt s.outputs k o
    currOutput := s.currOutput.or (some o) }
  (List.range s.nws).foldl (addWorkspace o) s

/-- What `keybinding_set_nws` does with a view of a workspace that is removed. -/
def rehome (t : ℕ) (managed : Bool) (s : SceneServer) (v : ℕ) : Exec SceneServer := do
  let c ← nonNull (s.view v)
  let s ← (s.unlink v).link t v managed
  .ok (s.setView v (some { c with workspace := some t }))

/-- The part of `keybinding_set_nws` about a workspace that is removed. -/
def removeWs (nws o : ℕ) (s : SceneServer) (i : ℕ) : Exec SceneServer := do
  let w ← s.wsAt o i
  let t ← s.wsAt o (nws - 1)
  let d ← nonNull (s.ws w)
  let s ← d.views.foldlM (rehome t true) s
  let d ← nonNull (s.ws w)
  let s ← d.unmanagedViews.foldlM (rehome t false) s
  s.workspaceFree w

/-- The part of `keybinding_set_nws` done for one output. -/
def outputSetNws (oldNws nws : ℕ) (s : SceneServer) (o : ℕ) : Exec SceneServer := do
  let s ← (List.range' nws (oldNws - nws)).foldlM (removeWs nws o) s
  let c ← nonNull (s.out o)
  let s := s.setOut o (some { c with workspaces := resizeArray c.workspaces nws })
  let s := (List.range' oldNws (nws - oldNws)).foldl (addWorkspace o) s
  let c ← nonNull (s.out o)
  let currWorkspace := if nws ≤ c.currWorkspace then nws - 1 else c.currWorkspace
  .ok (s.setOut o (some { c with currWorkspace }))

/-- `keybinding_set_nws`. -/
def keybindingSetNws (s : SceneServer) (nws : ℕ) : Exec SceneServer := do
  let oldNws := s.nws
  let s := { s with nws }
  let s ← s.outputs.foldlM (outputSetNws oldNws nws) s
  let _ ← s.currWs
  .ok s

/-- `keybinding_switch_ws`. -/
def keybindingSwitchWs (s : SceneServer) (i : ℕ) : Exec SceneServer :=
  if s.nws ≤ i then .ok s
  else do
    let o ← nonNull s.currOutput
    let c ← nonNull (s.out o)
    let _ ← s.wsAt o i
    .ok (s.setOut o (some { c with currWorkspace := i }))

/-- `keybinding_switch_output`. -/
def keybindingSwitchOutput (s : SceneServer) (output : ℕ) : Exec SceneServer :=
  match s.outputs[output - 1]? with
  | some o => if output = 0 then .ok s else s.setOutput o
  | none => .ok s

/-! ### Moving views -/

/-- The view is put on the workspace `w`. -/
def moveView (s : SceneServer) (v w : ℕ) : Exec SceneServer := do
  let c ← nonNull (s.view v)
  let d ← nonNull (s.ws w)
  let s ← (s.unlink v).link w v true
  let s ← s.reparent c.sceneTree d.scene
  .ok (s.setView v (some { c with workspace := some w }))

/-- `keybinding_move_view_to_tile`, to a tile of the workspace `i` of an output. -/
def keybindingMoveViewToTile (s : SceneServer) (v o i : ℕ) : Exec SceneServer := do
  let w ← s.wsAt o i
  s.moveView v w

/-- `keybinding_move_view_to_cycle_output`, for the view in the focused tile. -/
def keybindingMoveViewToCycleOutput (s : SceneServer) (v : Option ℕ) (reverse : Bool) :
    Exec SceneServer :=
  if s.outputs.length ≤ 1 then .ok s
  else do
    let s ← s.keybindingCycleOutputs reverse
    ifSome v s fun v => do
      let w ← s.currWs
      s.moveView v w

end SceneServer

/-- What happens to views, workspaces and outputs.  The parser accepts between 1
and 30 workspaces. -/
inductive SceneEvent
  | outputNew (k : ℕ)
  | outputDisable (o : ℕ)
  | outputEnable (o k : ℕ)
  | outputDestroy (o : ℕ)
  | workspaces (nws : {n : ℕ // 1 ≤ n ∧ n ≤ 30})
  | cycleOutputs (reverse : Bool)
  | switchOutput (output : ℕ)
  | switchWs (i : ℕ)
  | viewNew (managed : Bool)
  | viewMap (v : ℕ)
  | viewUnmap (v : ℕ)
  | viewDestroy (v : ℕ)
  | moveView (v o i : ℕ)
  | moveViewToCycleOutput (v : Option ℕ) (reverse : Bool)

namespace SceneServer

/-- The view is a managed one and mapped. -/
def shown (s : SceneServer) (v : ℕ) : Bool := (s.view v).any fun c => c.mapped && c.managed

/-- Handle one event.  Only outputs of the two lists are configured or removed,
only unmapped views are mapped, and only mapped and managed ones are moved. -/
def step (s : SceneServer) : SceneEvent → Exec SceneServer
  | .outputNew k => .ok (s.handleNewOutput k)
  | .outputDisable o => do
    deref (decide (o ∈ s.outputs ∨ o ∈ s.disabledOutputs))
    s.outputDisable o
  | .outputEnable o k => do
    deref (decide (o ∈ s.outputs ∨ o ∈ s.disabledOutputs))
    .ok (s.outputEnable o k)
  | .outputDestroy o => do
    deref (decide (o ∈ s.outputs ∨ o ∈ s.disabledOutputs))
    s.outputDestroy o
  | .workspaces nws => s.keybindingSetNws nws
  | .cycleOutputs reverse => s.keybindingCycleOutputs reverse
  | .switchOutput output => s.keybindingSwitchOutput output
  | .switchWs i => s.keybindingSwitchWs i
  | .viewNew managed => s.viewInit managed
  | .viewMap v => do
    deref ((s.view v).any fun c => !c.mapped)
    s.viewMap v
  | .viewUnmap v => do
    deref ((s.view v).any fun c => c.mapped)
    s.viewUnmap v
  | .viewDestroy v => s.viewDestroy v
  | .moveView v o i => do
    deref (s.shown v && decide (o ∈ s.outputs) && decide (i < s.nws))
    s.keybindingMoveViewToTile v o i
  | .moveViewToCycleOutput v reverse => do
    deref (v.all s.shown)
    s.keybindingMoveViewToCycleOutput v reverse

/-- The server before the first monitor; the root of the scene is the node 0. -/
def init : SceneServer where
  scene := .single
  wsTop := 0
  ws _ := none
  viewTop := 0
  view _ := none
  outTop := 0
  out _ := none
  outputs := []
  disabledOutputs := []
  currOutput := none
  nws := 1

end SceneServer

end Cagebreak
