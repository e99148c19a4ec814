/-
Outputs that are plugged in, unplugged and configured.

An output of the compositor is in one of two lists, that of the enabled and that
of the disabled outputs.  It owns an array of workspaces and a scene output, the
part of the scene that is shown on it; a permanent output outlives its monitor
on a headless replacement.

The events are those that change the outputs, their lists and their workspaces:
monitors that come and go, `output` commands with the answers of the backend,
`workspaces`, and the commands that change the current output or workspace.
-/
import Cagebreak.OutputConfig
import Mathlib.Logic.Function.Basic

namespace Cagebreak

/-- What may go wrong. -/
inductive OutputFault
  /-- a `NULL` pointer is followed -/
  | null
  /-- a pointer to a freed output or scene output is followed -/
  | freed
  /-- an array of workspaces is indexed outside, or is `NULL` -/
  | badIndex
  /-- the head of a list is taken for an output -/
  | badList
  /-- a scene output is destroyed twice -/
  | doubleDestroy
  deriving DecidableEq, Repr

abbrev OutputExec (α : Type) := Except OutputFault α

/-- `struct cg_workspace`. -/
structure CgWorkspace where
  num : ℤ
  deriving DecidableEq, Repr

/-- `struct cg_output`.  The array of workspaces is `NULL` for a new output, and
an entry is `none` as long as it has not been assigned. -/
structure CgOutput where
  name : Text
  sceneOutput : Option ℕ
  bg : Bool
  workspaces : Option (List (Option CgWorkspace))
  currWorkspace : ℕ
  priority : ℤ
  role : OutputRole
  destroyed : Bool
  deriving DecidableEq, Repr

/-- The fields of `struct cg_server` about outputs, and the outputs.  Outputs and
scene outputs are numbers below `top`. -/
structure OutputServer where
  top : ℕ
  live : ℕ → Bool
  cg : ℕ → CgOutput
  sceneLive : ℕ → Bool
  outputs : List ℕ
  disabledOutputs : List ℕ
  currOutput : Option ℕ
  nws : ℕ
  running : Bool
  terminated : Bool
  outputConfig : List OutputConfig
  outputPriorities : List (Text × ℤ)

/-- What the backend and the layout answer while an output is configured:
`output_set_mode` succeeds, the size of the output changes, it is moved. -/
structure OutputAnswer where
  modeSet : Bool
  resized : Bool
  moved : Bool
  deriving DecidableEq, Repr

namespace OutputServer

/-- Change an output. -/
def modify (s : OutputServer) (o : ℕ) (f : CgOutput → CgOutput) : OutputServer :=
  { s with cg := Function.update s.cg o (f (s.cg o)) }

/-! ### The scene, in wlroots -/

/-- `wlr_scene_output_destroy` of wlroots, which ignores `NULL` and frees the object. -/
def sceneOutputDestroy (s : OutputServer) : Option ℕ → OutputExec OutputServer
  | none => .ok s
  | some p =>
    if s.sceneLive p then .ok { s with sceneLive := Function.update s.sceneLive p false }
    else .error .doubleDestroy

/-- `wlr_scene_get_scene_output` finds one: the last that was created for the
output, unless it has been destroyed. -/
def hasSceneOutput (s : OutputServer) (o : ℕ) : Bool := (s.cg o).sceneOutput.any s.sceneLive

/-! ### Outputs and their workspaces -/

/-- Reading `output->workspaces[i]`. -/
def wsAt (s : OutputServer) (o i : ℕ) : OutputExec CgWorkspace :=
  match (s.cg o).workspaces with
  | none => .error .badIndex
  | some ws =>
    match ws[i]? with
    | some (some w) => .ok w
    | _ => .error .badIndex

/-- `server->curr_output`, followed. -/
def curr (s : OutputServer) : OutputExec ℕ :=
  match s.currOutput with
  | none => .error .null
  | some o => if s.live o then .ok o else .error .freed

/-- `server->curr_output->workspaces[server->curr_output->curr_workspace]`. -/
def currWs (s : OutputServer) : OutputExec CgWorkspace := do
  let o ← s.curr
  s.wsAt o (s.cg o).currWorkspace

/-- `set_output`. -/
def setOutput (s : OutputServer) (o : ℕ) : OutputExec OutputServer := do
  let s := { s with currOutput := some o }
  let _ ← s.currWs
  .ok s

/-- The element after `o` in a list. -/
def after (o : ℕ) (l : List ℕ) : Option ℕ := (l.dropWhile (· ≠ o)).tail.head?

/-- The output that `keybinding_cycle_outputs` turns to.  Only the head of
`server->outputs` is recognized as such. -/
def nextOutput (s : OutputServer) (reverse : Bool) (o : ℕ) : OutputExec ℕ :=
  let dir := fun l : List ℕ => if reverse then l.reverse else l
  if o ∈ s.outputs then
    match (after o (dir s.outputs)).or (dir s.outputs).head? with
    | some p => .ok p
    | none => .error .badList
  else
    match after o (dir s.disabledOutputs) with
    | some p => .ok p
    | none => .error .badList

/-- `keybinding_cycle_outputs`. -/
def keybindingCycleOutputs (s : OutputServer) (reverse : Bool) : OutputExec OutputServer := do
  let oldOutput ← s.curr
  let output ← s.nextOutput reverse oldOutput
  s.setOutput output

/-- `wl_list_remove(&output->link)`. -/
def unlink (s : OutputServer) (o : ℕ) : OutputServer :=
  { s with
    outputs := s.outputs.erase o
    disabledOutputs := s.disabledOutputs.erase o }

/-- `output_clear`, up to the views, which move to the current workspace. -/
def outputClear (s : OutputServer) (o : ℕ) : OutputExec OutputServer := do
  let s ← s.sceneOutputDestroy (s.cg o).sceneOutput
  let s ← (if s.running ∧ s.currOutput = some o ∧ 1 < s.outputs.length then
    s.keybindingCycleOutputs false else .ok s)
  let s := s.unlink o
  if s.running then
    (List.range s.nws).foldlM (fun s i => do
      let _ ← s.wsAt o i
      let _ ← s.currWs
      .ok s) s
  else .ok s

/-- `output_insert`. -/
def outputInsert (s : OutputServer) (o : ℕ) : OutputServer :=
  let stays := fun it => decide ((s.cg o).priority ≤ (s.cg it).priority)
  { s with outputs := s.outputs.takeWhile stays ++ o :: s.outputs.dropWhile stays }

/-- A new scene output. -/
def sceneOutputCreate (s : OutputServer) (o : ℕ) : OutputServer :=
  { s.modify o (fun c => { c with sceneOutput := some s.top }) with
    top := s.top + 1
    sceneLive := Function.update s.sceneLive s.top true }

/-- The part of `output_destroy` for an output that has not lost its monitor. -/
def detach (s : OutputServer) (o : ℕ) : OutputExec OutputServer :=
  if (s.cg o).destroyed then .ok s
  else do
    let s ← s.sceneOutputDestroy (s.cg o).sceneOutput
    .ok (s.modify o fun c => { c with sceneOutput := none })

/-- `output_destroy`. -/
def outputDestroy (s : OutputServer) (o : ℕ) : OutputExec OutputServer := do
  let s ← s.detach o
  let s := s.modify o fun c => { c with destroyed := true }
  let s ← (if (s.cg o).role = .permanent ∧ s.running then .ok (s.sceneOutputCreate o)
    else do
      let s ← s.outputClear o
      let s ← (List.range s.nws).foldlM (fun s i => do
        let _ ← s.wsAt o i
        .ok s) s
      .ok { s with live := Function.update s.live o false })
  .ok (if s.outputs = [] ∧ s.running then { s with terminated := true } else s)

/-- The output leaves the enabled outputs. -/
def disable (s : OutputServer) (o : ℕ) : OutputExec OutputServer := do
  let s ← s.outputClear o
  .ok { s with disabledOutputs := o :: s.disabledOutputs }

/-- The middle part of `output_apply_config`: a new size makes all workspaces
full screen, and a new position moves all views. -/
def place (s : OutputServer) (o : ℕ) (answer : OutputAnswer) : OutputExec Unit := do
  if !s.hasSceneOutput o then .error .freed
  else if (s.cg o).workspaces ≠ none ∧ (answer.resized ∨ answer.moved) then
    (List.range s.nws).forM fun i => do
      let _ ← s.wsAt o i
  else .ok ()

/-- The last part of `output_apply_config`. -/
def renewBackground (s : OutputServer) (o : ℕ) : OutputServer :=
  s.modify o fun c => { c with bg := s.hasSceneOutput o }

/-- `output_apply_config`. -/
def outputApplyConfig (s : OutputServer) (o : ℕ) (config : OutputConfig) (answer : OutputAnswer) :
    OutputExec OutputServer := do
  let role := if config.role ≠ .default then config.role else (s.cg o).role
  let s := s.modify o fun c => { c with role }
  if config.role = .peripheral ∧ (s.cg o).destroyed then s.outputDestroy o
  else do
    let prioChanged := config.priority ≠ -1 ∧ (s.cg o).priority ≠ config.priority
    let priority := if config.priority ≠ -1 then config.priority else (s.cg o).priority
    let s := s.modify o fun c => { c with priority }
    if config.pos.x ≠ -1 ∧ !answer.modeSet then s.disable o
    else do
      let _ ← (if config.pos.x ≠ -1 then s.place o answer else .ok ())
      -- the only output is not disabled
      let s ← (if config.status = .disable ∧ 1 < s.outputs.length then s.disable o
        else if prioChanged then .ok ((s.unlink o).outputInsert o)
        else .ok s)
      .ok (s.renewBackground o)

/-- `output_configure`. -/
def outputConfigure (s : OutputServer) (o : ℕ) (answer : OutputAnswer) :
    OutputExec OutputServer :=
  s.outputApplyConfig o (totalConfig s.outputConfig (s.cg o).name) answer

/-- The output that an `output` command is about. -/
def named (s : OutputServer) (name : Option Text) : Option ℕ :=
  let has := fun o => decide (some (s.cg o).name = name)
  (s.outputs.find? has).or (s.disabledOutputs.find? has)

/-- `keybinding_configure_output`. -/
def keybindingConfigureOutput (s : OutputServer) (cfg : OutputConfig) (answer : OutputAnswer) :
    OutputExec OutputServer :=
  let s := { s with outputConfig := storeConfig s.outputConfig cfg }
  match s.named cfg.outputName with
  | some o => s.outputConfigure o answer
  | none => .ok s

/-- The array of a new output, which becomes the current one if there is none. -/
def createWorkspaces (s : OutputServer) (o : ℕ) : OutputServer :=
  if s.hasSceneOutput o then
    { s.modify o (fun c => { c with
        workspaces := some ((List.range s.nws).map fun i : ℕ => some ⟨i⟩)
        currWorkspace := 0 }) with
      currOutput := s.currOutput.or (some o) }
  -- `full_screen_workspace` fails for the first workspace
  else s.modify o fun c => { c with workspaces := some [] }

/-- The permanent output that waits for a monitor of this name. -/
def waiting (s : OutputServer) (name : Text) : Option ℕ :=
  (s.outputs.filter fun o => decide ((s.cg o).name = name) && (s.cg o).destroyed).getLast?

/-- The output of `calloc` with the fields that `handle_new_output` sets first. -/
def newOutput (s : OutputServer) (name : Text) : CgOutput where
  name
  sceneOutput := none
  bg := false
  workspaces := none
  currWorkspace := 0
  priority :=
    ((s.outputPriorities.filter fun it => decide (it.1 = name)).getLast?.map Prod.snd).getD
    (-1)
  role := .peripheral
  destroyed := false

/-- `handle_new_output` for the monitor of a waiting output. -/
def reinitOutput (s : OutputServer) (o : ℕ) (answer : OutputAnswer) :
    OutputExec OutputServer := do
  let s ← s.sceneOutputDestroy (s.cg o).sceneOutput
  let s := s.sceneOutputCreate o
  let s := s.modify o fun c => { c with destroyed := false }
  s.outputConfigure o answer

/-- `handle_new_output` for any other monitor. -/
def addOutput (s : OutputServer) (name : Text) (answer : OutputAnswer) :
    OutputExec OutputServer := do
  let o := s.top
  let s := { s with
    top := s.top + 1
    live := Function.update s.live o true
    cg := Function.update s.cg o (s.newOutput name) }
  let s := s.sceneOutputCreate o
  let s := s.outputInsert o
  let s ← s.outputConfigure o answer
  .ok (s.createWorkspaces o)

/-- `handle_new_output`. -/
def handleNewOutput (s : OutputServer) (name : Text) (answer : OutputAnswer) :
    OutputExec OutputServer :=
  match s.waiting name with
  | some o => s.reinitOutput o answer
  | none => s.addOutput name answer

/-- `realloc` of an array to `n` entries. -/
def resizeArray {α : Type} (ws : List (Option α)) (n : ℕ) : List (Option α) :=
  ws.take n ++ List.replicate (n - ws.length) none

/-- The part of `keybinding_set_nws` done for one output. -/
def outputSetNws (oldNws nws : ℕ) (s : OutputServer) (o : ℕ) : OutputExec OutputServer := do
  (List.range' nws (oldNws - nws)).forM fun i => do
    let _ ← s.wsAt o i
    let _ ← s.wsAt o (nws - 1)
  if oldNws < nws ∧ !s.hasSceneOutput o then .error .null
  else
    match (s.cg o).workspaces with
    | none => .error .badIndex
    | some ws =>
      let ws := (List.range' oldNws (nws - oldNws)).foldl (fun ws i => ws.set i (some ⟨i⟩))
        (resizeArray ws nws)
      let s := s.modify o fun c => { c with workspaces := some ws }
      if nws ≤ (s.cg o).currWorkspace then do
        let _ ← s.wsAt o 0
        let _ ← s.wsAt o (nws - 1)
        .ok (s.modify o fun c => { c with currWorkspace := nws - 1 })
      else .ok s

/-- `keybinding_set_nws`; disabled outputs are not visited. -/
def keybindingSetNws (s : OutputServer) (nws : ℕ) : OutputExec OutputServer := do
  let oldNws := s.nws
  let s := { s with nws }
  let s ← s.outputs.foldlM (outputSetNws oldNws nws) s
  let _ ← s.currWs
  .ok s

/-- `keybinding_switch_ws`. -/
def keybindingSwitchWs (s : OutputServer) (ws : ℕ) : OutputExec OutputServer :=
  if s.nws ≤ ws then .ok s
  else do
    let o ← s.curr
    let _ ← s.wsAt o (s.cg o).currWorkspace
    let _ ← s.wsAt o ws
    .ok (s.modify o fun c => { c with currWorkspace := ws })

/-- `keybinding_switch_output`. -/
def keybindingSwitchOutput (s : OutputServer) (output : ℕ) : OutputExec OutputServer :=
  match s.outputs[output - 1]? with
  | some o => if output = 0 then .ok s else s.setOutput o
  | none => .ok s

end OutputServer

/-- What the outputs react to.  The parser accepts between 1 and 30 workspaces. -/
inductive OutputEvent
  | plug (name : Text) (answer : OutputAnswer)
  | unplug (o : ℕ)
  | configure (cfg : OutputConfig) (answer : OutputAnswer)
  | workspaces (nws : {n : ℕ // 1 ≤ n ∧ n ≤ 30})
  | cycleOutputs (reverse : Bool)
  | switchOutput (output : ℕ)
  | switchWs (ws : ℕ)
  | quit

namespace OutputServer

/-- The monitor of an output can be unplugged. -/
def connected (s : OutputServer) (o : ℕ) : Bool := s.live o && !(s.cg o).destroyed

/-- Handle one event. -/
def step (s : OutputServer) : OutputEvent → OutputExec OutputServer
  | .plug name answer => s.handleNewOutput name answer
  | .unplug o => if s.connected o then s.outputDestroy o else .ok s
  | .configure cfg answer => s.keybindingConfigureOutput cfg answer
  | .workspaces nws => s.keybindingSetNws nws
  | .cycleOutputs reverse => s.keybindingCycleOutputs reverse
  | .switchOutput output => s.keybindingSwitchOutput output
  | .switchWs ws => s.keybindingSwitchWs ws
  | .quit => .ok { s with running := false, terminated := true }

/-- The server before the first monitor. -/
def init (outputPriorities : List (Text × ℤ)) : OutputServer where
  top := 0
  live _ := false
  cg _ := ⟨[], none, false, none, 0, 0, .peripheral, false⟩
  sceneLive _ := false
  outputs := []
  disabledOutputs := []
  currOutput := none
  nws := 1
  running := true
  terminated := false
  outputConfig := []
  outputPriorities

end OutputServer

end Cagebreak
