/-
Where the outputs are, and how large.

The position and the size of an output are kept three times: in the layout of wlroots,
in the scene output that draws it, and in the tiles of its workspaces.
`output_apply_config` changes them at different points, the tiles before the last commit
and the layout only for an output that has no place yet.

* `outputSetMode_spec` — what has been committed when a mode has been found;
* `step_settled` — one event;
* `geometry_agrees` — the three agree in every run of commands that neither move an output
  nor change its size behind the tiles.
-/
import Cagebreak.OutputNames
import Cagebreak.Lib.FloatArith
import Cagebreak.Lib.Rect

namespace Cagebreak

open Outcome OutputConfig

/-- `struct wlr_output_mode`. -/
structure OutputMode where
  width : ℤ
  height : ℤ
  refresh : ℤ
  deriving DecidableEq, Repr

/-- What has been committed on an output. -/
structure Committed where
  mode : OutputMode
  transform : ℤ
  scale : CFloat
  enabled : Bool
  deriving DecidableEq, Repr

/-- `struct wlr_output_state`: what a commit changes. -/
structure OutputState where
  mode : Option OutputMode
  transform : Option ℤ
  scale : Option CFloat
  enabled : Option Bool
  deriving DecidableEq, Repr

/-- What has been committed after a commit that the backend accepts. -/
def Committed.apply (c : Committed) (state : OutputState) : Committed where
  mode := state.mode.getD c.mode
  transform := state.transform.getD c.transform
  scale := state.scale.getD c.scale
  enabled := state.enabled.getD c.enabled

/-- `struct wlr_output`; `preferred` is what `wlr_output_preferred_mode` answers if there
are modes. -/
structure Monitor where
  modes : List OutputMode
  preferred : OutputMode
  committed : Committed
  deriving DecidableEq, Repr

/-- The answers of wlroots while an output is configured: what the backend accepts, the
place that `wlr_output_layout_add_auto` finds, and if the layout announces a change, which
puts all scene outputs where the layout has their outputs. -/
structure GeometryAnswer where
  accepts : Committed → Bool
  auto : ℤ × ℤ
  announced : Bool

namespace Monitor

variable (m : Monitor) (accepts : Committed → Bool) (state : OutputState)

/-- `wlr_output_test_state`. -/
def test : Bool := accepts (m.committed.apply state)

/-- `wlr_output_commit_state`, which does what has passed the test. -/
def commit : Monitor :=
  if m.test accepts state then { m with committed := m.committed.apply state } else m

end Monitor

/-! ### Modes -/

/-- The conversion of a `float` to `int`, undefined without a value. -/
def truncate : CFloat → ℤ
  | .fin q => if 0 ≤ q then ⌊q⌋ else ⌈q⌉
  | .inf _ | .nan => -2147483648

/-- The refresh rate that `output_set_mode` looks for. -/
def boundedRate (refreshRate : CFloat) : CFloat :=
  let mhz := refreshRate.mul (.fin 1000)
  if CFloat.lt (.fin 2147483648) mhz || mhz.lt (.fin 0) then .fin 0 else refreshRate

/-- The loop of `output_set_mode` over the modes. -/
def bestMode (width height mhz : ℤ) : List OutputMode → Option OutputMode → Option OutputMode
  | [], best => best
  | mode :: modes, best =>
    if mode.width = width ∧ mode.height = height then
      if mode.refresh = mhz then some mode
      else bestMode width height mhz modes
        (if best.all fun b => decide (b.refresh < mode.refresh) then some mode else best)
    else bestMode width height mhz modes best

/-- The loop of `output_set_mode` over the other modes, when the best one is refused. -/
def tryModes (accepts : Committed → Bool) (best : OutputMode) :
    List OutputMode → OutputState → Monitor → Monitor × OutputState
  | [], state, m => (m, state)
  | mode :: modes, state, m =>
    if mode = best then tryModes accepts best modes state m
    else
      let state := { state with mode := some mode }
      let m := m.commit accepts state
      if m.test accepts state then (m, state) else tryModes accepts best modes state m

/-- The mode for an output that has no list of modes. -/
def customMode (width height : ℤ) (refreshRate : CFloat) : OutputMode :=
  let rate := boundedRate refreshRate
  ⟨width, height, if CFloat.lt (.fin 0) rate then truncate (rate.mul (.fin 1000)) else 0⟩

/-- The mode that `output_set_mode` tries first. -/
def wantedMode (m : Monitor) (width height : ℤ) (refreshRate : CFloat) : OutputMode :=
  let mhz := truncate ((boundedRate refreshRate).mul (.fin 1000))
  (bestMode width height mhz m.modes none).getD m.preferred

/-- `output_set_mode`: the output, the state to commit, and if a mode has been found. -/
def outputSetMode (m : Monitor) (accepts : Committed → Bool) (state : OutputState)
    (width height : ℤ) (refreshRate : CFloat) : Monitor × OutputState × Bool :=
  if m.modes = [] then
    (m, { state with mode := some (customMode width height refreshRate) }, true)
  else
    let best := wantedMode m width height refreshRate
    let state := { state with mode := some best }
    let first := m.commit accepts state
    if first.test accepts state then (first, state, true)
    else
      let tried := tryModes accepts best m.modes state first
      (tried.1, tried.2, tried.1.test accepts tried.2)

/-! ### The server -/

/-- `wlr_box_empty`. -/
def wlrBoxEmpty (b : Rect) : Bool := decide (b.width ≤ 0 ∨ b.height ≤ 0)

/-- The rectangles of the tiles of a workspace cover the points of `F`, each once. -/
structure Covered (F : Rect) (ring : List Rect) : Prop where
  covers_iff : ∀ p, F.Covers p ↔ ∃ b ∈ ring, b.Covers p
  disjoint : ring.Pairwise fun b c => ∀ p, b.Covers p → ¬ c.Covers p

theorem Covered.single {F : Rect} : Covered F [F] where
  covers_iff p := by simp
  disjoint := List.pairwise_singleton ..

/-- What a command for tiles makes of the tiles of a workspace: others that cover the same
points (a split, a merge, a resize). -/
structure Retiling where
  apply : List Rect → List Rect
  covered : ∀ F ring, Covered F ring → Covered F (apply ring)

/-- The outputs with their places and sizes: in the layout, in the scene, in
`output->layout_box`, and the rectangles of the tiles of each workspace.  `commands` are the
`output` commands that have been given. -/
structure GeometryServer extends OutputServer where
  monitor : ℕ → Monitor
  position : ℕ → Option (ℤ × ℤ)
  scenePosition : ℕ → ℤ × ℤ
  layoutBox : ℕ → Rect
  tiles : ℕ → ℕ → List Rect
  commands : List OutputConfig

/-- What the places and sizes react to. -/
inductive GeometryEvent
  | plug (name : Text) (monitor : Monitor) (answer : GeometryAnswer)
  | configure (cfg : OutputConfig) (answer : GeometryAnswer)
  | tiles (o i : ℕ) (change : Retiling)

namespace GeometryServer

-- `wlr_output_effective_resolution`, of what has been committed
variable (resolution : OutputMode → ℤ → CFloat → ℤ × ℤ)

/-- The size of an output with these settings. -/
def size (c : Committed) : ℤ × ℤ := resolution c.mode c.transform c.scale

/-- `wlr_output_layout_get_box`. -/
def wlrLayoutBox (g : GeometryServer) (o : ℕ) : Rect :=
  match g.position o with
  | none => ⟨0, 0, 0, 0⟩
  | some (x, y) =>
    let c := size resolution (g.monitor o).committed
    ⟨x, y, c.1, c.2⟩

/-- `output->layout_box` is assigned. -/
def setLayoutBox (g : GeometryServer) (o : ℕ) (box : Rect) : GeometryServer :=
  { g with layoutBox := Function.update g.layoutBox o box }

/-- `output_get_layout_box`; the box is kept in `output->layout_box`. -/
def outputGetLayoutBox (g : GeometryServer) (o : ℕ) : GeometryServer :=
  let box := g.wlrLayoutBox resolution o
  if !(g.cg o).destroyed && !wlrBoxEmpty box then
    g.setLayoutBox o box
  else g

/-- Other tiles for a workspace. -/
def setTiles (g : GeometryServer) (o i : ℕ) (ring : List Rect) : GeometryServer :=
  { g with tiles := Function.update g.tiles o (Function.update (g.tiles o) i ring) }

/-- `full_screen_workspace_tiles`. -/
def fullScreenWorkspaceTiles (g : GeometryServer) (o i : ℕ) : GeometryServer :=
  let g := g.outputGetLayoutBox resolution o
  let box := g.layoutBox o
  g.setTiles o i [⟨0, 0, box.width, box.height⟩]

/-- All workspaces of an output are made full screen. -/
def fullScreenWorkspaces (g : GeometryServer) (o : ℕ) : GeometryServer :=
  (List.range g.nws).foldl (fun g i => g.fullScreenWorkspaceTiles resolution o i) g

/-- Scene outputs follow the layout when it announces a change. -/
def announce (g : GeometryServer) (answer : GeometryAnswer) : GeometryServer :=
  if answer.announced then
    { g with scenePosition := fun p => (g.position p).getD (g.scenePosition p) }
  else g

/-- The monitor of an output after commits. -/
def setMonitor (g : GeometryServer) (o : ℕ) (m : Monitor) (answer : GeometryAnswer) :
    GeometryServer :=
  { g with monitor := Function.update g.monitor o m }.announce answer

/-- `wlr_output_layout_add` and `wlr_scene_output_layout_add_output`. -/
def layoutAdd (g : GeometryServer) (o : ℕ) (place : ℤ × ℤ) (answer : GeometryAnswer) :
    GeometryServer :=
  { g with
    position := Function.update g.position o (some place)
    scenePosition := Function.update g.scenePosition o place }.announce answer

/-- The box of an output with workspaces is asked for, which are made full screen if it has
another size. -/
def settleBox (g : GeometryServer) (o : ℕ) (prevBox : Rect) : GeometryServer :=
  let box := g.wlrLayoutBox resolution o
  let g := g.setLayoutBox o box
  if box.width ≠ prevBox.width ∨ box.height ≠ prevBox.height then
    g.fullScreenWorkspaces resolution o
  else g

/-- The branch of `output_apply_config` for a position. -/
def placeAt (g : GeometryServer) (o : ℕ) (pos : OutputPos) (answer : GeometryAnswer) :
    GeometryServer :=
  let prevBox := g.layoutBox o
  let g := if wlrBoxEmpty prevBox then g.layoutAdd o (pos.x, pos.y) answer
    else { g with scenePosition := Function.update g.scenePosition o (pos.x, pos.y) }
  if (g.cg o).workspaces = none then g else g.settleBox resolution o prevBox

/-- The branch of `output_apply_config` for an output that has no place. -/
def placeAuto (g : GeometryServer) (o : ℕ) (answer : GeometryAnswer) : GeometryServer :=
  let g := { g with position := Function.update g.position o (some answer.auto) }
  let box := g.wlrLayoutBox resolution o
  (g.setLayoutBox o box).layoutAdd o (box.x, box.y) answer

end GeometryServer

/-- The settings that `output_apply_config` commits at the end. -/
def OutputConfig.settings (config : OutputConfig) : OutputState where
  mode := none
  transform := if config.angle ≠ -1 then some config.angle else none
  scale := if !config.scale.eq (.fin (-1)) && config.scale.le (.fin 10) then some config.scale
    else none
  enabled := none

namespace GeometryServer

variable (resolution : OutputMode → ℤ → CFloat → ℤ × ℤ)

/-- The answer of `output_set_mode`, if a position is configured. -/
def modeFor (g : GeometryServer) (o : ℕ) (config : OutputConfig) (answer : GeometryAnswer) :
    Monitor × OutputState × Bool :=
  if config.pos.x ≠ -1 then
    outputSetMode (g.monitor o) answer.accepts config.settings config.pos.width
      config.pos.height config.refreshRate
  else (g.monitor o, config.settings, true)

/-- An output without a place and without a position also gets its preferred mode. -/
def withPreferred (g : GeometryServer) (o : ℕ) (config : OutputConfig) (state : OutputState) :
    OutputState :=
  if config.pos.x = -1 ∧ wlrBoxEmpty (g.layoutBox o) ∧ (g.monitor o).modes ≠ [] then
    { state with mode := some (g.monitor o).preferred }
  else state

/-- The middle part of `output_apply_config`. -/
def arrange (g : GeometryServer) (o : ℕ) (config : OutputConfig) (answer : GeometryAnswer) :
    GeometryServer :=
  if config.pos.x ≠ -1 then
    (g.setMonitor o (g.modeFor o config answer).1 answer).placeAt resolution o config.pos answer
  else if wlrBoxEmpty (g.layoutBox o) then g.placeAuto resolution o answer
  else g

/-- The last commit leaves the output enabled. -/
def staysEnabled (g : GeometryServer) (config : OutputConfig) : Bool :=
  !decide (config.status = .disable ∧ 1 < g.outputs.length)

/-- The size of an output has changed, and the output has been moved. -/
def boxAnswer (box prevBox : Rect) : OutputAnswer where
  modeSet := true
  resized := decide (box.width ≠ prevBox.width ∨ box.height ≠ prevBox.height)
  moved := decide (box.x ≠ prevBox.x ∨ box.y ≠ prevBox.y)

/-- `output_apply_config`.  Lists, scene outputs and faults are those of the server. -/
def outputApplyConfig (g : GeometryServer) (o : ℕ) (config : OutputConfig)
    (answer : GeometryAnswer) : OutputExec GeometryServer :=
  if config.role = .peripheral ∧ (g.cg o).destroyed = true then do
    let s ← g.toOutputServer.outputApplyConfig o config ⟨true, false, false⟩
    .ok { g with toOutputServer := s }
  else
    let prevBox := g.layoutBox o
    let set := g.modeFor o config answer
    if !set.2.2 then do
      -- the output is disabled
      let s ← g.toOutputServer.outputApplyConfig o config ⟨false, false, false⟩
      let m := set.1.commit answer.accepts { set.2.1 with enabled := some false }
      .ok ({ g with toOutputServer := s }.setMonitor o m answer)
    else if config.pos.x = -1 ∧ wlrBoxEmpty prevBox ∧ !g.hasSceneOutput o then .error .freed
    else do
      let state := g.withPreferred o config set.2.1
      let g₁ := g.arrange resolution o config answer
      let s ← g.toOutputServer.outputApplyConfig o config (boxAnswer (g₁.layoutBox o) prevBox)
      let m := set.1.commit answer.accepts { state with enabled := some (g.staysEnabled config) }
      .ok ({ g₁ with toOutputServer := s }.setMonitor o m answer)

/-- `output_configure`. -/
def outputConfigure (g : GeometryServer) (o : ℕ) (answer : GeometryAnswer) :
    OutputExec GeometryServer :=
  g.outputApplyConfig resolution o (totalConfig g.outputConfig (g.cg o).name) answer

/-- `keybinding_configure_output`. -/
def keybindingConfigureOutput (g : GeometryServer) (cfg : OutputConfig)
    (answer : GeometryAnswer) : OutputExec GeometryServer :=
  let g := { g with
    toOutputServer := g.recorded cfg
    commands := g.commands ++ [cfg] }
  match g.named cfg.outputName with
  | some o => g.outputConfigure resolution o answer
  | none => .ok g

/-- The output of a new monitor, which has no place yet. -/
def added (g : GeometryServer) (name : Text) (m : Monitor) (answer : GeometryAnswer) :
    GeometryServer :=
  let state : OutputState := ⟨none, some 0, none, some true⟩
  { g with
    toOutputServer := g.toOutputServer.added name
    monitor := Function.update g.monitor g.top (m.commit answer.accepts state)
    position := Function.update g.position g.top none
    layoutBox := Function.update g.layoutBox g.top ⟨0, 0, 0, 0⟩ }

/-- The workspaces of a new output. -/
def createWorkspaces (g : GeometryServer) (o : ℕ) : GeometryServer :=
  let g' := { g with toOutputServer := g.toOutputServer.createWorkspaces o }.setLayoutBox o
    (g.wlrLayoutBox resolution o)
  if g.hasSceneOutput o then g'.fullScreenWorkspaces resolution o else g'

/-- `handle_new_output` for a monitor that no output waits for: none is unplugged here. -/
def handleNewOutput (g : GeometryServer) (name : Text) (m : Monitor)
    (answer : GeometryAnswer) : OutputExec GeometryServer := do
  let g₁ ← (g.added name m answer).outputConfigure resolution g.top answer
  .ok (g₁.createWorkspaces resolution g.top)

/-- Handle one event. -/
def step (g : GeometryServer) : GeometryEvent → OutputExec GeometryServer
  | .plug name m answer => g.handleNewOutput resolution name m answer
  | .configure cfg answer => g.keybindingConfigureOutput resolution cfg answer
  | .tiles o i change => .ok (g.setTiles o i (change.apply (g.tiles o i)))

/-- The server before the first monitor, with the number of workspaces that the
configuration file has set. -/
def init (prios : List (Text × ℤ)) (nws : ℕ) : GeometryServer where
  toOutputServer := { OutputServer.init prios with nws }
  monitor _ := ⟨[], ⟨0, 0, 0⟩, ⟨⟨0, 0, 0⟩, 0, .fin 1, false⟩⟩
  position _ := none
  scenePosition _ := (0, 0)
  layoutBox _ := ⟨0, 0, 0, 0⟩
  tiles _ _ := []
  commands := []

end GeometryServer

/-! ### Modes that have been committed -/

section Modes

variable {m m' : Monitor} {accepts : Committed → Bool} {state state' : OutputState}
  {best : OutputMode} {config : OutputConfig} {width height : ℤ} {rate : CFloat}
  {resolution : OutputMode → ℤ → CFloat → ℤ × ℤ}

/-- Everything in the state has been committed. -/
def Monitor.HasCommitted (m : Monitor) (state : OutputState) : Prop :=
  m.committed.apply state = m.committed

theorem Committed.apply_apply {c : Committed} : (c.apply state).apply state = c.apply state := by
  have hgetD : ∀ {α : Type} (o : Option α) (a : α), o.getD (o.getD a) = o.getD a := by
    intro α o a
    cases o with
    | none => rfl
    | some b => rfl
  simp only [apply, hgetD]

theorem Monitor.hasCommitted_commit (h : (m.commit accepts state).test accepts state = true) :
    (m.commit accepts state).HasCommitted state := by
  rw [commit] at h ⊢
  split at h
  · next htest =>
    rw [if_pos htest]
    exact Committed.apply_apply
  · next htest => exact absurd h htest

/-- What the search has found is committed. -/
theorem tryModes_spec {modes : List OutputMode}
    (h : m.test accepts state = true → m.HasCommitted state) :
    (tryModes accepts best modes state m).1.test accepts (tryModes accepts best modes state m).2 =
        true →
      (tryModes accepts best modes state m).1.HasCommitted
        (tryModes accepts best modes state m).2 := by
  induction modes generalizing m state with
  | nil => exact h
  | cons mode modes ih =>
    rw [tryModes]
    split
    · exact ih h
    · dsimp only
      split
      · exact Monitor.hasCommitted_commit
      · next htest => exact ih fun h => absurd h htest

/-- **`output_set_mode`** changes nothing on an output without modes.  On any other output
the mode that it has found is committed. -/
theorem outputSetMode_spec :
    (m.modes = [] → outputSetMode m accepts state width height rate =
      (m, { state with mode := some (customMode width height rate) }, true)) ∧
    (m.modes ≠ [] → (outputSetMode m accepts state width height rate).2.2 = true →
      (outputSetMode m accepts state width height rate).1.HasCommitted
        (outputSetMode m accepts state width height rate).2.1) := by
  rw [outputSetMode]
  split
  · next hnil => exact ⟨fun _ => rfl, fun hne => absurd hnil hne⟩
  · next hne =>
    refine ⟨fun h => absurd h hne, fun _ => ?_⟩
    dsimp only
    split
    · next htest => exact fun _ => Monitor.hasCommitted_commit htest
    · next htest => exact tryModes_spec fun h => absurd h htest

/-- The size does not depend on the output being enabled. -/
theorem size_apply_enabled {c : Committed} {e : Option Bool} :
    GeometryServer.size resolution (c.apply { state with enabled := e }) =
      GeometryServer.size resolution (c.apply state) := rfl

/-- A commit of what has been committed keeps the size. -/
theorem Monitor.HasCommitted.size_commit (h : m.HasCommitted state) {e : Option Bool} :
    GeometryServer.size resolution
        (m.commit accepts { state with enabled := e }).committed =
      GeometryServer.size resolution m.committed := by
  rw [commit]
  split
  · show GeometryServer.size resolution (m.committed.apply { state with enabled := e }) = _
    rw [size_apply_enabled, h]
  · rfl

end Modes

namespace GeometryServer

variable {resolution : OutputMode → ℤ → CFloat → ℤ × ℤ} {g g' g'' : GeometryServer} {o p : ℕ}
  {config : OutputConfig} {answer : GeometryAnswer} {name : Text} {m : Monitor}
  {place : ℤ × ℤ} {pos : OutputPos}

/-! ### What has no part in the lists -/

@[simp] theorem announce_server : (g.announce answer).toOutputServer = g.toOutputServer := by
  rw [announce]
  split
  · rfl
  · rfl

@[simp] theorem setMonitor_server :
    (g.setMonitor o m answer).toOutputServer = g.toOutputServer := announce_server

@[simp] theorem layoutAdd_server :
    (g.layoutAdd o place answer).toOutputServer = g.toOutputServer := announce_server

/-! ### What is not moved -/

/-- Nothing has changed about an output but that its scene output may have followed the
layout. -/
structure Unmoved (g g' : GeometryServer) (o : ℕ) : Prop where
  monitor : g'.monitor o = g.monitor o
  position : g'.position o = g.position o
  layoutBox : g'.layoutBox o = g.layoutBox o
  tiles : g'.tiles o = g.tiles o
  scenePosition : g'.scenePosition o = g.scenePosition o ∨
    g'.scenePosition o = (g.position o).getD (g.scenePosition o)

theorem Unmoved.refl (g : GeometryServer) (o : ℕ) : Unmoved g g o :=
  ⟨rfl, rfl, rfl, rfl, .inl rfl⟩

theorem Unmoved.trans (h : Unmoved g g' o) (h' : Unmoved g' g'' o) : Unmoved g g'' o where
  monitor := h'.monitor.trans h.monitor
  position := h'.position.trans h.position
  layoutBox := h'.layoutBox.trans h.layoutBox
  tiles := h'.tiles.trans h.tiles
  scenePosition := by
    rcases h'.scenePosition with hsame | hfollows
    · rw [hsame]
      exact h.scenePosition
    · rw [hfollows, h.position]
      rcases h.scenePosition with hsame | hfollowed
      · rw [hsame]
        exact .inr rfl
      · rw [hfollowed]
        cases hp : g.position o with
        | none => exact .inl rfl
        | some place => exact .inr rfl

theorem unmoved_announce : Unmoved g (g.announce answer) o := by
  rw [announce]
  split
  · exact ⟨rfl, rfl, rfl, rfl, .inr rfl⟩
  · exact .refl g o

theorem unmoved_setMonitor (h : p ≠ o) : Unmoved g (g.setMonitor o m answer) p := by
  have hset : Unmoved g { g with monitor := Function.update g.monitor o m } p :=
    ⟨Function.update_of_ne h .., rfl, rfl, rfl, .inl rfl⟩
  exact hset.trans unmoved_announce

theorem unmoved_layoutAdd (h : p ≠ o) : Unmoved g (g.layoutAdd o place answer) p := by
  have hset : Unmoved g { g with
      position := Function.update g.position o (some place)
      scenePosition := Function.update g.scenePosition o place } p :=
    ⟨rfl, Function.update_of_ne h .., rfl, rfl, .inl (Function.update_of_ne h ..)⟩
  exact hset.trans unmoved_announce

theorem setLayoutBox_self {box : Rect} : (g.setLayoutBox o box).layoutBox o = box :=
  Function.update_self ..

theorem setTiles_tiles_self {i : ℕ} {ring : List Rect} :
    (g.setTiles o i ring).tiles o = Function.update (g.tiles o) i ring :=
  Function.update_self ..

/-- Full screen tiles for an output whose box is known. -/
theorem fullScreenWorkspaceTiles_eq (h : g.layoutBox o = g.wlrLayoutBox resolution o) {i : ℕ} :
    g.fullScreenWorkspaceTiles resolution o i =
      g.setTiles o i [⟨0, 0, (g.layoutBox o).width, (g.layoutBox o).height⟩] := by
  have hsame : g.outputGetLayoutBox resolution o = g := by
    rw [outputGetLayoutBox]
    split
    · rw [← h, setLayoutBox, Function.update_eq_self]
    · rfl
  rw [fullScreenWorkspaceTiles, hsame]

/-- All of them. -/
theorem fullScreenWorkspaces_eq (h : g.layoutBox o = g.wlrLayoutBox resolution o) :
    ∃ ring, g.fullScreenWorkspaces resolution o =
        { g with tiles := Function.update g.tiles o ring } ∧
      ∀ i < g.nws, ring i = [⟨0, 0, (g.layoutBox o).width, (g.layoutBox o).height⟩] := by
  have hloop : ∀ (l : List ℕ) (g : GeometryServer), g.layoutBox o = g.wlrLayoutBox resolution o →
      ∃ ring, l.foldl (fun g i => g.fullScreenWorkspaceTiles resolution o i) g =
          { g with tiles := Function.update g.tiles o ring } ∧
        ∀ i, ring i = if i ∈ l then [⟨0, 0, (g.layoutBox o).width, (g.layoutBox o).height⟩]
          else g.tiles o i := by
    intro l
    induction l with
    | nil =>
      intro g hg
      refine ⟨g.tiles o, ?_, fun i => rfl⟩
      rw [Function.update_eq_self]
      rfl
    | cons j l ih =>
      intro g hg
      obtain ⟨ring, hring, htiles⟩ := ih
        (g.setTiles o j [⟨0, 0, (g.layoutBox o).width, (g.layoutBox o).height⟩]) hg
      refine ⟨ring, ?_, fun i => ?_⟩
      · rw [List.foldl_cons, fullScreenWorkspaceTiles_eq hg, hring, setTiles,
          Function.update_idem]
      · rw [htiles]
        by_cases hi : i ∈ l
        · rw [if_pos hi, if_pos (List.mem_cons_of_mem _ hi)]
          rfl
        · rw [if_neg hi, setTiles_tiles_self]
          by_cases hij : i = j
          · rw [hij, Function.update_self, if_pos List.mem_cons_self]
          · rw [Function.update_of_ne hij, if_neg (by simp [hi, hij])]
  obtain ⟨ring, hring, htiles⟩ := hloop (List.range g.nws) g h
  exact ⟨ring, hring, fun i hi => by rw [htiles, if_pos (List.mem_range.mpr hi)]⟩

/-! ### Placing an output -/

/-- The tiles of all workspaces of an output cover its box. -/
def Tiled (g : GeometryServer) (o : ℕ) : Prop :=
  ∀ i < g.nws, Covered ⟨0, 0, (g.layoutBox o).width, (g.layoutBox o).height⟩ (g.tiles o i)

/-- An output is placed anew. -/
structure Placing (g g' : GeometryServer) (o : ℕ) : Prop where
  server : g'.toOutputServer = g.toOutputServer
  others : ∀ p, p ≠ o → Unmoved g g' p
  monitor : g'.monitor = g.monitor
  commands : g'.commands = g.commands

theorem Placing.trans (h : Placing g g' o) (h' : Placing g' g'' o) : Placing g g'' o where
  server := h'.server.trans h.server
  others p hp := (h.others p hp).trans (h'.others p hp)
  monitor := h'.monitor.trans h.monitor
  commands := h'.commands.trans h.commands

theorem placing_announce : Placing g (g.announce answer) o := by
  refine ⟨announce_server, fun p _ => unmoved_announce, ?_, ?_⟩
  · rw [announce]
    split
    · rfl
    · rfl
  · rw [announce]
    split
    · rfl
    · rfl

theorem placing_layoutAdd : Placing g (g.layoutAdd o place answer) o :=
  ⟨layoutAdd_server, fun _ hp => unmoved_layoutAdd hp, (placing_announce (o := o)).monitor,
    (placing_announce (o := o)).commands⟩

/-- The output that is added to the layout. -/
theorem layoutAdd_spec (g : GeometryServer) (o : ℕ) (place : ℤ × ℤ) (answer : GeometryAnswer) :
    (g.layoutAdd o place answer).position o = some place ∧
    (g.layoutAdd o place answer).scenePosition o = place ∧
    (g.layoutAdd o place answer).layoutBox = g.layoutBox ∧
    (g.layoutAdd o place answer).tiles = g.tiles := by
  have hpos : Function.update g.position o (some place) o = some place := Function.update_self ..
  have hscene : Function.update g.scenePosition o place o = place := Function.update_self ..
  rw [layoutAdd, announce]
  split
  · refine ⟨hpos, ?_, rfl, rfl⟩
    show (Function.update g.position o (some place) o).getD _ = place
    rw [hpos]
    rfl
  · exact ⟨hpos, hscene, rfl, rfl⟩

theorem placing_setLayoutBox {box : Rect} : Placing g (g.setLayoutBox o box) o :=
  ⟨rfl, fun _ hp => ⟨rfl, rfl, Function.update_of_ne hp .., rfl, .inl rfl⟩, rfl, rfl⟩

theorem placing_tiles {ring : ℕ → List Rect} :
    Placing g { g with tiles := Function.update g.tiles o ring } o :=
  ⟨rfl, fun _ hp => ⟨rfl, rfl, rfl, Function.update_of_ne hp .., .inl rfl⟩, rfl, rfl⟩

theorem placing_scenePosition :
    Placing g { g with scenePosition := Function.update g.scenePosition o place } o :=
  ⟨rfl, fun _ hp => ⟨rfl, rfl, rfl, rfl, .inl (Function.update_of_ne hp ..)⟩, rfl, rfl⟩

theorem placing_settleBox {prevBox : Rect} :
    Placing g (g.settleBox resolution o prevBox) o := by
  rw [settleBox]
  split
  · have hbox : (g.setLayoutBox o (g.wlrLayoutBox resolution o)).layoutBox o = wlrLayoutBox
      resolution (g.setLayoutBox o (g.wlrLayoutBox resolution o)) o := setLayoutBox_self
    obtain ⟨ring, hring, -⟩ := fullScreenWorkspaces_eq hbox
    rw [hring]
    exact placing_setLayoutBox.trans placing_tiles
  · exact placing_setLayoutBox

theorem placing_placeAt (resolution : OutputMode → ℤ → CFloat → ℤ × ℤ) (g : GeometryServer) (o : ℕ)
    (pos : OutputPos) (answer : GeometryAnswer) :
    Placing g (g.placeAt resolution o pos answer) o := by
  have hlast : ∀ g₁ : GeometryServer, Placing g g₁ o →
      Placing g (if (g₁.cg o).workspaces = none then g₁
        else g₁.settleBox resolution o (g.layoutBox o)) o := by
    intro g₁ h₁
    split
    · exact h₁
    · exact h₁.trans placing_settleBox
  rw [placeAt]
  split
  · exact hlast _ placing_layoutAdd
  · exact hlast _ placing_scenePosition

/-- What has become of an output that is placed: where it is in the layout and in the
scene, and that box and tiles are those of its place. -/
structure Arrived (resolution : OutputMode → ℤ → CFloat → ℤ × ℤ) (g' : GeometryServer) (o : ℕ)
    (position : Option (ℤ × ℤ)) (place : ℤ × ℤ) : Prop where
  position : g'.position o = position
  scenePosition : g'.scenePosition o = place
  layoutBox : g'.layoutBox o = g'.wlrLayoutBox resolution o
  tiled : g'.Tiled o

/-- Full screen tiles have the size of the box. -/
theorem fullScreenWorkspaces_spec (h : g.layoutBox o = g.wlrLayoutBox resolution o) :
    Arrived resolution (g.fullScreenWorkspaces resolution o) o (g.position o)
      (g.scenePosition o) := by
  obtain ⟨ring, hring, htiles⟩ := fullScreenWorkspaces_eq h
  rw [hring]
  refine ⟨rfl, rfl, h, fun i hi => ?_⟩
  show Covered ⟨0, 0, (g.layoutBox o).width, (g.layoutBox o).height⟩
    (Function.update g.tiles o ring o i)
  rw [Function.update_self, htiles i hi]
  exact .single

/-- The tiles are those of the size that the box has. -/
theorem settleBox_spec (resolution : OutputMode → ℤ → CFloat → ℤ × ℤ) (h : g.Tiled o) :
    Arrived resolution (g.settleBox resolution o (g.layoutBox o)) o (g.position o)
      (g.scenePosition o) := by
  have hbox : (g.setLayoutBox o (g.wlrLayoutBox resolution o)).layoutBox o =
    wlrLayoutBox resolution (g.setLayoutBox o (g.wlrLayoutBox resolution o)) o := setLayoutBox_self
  rw [settleBox]
  split
  · exact fullScreenWorkspaces_spec hbox
  · next hsize =>
    obtain ⟨hw, hh⟩ := not_or.mp hsize
    refine ⟨rfl, rfl, hbox, fun i hi => ?_⟩
    rw [setLayoutBox_self, not_not.mp hw, not_not.mp hh]
    exact h i hi

/-- **Placing an output with workspaces** where its configuration says.  In the layout it
stays where it is. -/
theorem placeAt_spec (resolution : OutputMode → ℤ → CFloat → ℤ × ℤ) (pos : OutputPos)
    (answer : GeometryAnswer) (h : g.Tiled o) (hws : (g.cg o).workspaces ≠ none) :
    Arrived resolution (g.placeAt resolution o pos answer) o
      (if wlrBoxEmpty (g.layoutBox o) then some (pos.x, pos.y) else g.position o)
      (pos.x, pos.y) := by
  rw [placeAt]
  cases hempty : wlrBoxEmpty (g.layoutBox o) with
  | true =>
    obtain ⟨hpos, hscene, hbox, htiles⟩ :=
      layoutAdd_spec g o (pos.x, pos.y) answer
    rw [if_pos rfl, if_pos rfl, if_neg (by rwa [layoutAdd_server]), ← hbox]
    have htiled : (g.layoutAdd o (pos.x, pos.y) answer).Tiled o := by
      intro i hi
      rw [layoutAdd_server] at hi
      rw [hbox, htiles]
      exact h i hi
    have hsettled := settleBox_spec resolution htiled
    rwa [hpos, hscene] at hsettled
  | false =>
    rw [if_neg Bool.false_ne_true, if_neg Bool.false_ne_true, if_neg hws]
    have htiled : { g with
        scenePosition := Function.update g.scenePosition o (pos.x, pos.y) }.Tiled o := h
    have hsettled := settleBox_spec resolution htiled
    have hscene : Function.update g.scenePosition o (pos.x, pos.y) o = (pos.x, pos.y) :=
      Function.update_self ..
    exact { hsettled with scenePosition := hsettled.scenePosition.trans hscene }

theorem wlrLayoutBox_of_position (h : g.position o = some place) :
    g.wlrLayoutBox resolution o = ⟨place.1, place.2, (size resolution (g.monitor o).committed).1,
      (size resolution (g.monitor o).committed).2⟩ := by
  rw [wlrLayoutBox, h]

/-- A place is found for an output that has none. -/
theorem placeAuto_spec (resolution : OutputMode → ℤ → CFloat → ℤ × ℤ) (g : GeometryServer) (o : ℕ)
    (answer : GeometryAnswer) :
    Placing g (g.placeAuto resolution o answer) o ∧
      (g.placeAuto resolution o answer).tiles = g.tiles ∧
      (g.placeAuto resolution o answer).layoutBox o =
        (g.placeAuto resolution o answer).wlrLayoutBox resolution o ∧
      (g.placeAuto resolution o answer).position o ≠ none := by
  have hposition : Placing g
      { g with position := Function.update g.position o (some answer.auto) } o :=
    ⟨rfl, fun _ hp => ⟨rfl, Function.update_of_ne hp .., rfl, rfl, .inl rfl⟩, rfl, rfl⟩
  have hwlr : wlrLayoutBox resolution
      { g with position := Function.update g.position o (some answer.auto) } o = _ :=
    wlrLayoutBox_of_position (Function.update_self ..)
  rw [placeAuto, hwlr]
  have hplacing : Placing g
      (setLayoutBox { g with position := Function.update g.position o (some answer.auto) } o
        ⟨answer.auto.1, answer.auto.2, (size resolution (g.monitor o).committed).1,
          (size resolution (g.monitor o).committed).2⟩) o := hposition.trans placing_setLayoutBox
  obtain ⟨hpos, -, hbox, htiles⟩ := layoutAdd_spec
    (setLayoutBox { g with position := Function.update g.position o (some answer.auto) } o
      ⟨answer.auto.1, answer.auto.2, (size resolution (g.monitor o).committed).1,
        (size resolution (g.monitor o).committed).2⟩) o (answer.auto.1, answer.auto.2) answer
  refine ⟨hplacing.trans placing_layoutAdd, htiles, ?_, fun hnone => ?_⟩
  · rw [wlrLayoutBox_of_position hpos, (hplacing.trans placing_layoutAdd).monitor, hbox]
    exact setLayoutBox_self
  · rw [hnone] at hpos
    cases hpos

/-! ### One configuration -/

/-- The position that was configured last for an output. -/
def configuredPos (g : GeometryServer) (o : ℕ) : Option OutputPos :=
  posSetting.lastGiven none (naming (g.cg o).name g.commands)

/-- Box and tiles of an output are those of its place in the layout. -/
structure Standing (resolution : OutputMode → ℤ → CFloat → ℤ × ℤ) (g : GeometryServer) (o : ℕ) :
    Prop where
  placed : g.position o ≠ none
  layoutBox : g.layoutBox o = g.wlrLayoutBox resolution o
  tiled : g.Tiled o

/-- The output is in layout and scene where it has been put last. -/
def At (g : GeometryServer) (o : ℕ) (place : ℤ × ℤ) : Prop :=
  g.position o = some place ∧ g.scenePosition o = place

/-- And its place is the one that was configured last, if any was. -/
structure PlacedAt (resolution : OutputMode → ℤ → CFloat → ℤ × ℤ) (g : GeometryServer) (o : ℕ) :
    Prop extends Standing resolution g o where
  pos : ∀ p, g.configuredPos o = some p → g.At o (p.x, p.y)

theorem At.unmoved (h : g.At o place) (hu : Unmoved g g' o) : g'.At o place := by
  refine ⟨hu.position.trans h.1, ?_⟩
  rcases hu.scenePosition with hsame | hfollows
  · rw [hsame, h.2]
  · rw [hfollows, h.1]
    rfl

theorem PlacedAt.unmoved (h : PlacedAt resolution g o) (hu : Unmoved g g' o)
    (hnws : g'.nws = g.nws) (hpos : g'.configuredPos o = g.configuredPos o) :
    PlacedAt resolution g' o := by
  refine ⟨⟨?_, ?_, fun i hi => ?_⟩, fun p hp => ?_⟩
  · rw [hu.position]
    exact h.placed
  · rw [hu.layoutBox, h.layoutBox, wlrLayoutBox, wlrLayoutBox, hu.position, hu.monitor]
  · rw [hnws] at hi
    rw [hu.layoutBox, hu.tiles]
    exact h.tiled i hi
  · rw [hpos] at hp
    exact (h.pos p hp).unmoved hu

/-- What an output is asked to commit that has no modes, or no position. -/
def asked (g : GeometryServer) (o : ℕ) (config : OutputConfig) : OutputState :=
  let state := g.withPreferred o config config.settings
  let mode := if config.pos.x ≠ -1 then
      some (customMode config.pos.width config.pos.height config.refreshRate)
    else state.mode
  { state with mode, enabled := some (g.staysEnabled config) }

/-- **The size stays the same**, unless the mode is committed before the box is asked
for. -/
def KeepsSize (resolution : OutputMode → ℤ → CFloat → ℤ × ℤ) (g : GeometryServer) (o : ℕ)
    (config : OutputConfig) (answer : GeometryAnswer) : Prop :=
  config.pos.x = -1 ∨ (g.monitor o).modes = [] →
    (g.monitor o).test answer.accepts (g.asked o config) = true →
      size resolution ((g.monitor o).committed.apply (g.asked o config)) =
        size resolution (g.monitor o).committed

/-- **A position is for an enabled output**, and is the one that the output has, if it has
one.  The scene output of a disabled output has been freed. -/
def KeepsPlace (g : GeometryServer) (o : ℕ) (config : OutputConfig) (answer : GeometryAnswer) :
    Prop :=
  config.pos.x ≠ -1 → (g.modeFor o config answer).2.2 = true → o ∈ g.outputs ∧
    (wlrBoxEmpty (g.layoutBox o) = false → g.position o = some (config.pos.x, config.pos.y))

/-- The last commit of `output_apply_config`. -/
def finalMonitor (g : GeometryServer) (o : ℕ) (config : OutputConfig) (answer : GeometryAnswer) :
    Monitor :=
  let set := g.modeFor o config answer
  set.1.commit answer.accepts
    { g.withPreferred o config set.2.1 with enabled := some (g.staysEnabled config) }

/-- It keeps the size that the output has when its box is asked for. -/
theorem size_finalMonitor (hsize : KeepsSize resolution g o config answer)
    (hset : (g.modeFor o config answer).2.2 = true) :
    size resolution (g.finalMonitor o config answer).committed =
      size resolution (g.modeFor o config answer).1.committed := by
  have hasked : ∀ state : OutputState, state = g.asked o config →
      (config.pos.x = -1 ∨ (g.monitor o).modes = []) →
      size resolution ((g.monitor o).commit answer.accepts state).committed =
        size resolution (g.monitor o).committed := by
    rintro state rfl hcase
    rw [Monitor.commit]
    split
    · next htest => exact hsize hcase htest
    · rfl
  rw [finalMonitor]
  by_cases hpos : config.pos.x = -1
  · have hmode : g.modeFor o config answer = (g.monitor o, config.settings, true) := by
      rw [modeFor, if_neg (not_not.mpr hpos)]
    rw [hmode]
    refine hasked _ ?_ (.inl hpos)
    rw [asked, if_neg (not_not.mpr hpos)]
  · have hwith : ∀ state, g.withPreferred o config state = state := fun state => by
      rw [withPreferred, if_neg (fun h => hpos h.1)]
    have hmode : g.modeFor o config answer = outputSetMode (g.monitor o) answer.accepts
        config.settings config.pos.width config.pos.height config.refreshRate := by
      rw [modeFor, if_pos hpos]
    dsimp only
    rw [hwith]
    by_cases hnil : (g.monitor o).modes = []
    · rw [hmode, outputSetMode_spec.1 hnil]
      refine hasked _ ?_ (.inr hnil)
      rw [asked, hwith, if_pos hpos]
    · rw [hmode] at hset ⊢
      exact (outputSetMode_spec.2 hnil hset).size_commit

/-- The last commit, with the lists that the server has then. -/
theorem setMonitor_spec (g : GeometryServer) (o : ℕ) (m : Monitor) (answer : GeometryAnswer)
    (s : OutputServer) :
    let g' := { g with toOutputServer := s }.setMonitor o m answer
    g'.toOutputServer = s ∧ g'.monitor o = m ∧ g'.position = g.position ∧
      g'.layoutBox = g.layoutBox ∧ g'.tiles = g.tiles ∧ g'.commands = g.commands ∧
      ∀ place, g.At o place → g'.At o place := by
  have hself : Function.update g.monitor o m o = m := Function.update_self ..
  intro g'
  refine ⟨setMonitor_server, ?_⟩
  show (announce _ _).monitor o = m ∧ _
  rw [show g' = announce _ answer from rfl]
  rw [announce]
  split
  · refine ⟨hself, rfl, rfl, rfl, rfl, fun place hp => ⟨hp.1, ?_⟩⟩
    show (g.position o).getD (g.scenePosition o) = place
    rw [hp.1]
    rfl
  · exact ⟨hself, rfl, rfl, rfl, rfl, fun place hp => hp⟩

/-- What the middle part does to other outputs, and to the mode. -/
structure Arranged (g g₁ : GeometryServer) (o : ℕ) (config : OutputConfig)
    (answer : GeometryAnswer) : Prop where
  server : g₁.toOutputServer = g.toOutputServer
  commands : g₁.commands = g.commands
  others : ∀ p, p ≠ o → Unmoved g g₁ p
  monitor : g₁.monitor o = (g.modeFor o config answer).1

theorem arranged (resolution : OutputMode → ℤ → CFloat → ℤ × ℤ) (g : GeometryServer) (o : ℕ)
    (config : OutputConfig) (answer : GeometryAnswer) :
    Arranged g (g.arrange resolution o config answer) o config answer := by
  rw [arrange]
  split
  · obtain ⟨-, hm, -, -, -, hcommands, -⟩ := setMonitor_spec g o
      (g.modeFor o config answer).1 answer g.toOutputServer
    have hplacing := placing_placeAt resolution
      (g.setMonitor o (g.modeFor o config answer).1 answer) o config.pos answer
    refine ⟨?_, ?_, fun p hp => ?_, ?_⟩
    · rw [hplacing.server, setMonitor_server]
    · rw [hplacing.commands]
      exact hcommands
    · exact (unmoved_setMonitor hp).trans (hplacing.others p hp)
    · rw [hplacing.monitor]
      exact hm
  · next hpos =>
    have hmode : (g.modeFor o config answer).1 = g.monitor o := by
      rw [modeFor, if_neg hpos]
    split
    · obtain ⟨hplacing, -, -⟩ :=
        placeAuto_spec resolution g o answer
      refine ⟨hplacing.server, hplacing.commands, hplacing.others, ?_⟩
      rw [hplacing.monitor, hmode]
    · exact ⟨rfl, rfl, fun p _ => .refl g p, hmode.symm⟩

theorem wlrLayoutBox_size (resolution : OutputMode → ℤ → CFloat → ℤ × ℤ) (h : g.position o ≠ none) :
    (g.wlrLayoutBox resolution o).width = (size resolution (g.monitor o).committed).1 ∧
      (g.wlrLayoutBox resolution o).height = (size resolution (g.monitor o).committed).2 := by
  obtain ⟨place, hplace⟩ := Option.ne_none_iff_exists'.mp h
  rw [wlrLayoutBox_of_position hplace]
  exact ⟨rfl, rfl⟩

/-- **The middle part** puts an output where its configuration says. -/
theorem arrange_spec (h : Standing resolution g o) (hws : (g.cg o).workspaces ≠ none)
    (hset : (g.modeFor o config answer).2.2 = true) (hplace : g.KeepsPlace o config answer) :
    Standing resolution (g.arrange resolution o config answer) o ∧
      (config.pos.x ≠ -1 →
        (g.arrange resolution o config answer).At o (config.pos.x, config.pos.y)) := by
  rw [arrange]
  split
  · next hpos =>
    obtain ⟨-, -, hposition, hbox, htiles, -, -⟩ := setMonitor_spec g o
      (g.modeFor o config answer).1 answer g.toOutputServer
    have htiled : (g.setMonitor o (g.modeFor o config answer).1 answer).Tiled o := by
      intro i hi
      rw [setMonitor_server] at hi
      rw [hbox, htiles]
      exact h.tiled i hi
    have harrived := placeAt_spec resolution config.pos answer htiled (by rwa [setMonitor_server])
    have hplaced : (if wlrBoxEmpty (g.layoutBox o) then some (config.pos.x, config.pos.y)
        else g.position o) = some (config.pos.x, config.pos.y) := by
      cases hempty : wlrBoxEmpty (g.layoutBox o) with
      | true => rfl
      | false => exact (hplace hpos hset).2 hempty
    have hat := harrived.position
    rw [congrFun hbox o, hposition, hplaced] at hat
    refine ⟨⟨?_, harrived.layoutBox, harrived.tiled⟩, fun _ => ⟨hat, harrived.scenePosition⟩⟩
    rw [hat]
    exact Option.some_ne_none _
  · next hpos =>
    split
    · -- the box has no points, and the output gets a place
      obtain ⟨hplacing, htiles, hbox, hplaced⟩ :=
        placeAuto_spec resolution g o answer
      refine ⟨⟨hplaced, hbox, fun i hi => ?_⟩, fun hne => absurd hne hpos⟩
      have hsize := wlrLayoutBox_size resolution hplaced
      have hsize' := wlrLayoutBox_size resolution h.placed
      rw [← hbox, hplacing.monitor] at hsize
      rw [← h.layoutBox] at hsize'
      rw [hplacing.server] at hi
      rw [hsize.1, hsize.2, ← hsize'.1, ← hsize'.2, htiles]
      exact h.tiled i hi
    · exact ⟨h, fun hne => absurd hne hpos⟩

/-- **An output stands after it has been configured** as it has stood before. -/
theorem Standing.configured (h : Standing resolution g o) (hws : (g.cg o).workspaces ≠ none)
    (hset : (g.modeFor o config answer).2.2 = true)
    (hsize : KeepsSize resolution g o config answer) (hplace : g.KeepsPlace o config answer)
    {s : OutputServer} (hnws : s.nws = g.nws) :
    let g' := { g.arrange resolution o config answer with toOutputServer := s }.setMonitor o
      (g.finalMonitor o config answer) answer
    Standing resolution g' o ∧
      (config.pos.x ≠ -1 → g'.At o (config.pos.x, config.pos.y)) := by
  have harr := arranged resolution g o config answer
  obtain ⟨hstanding, hat⟩ := arrange_spec h hws hset hplace
  obtain ⟨hserver, hm, hpos, hbox, htiles, -, hkeeps⟩ :=
    setMonitor_spec (g.arrange resolution o config answer) o (g.finalMonitor o config answer)
      answer s
  refine ⟨⟨?_, ?_, fun i hi => ?_⟩, fun hne => hkeeps _ (hat hne)⟩
  · rw [hpos]
    exact hstanding.placed
  · rw [hbox, hstanding.layoutBox, wlrLayoutBox, wlrLayoutBox, hpos, hm,
      size_finalMonitor hsize hset, harr.monitor]
  · rw [hserver, hnws] at hi
    rw [hbox, htiles]
    refine hstanding.tiled i ?_
    rwa [harr.server]

/-- **`output_apply_config`** for an output that has a monitor. -/
theorem outputApplyConfig_spec (hd : (g.cg o).destroyed = false) (hl : g.live o = true) :
    Meets (g.outputApplyConfig resolution o config answer) (fun _ => True) fun g' =>
      ∃ ans : OutputAnswer, ans.modeSet = (g.modeFor o config answer).2.2 ∧
        OutputServer.Configured g.toOutputServer o config ans g'.toOutputServer ∧
        ((g.modeFor o config answer).2.2 = false →
          ∃ m, g' = { g with toOutputServer := g'.toOutputServer }.setMonitor o m answer) ∧
        ((g.modeFor o config answer).2.2 = true →
          g' = { g.arrange resolution o config answer with
            toOutputServer := g'.toOutputServer }.setMonitor o (g.finalMonitor o config answer)
              answer) := by
  rw [outputApplyConfig, if_neg (by simp [hd])]
  dsimp only
  refine Meets.ite (fun hset => ?_) fun hset => Meets.ite (fun _ => Meets.error trivial) fun _ => ?_
  · have hset' : (g.modeFor o config answer).2.2 = false := by simpa using hset
    refine Meets.bind ((OutputServer.outputApplyConfig_spec hl).mono (fun _ _ => trivial)
      fun _ hs => hs) fun s hs => Meets.ok ⟨⟨false, false, false⟩, hset'.symm, ?_, fun _ => ?_,
        fun h => ?_⟩
    · rw [setMonitor_server]
      exact hs
    · rw [setMonitor_server]
      exact ⟨_, rfl⟩
    · rw [hset'] at h
      cases h
  · have hset' : (g.modeFor o config answer).2.2 = true := by simpa using hset
    generalize hans : boxAnswer _ _ = ans
    have hmode : ans.modeSet = true := by rw [← hans, boxAnswer]
    refine Meets.bind ((OutputServer.outputApplyConfig_spec hl).mono (fun _ _ => trivial)
      fun _ hs => hs) fun s hs => Meets.ok ⟨ans, hmode.trans hset'.symm, ?_, fun h => ?_,
        fun _ => ?_⟩
    · rw [setMonitor_server]
      exact hs
    · rw [hset'] at h
      cases h
    · rw [setMonitor_server]
      rfl

/-- The middle part for a new output, which has no workspaces yet. -/
theorem arrange_new (resolution : OutputMode → ℤ → CFloat → ℤ × ℤ) (config : OutputConfig)
    (answer : GeometryAnswer) (hws : (g.cg o).workspaces = none)
    (hempty : wlrBoxEmpty (g.layoutBox o) = true) :
    (g.arrange resolution o config answer).position o ≠ none ∧
      (config.pos.x ≠ -1 →
        (g.arrange resolution o config answer).At o (config.pos.x, config.pos.y)) := by
  rw [arrange]
  split
  · obtain ⟨-, -, -, hbox, -, -, -⟩ := setMonitor_spec g o
      (g.modeFor o config answer).1 answer g.toOutputServer
    obtain ⟨hpos, hscene, -⟩ := layoutAdd_spec
      (g.setMonitor o (g.modeFor o config answer).1 answer) o (config.pos.x, config.pos.y) answer
    have hempty' : wlrBoxEmpty ((g.setMonitor o (g.modeFor o config answer).1 answer).layoutBox o) =
        true := by
      rw [congrFun hbox o]
      exact hempty
    rw [placeAt, if_pos hempty', if_pos (by rwa [layoutAdd_server, setMonitor_server])]
    refine ⟨?_, fun _ => ⟨hpos, hscene⟩⟩
    rw [hpos]
    exact Option.some_ne_none _
  · next hpos =>
    exact ⟨(placeAuto_spec resolution _ o answer).2.2.2, fun hne => absurd hne hpos⟩

/-! ### What has been configured -/

/-- What an output is configured with is the position that was given last. -/
theorem totalConfig_position (cs : List OutputConfig) (name : Text) :
    (totalConfig (stored cs) name).position = posSetting.lastGiven none (naming name cs) := by
  cases hd : Setting.mergeAll mergeConfig (naming name cs) with
  | none =>
    have hnil : naming name cs = [] := by
      cases hcs : naming name cs with
      | nil => rfl
      | cons c l =>
        rw [hcs] at hd
        cases hd
    rw [totalConfig_eq_foldl, naming_stored, hd, hnil]
    rfl
  | some d =>
    have hstored : naming name (stored cs) = [d] := by
      rw [naming_stored, hd]
      rfl
    rw [(totalConfig_stored hstored).position]
    exact posSetting_overrides.get_mergeAll (fun _ => posSetting_isSet.mp) hd

theorem position_eq_some {p : OutputPos} (h : config.position = some p) :
    config.pos.x ≠ -1 ∧ config.pos = p := by
  rw [OutputConfig.position] at h
  split at h
  · cases h
  · next hpos => exact ⟨hpos, Option.some.inj h⟩

theorem position_eq_none (h : config.pos.x = -1) : config.position = none := by
  rw [OutputConfig.position, if_pos h]

/-- A command is about the outputs of its name only. -/
theorem naming_concat_of_ne {cs : List OutputConfig} {cfg : OutputConfig}
    (h : cfg.outputName ≠ some name) : naming name (cs ++ [cfg]) = naming name cs := by
  rw [naming, List.filter_append, List.filter_singleton]
  simp [h, naming]

/-- A position that was configured stays configured. -/
theorem lastGiven_position_none {cs : List OutputConfig} {cfg : OutputConfig}
    (h : posSetting.lastGiven none (naming name (cs ++ [cfg])) = none) :
    posSetting.lastGiven none (naming name cs) = none := by
  by_cases hname : cfg.outputName = some name
  · have hconcat : naming name (cs ++ [cfg]) = naming name cs ++ [cfg] := by simp [naming, hname]
    rw [hconcat, Setting.lastGiven_concat] at h
    split at h
    · next hset =>
      have hnot := posSetting_isSet.mpr h
      rw [hset] at hnot
      cases hnot
    · exact h
  · rwa [naming_concat_of_ne hname] at h

/-- **What the commands must not do**: move an output, or change its size when its tiles have
been made.  A new monitor has a name of its own, which the backend promises. -/
def KeepsGeometry (resolution : OutputMode → ℤ → CFloat → ℤ × ℤ) (g : GeometryServer) :
    GeometryEvent → Prop
  | .plug name _ _ => ∀ p ∈ g.outputs ++ g.disabledOutputs, (g.cg p).name ≠ name
  | .configure cfg answer => ∀ o ∈ g.named cfg.outputName,
    let config := totalConfig (storeConfig g.outputConfig cfg) (g.cg o).name
    KeepsSize resolution g o config answer ∧ g.KeepsPlace o config answer
  | .tiles .. => True

/-- The lists, the names and the stored commands are in order, and no monitor is away. -/
structure Registered (g : GeometryServer) : Prop where
  listed : g.toOutputServer.Listed
  distinct : g.toOutputServer.Distinct
  running : g.running = true
  attached : ∀ o, g.live o = true → (g.cg o).destroyed = false
  recorded : g.outputConfig = stored g.commands

/-- So are the places and the sizes.  An output that has been disabled may have been
configured since then. -/
structure Settled (resolution : OutputMode → ℤ → CFloat → ℤ × ℤ) (g : GeometryServer) :
    Prop extends Registered g where
  arrays : ∀ o, g.live o = true → (g.cg o).workspaces ≠ none
  placed : ∀ o, g.live o = true → o ∈ g.outputs ∨ g.configuredPos o = none →
    PlacedAt resolution g o

end GeometryServer

namespace OutputServer

variable {s s' : OutputServer} {o : ℕ} {config : OutputConfig} {ans : OutputAnswer}

/-- An output whose mode is refused is disabled. -/
theorem Configured.refused (hc : Configured s o config ans s') (hs : s.Listed)
    (hd : (s.cg o).destroyed = false) (hpos : config.pos.x ≠ -1) (hans : ans.modeSet = false) :
    o ∉ s'.outputs := by
  cases hc with
  | destroyed hrole hd' hdest =>
    rw [hd] at hd'
    cases hd'
  | failed hdest hpos hmode c hc => exact fun ho => (hs.outputs.mem_erase_iff.mp ho).1 rfl
  | disabled hstatus hlen c hc hdest hmode => exact absurd ⟨hpos, hans⟩ hmode
  | kept hdest hlen hmode => exact absurd ⟨hpos, hans⟩ hmode

/-- No output in use has the name. -/
theorem named_eq_none {n : Option Text} (h : s.named n = none) (hs : s.Listed)
    (hl : s.live o = true) : n ≠ some (s.cg o).name := by
  rintro rfl
  rw [named, Option.or_eq_none_iff, List.find?_eq_none, List.find?_eq_none] at h
  rcases (hs.live_iff o).mp hl with ho | ho
  · exact h.1 o ho (by simp)
  · exact h.2 o ho (by simp)

end OutputServer

namespace GeometryServer

variable {resolution : OutputMode → ℤ → CFloat → ℤ × ℤ} {g g' : GeometryServer} {o p : ℕ}
  {config : OutputConfig} {answer : GeometryAnswer} {ans : OutputAnswer} {name : Text}
  {m : Monitor} {cfg : OutputConfig} {e : GeometryEvent}

theorem unmoved_server {s : OutputServer} : Unmoved g { g with toOutputServer := s } p :=
  ⟨rfl, rfl, rfl, rfl, .inl rfl⟩

/-- The server after an `output` command has been stored. -/
def noted (g : GeometryServer) (cfg : OutputConfig) : GeometryServer :=
  { g with
    toOutputServer := g.recorded cfg
    commands := g.commands ++ [cfg] }

theorem Registered.noted (h : g.Registered) : (g.noted cfg).Registered where
  listed := h.listed.congr rfl rfl rfl le_rfl h.listed.nws
  distinct := h.distinct.congr rfl fun _ => rfl
  running := h.running
  attached := h.attached
  recorded := by
    show storeConfig g.outputConfig cfg = stored (g.commands ++ [cfg])
    rw [h.recorded, stored, stored, List.foldl_concat]

theorem noted_configuredPos (h : cfg.outputName ≠ some (g.cg p).name) :
    (g.noted cfg).configuredPos p = g.configuredPos p := by
  show posSetting.lastGiven none (naming (g.cg p).name (g.commands ++ [cfg])) = _
  rw [naming_concat_of_ne h]
  rfl

/-- The position that an output is configured with. -/
theorem Registered.totalConfig_position (h : g.Registered) :
    (totalConfig g.outputConfig (g.cg o).name).position = g.configuredPos o := by
  rw [h.recorded]
  exact GeometryServer.totalConfig_position ..

/-! ### One output is configured -/

/-- What a configuration does: the other outputs are left where they are. -/
structure Reconfigured (g g' : GeometryServer) (o : ℕ) (config : OutputConfig)
    (ans : OutputAnswer) : Prop where
  configured : OutputServer.Configured g.toOutputServer o config ans g'.toOutputServer
  commands : g'.commands = g.commands
  others : ∀ p, p ≠ o → Unmoved g g' p

/-- The output itself is arranged if a mode has been found. -/
structure Applied (resolution : OutputMode → ℤ → CFloat → ℤ × ℤ) (g g' : GeometryServer) (o : ℕ)
    (config : OutputConfig) (answer : GeometryAnswer) (ans : OutputAnswer) : Prop
    extends Reconfigured g g' o config ans where
  modeSet : ans.modeSet = (g.modeFor o config answer).2.2
  arranged : (g.modeFor o config answer).2.2 = true →
    g' = { g.arrange resolution o config answer with
      toOutputServer := g'.toOutputServer }.setMonitor o (g.finalMonitor o config answer) answer

theorem outputApplyConfig_applied (hd : (g.cg o).destroyed = false) (hl : g.live o = true) :
    Meets (g.outputApplyConfig resolution o config answer) (fun _ => True) fun g' =>
      ∃ ans, Applied resolution g g' o config answer ans := by
  refine (outputApplyConfig_spec hd hl).mono (fun _ _ => trivial) ?_
  rintro g' ⟨ans, hans, hc, hrefused, hset⟩
  refine ⟨ans, ?_, hans, hset⟩
  cases hmode : (g.modeFor o config answer).2.2 with
  | false =>
    obtain ⟨m, hm⟩ := hrefused hmode
    refine ⟨hc, ?_, fun p hp => ?_⟩
    · rw [hm]
      exact (setMonitor_spec _ o m answer _).2.2.2.2.2.1
    · rw [hm]
      exact unmoved_server.trans (unmoved_setMonitor hp)
  | true =>
    have harr := arranged resolution g o config answer
    refine ⟨hc, ?_, fun p hp => ?_⟩
    · rw [hset hmode]
      exact (setMonitor_spec _ o _ answer _).2.2.2.2.2.1.trans harr.commands
    · rw [hset hmode]
      exact (harr.others p hp).trans (unmoved_server.trans (unmoved_setMonitor hp))

theorem Registered.reconfigured (h : g.Registered) (hl : g.live o = true)
    (hr : Reconfigured g g' o config ans) : g'.Registered := by
  have halters := hr.configured.alters h.listed
  obtain ⟨hlive, hrun, -⟩ := OutputServer.configured_same (h.attached o hl) hr.configured
  refine ⟨h.listed.configured hl hr.configured, h.distinct.alter halters hl hr.configured.same_name,
    hrun.trans h.running, fun p hp => ?_, ?_⟩
  · rw [hlive] at hp
    by_cases hpo : p = o
    · rw [hpo]
      exact OutputServer.configured_destroyed (h.attached o hl) hr.configured
    · rw [halters.cg p hpo]
      exact h.attached p hp
  · rw [halters.outputConfig, hr.commands]
    exact h.recorded

theorem Reconfigured.configuredPos (hr : Reconfigured g g' o config ans) (h : g.Registered)
    (p : ℕ) : g'.configuredPos p = g.configuredPos p := by
  have hname : (g'.cg p).name = (g.cg p).name := by
    by_cases hpo : p = o
    · rw [hpo]
      exact hr.configured.same_name
    · rw [(hr.configured.alters h.listed).cg p hpo]
  rw [GeometryServer.configuredPos, GeometryServer.configuredPos, hname, hr.commands]

theorem modeFor_of_neg (hx : config.pos.x = -1) : (g.modeFor o config answer).2.2 = true := by
  rw [modeFor, if_neg (not_not.mpr hx)]

/-- **An output that was in place** still is. -/
theorem Applied.placed (ha : Applied resolution g g' o config answer ans) (h : g.Registered)
    (hl : g.live o = true) (hws : (g.cg o).workspaces ≠ none)
    (htotal : config.position = g.configuredPos o)
    (hsize : KeepsSize resolution g o config answer) (hplace : g.KeepsPlace o config answer)
    (hstands : o ∈ g.outputs ∨ g.configuredPos o = none → Standing resolution g o)
    (hcase : o ∈ g'.outputs ∨ g'.configuredPos o = none) : PlacedAt resolution g' o := by
  have hpos := ha.toReconfigured.configuredPos h o
  rw [hpos] at hcase
  have hset : (g.modeFor o config answer).2.2 = true := by
    by_contra hfalse
    have hmode := Bool.eq_false_of_not_eq_true hfalse
    have hx : config.pos.x ≠ -1 := fun hx => hfalse (modeFor_of_neg hx)
    have hout := ha.configured.refused h.listed (h.attached o hl) hx (ha.modeSet.trans hmode)
    have hnone := htotal.trans (hcase.resolve_left hout)
    rw [OutputConfig.position, if_neg hx] at hnone
    cases hnone
  have hold : o ∈ g.outputs ∨ g.configuredPos o = none := by
    by_cases hx : config.pos.x = -1
    · exact .inr (htotal.symm.trans (position_eq_none hx))
    · exact .inl (hplace hx hset).1
  obtain ⟨hstanding, hat⟩ := (hstands hold).configured hws hset hsize hplace
    ha.configured.keepsArrays.same.nws
  rw [← ha.arranged hset] at hstanding hat
  refine ⟨hstanding, fun q hq => ?_⟩
  obtain ⟨hx, hq'⟩ := position_eq_some (htotal.trans (hpos.symm.trans hq))
  rw [← hq']
  exact hat hx

/-- **An `output` command** that keeps places and sizes. -/
theorem configure_settled (h : Settled resolution g)
    (hk : g.KeepsGeometry resolution (.configure cfg answer)) :
    Meets (g.keybindingConfigureOutput resolution cfg answer) (fun _ => True)
      (Settled resolution) := by
  have hnoted : (g.noted cfg).Registered := h.toRegistered.noted
  have hunmoved : ∀ p, Unmoved g (g.noted cfg) p := fun p => ⟨rfl, rfl, rfl, rfl, .inl rfl⟩
  show Meets (match g.named cfg.outputName with
    | some o => (g.noted cfg).outputConfigure resolution o answer
    | none => .ok (g.noted cfg)) _ _
  cases ho : g.named cfg.outputName with
  | none =>
    refine Meets.ok ⟨hnoted, h.arrays, fun p hp hcase => ?_⟩
    have hpos := noted_configuredPos (OutputServer.named_eq_none ho h.listed hp)
    rw [hpos] at hcase
    exact (h.placed p hp hcase).unmoved (hunmoved p) rfl hpos
  | some o =>
    obtain ⟨hmem, hname⟩ := OutputServer.named_mem ho
    have hl : g.live o = true := (h.listed.live_iff o).mpr hmem
    obtain ⟨hsize, hplace⟩ := hk o ho
    refine (outputApplyConfig_applied (hnoted.attached o hl) hl).mono (fun _ _ => trivial) ?_
    rintro g' ⟨ans, ha⟩
    have halters := ha.configured.alters hnoted.listed
    have hlive := (OutputServer.configured_same (hnoted.attached o hl) ha.configured).1
    have harrays := ha.configured.keepsArrays.same
    refine ⟨hnoted.reconfigured hl ha.toReconfigured, fun p hp => ?_, fun p hp hcase => ?_⟩
    · rw [hlive] at hp
      rw [harrays.workspaces]
      exact h.arrays p hp
    · rw [hlive] at hp
      by_cases hpo : p = o
      · subst hpo
        refine ha.placed hnoted hl (h.arrays p hl) hnoted.totalConfig_position hsize hplace
          (fun hold => ?_) hcase
        have hplaced := h.placed p hl (hold.imp_right lastGiven_position_none)
        exact ⟨hplaced.placed, hplaced.layoutBox, hplaced.tiled⟩
      · have hne : cfg.outputName ≠ some (g.cg p).name := by
          rw [← hname]
          intro hpn
          exact hpo (h.distinct p o hp hl (Option.some.inj hpn).symm)
        have hpos := ha.toReconfigured.configuredPos hnoted p
        rw [hpos, noted_configuredPos hne] at hcase
        have hplaced := h.placed p hp (hcase.imp_left (halters.outputs p hpo).mp)
        exact (hplaced.unmoved (hunmoved p) rfl (noted_configuredPos hne)).unmoved
          (ha.others p hpo) harrays.nws hpos

/-! ### A new output -/

/-- The workspaces of a new output fill it. -/
theorem createWorkspaces_spec (resolution : OutputMode → ℤ → CFloat → ℤ × ℤ)
    (h : g.hasSceneOutput o = true) :
    (g.createWorkspaces resolution o).toOutputServer = g.toOutputServer.createWorkspaces o ∧
      (g.createWorkspaces resolution o).commands = g.commands ∧
      (∀ p, p ≠ o → Unmoved g (g.createWorkspaces resolution o) p) ∧
      Arrived resolution (g.createWorkspaces resolution o) o (g.position o)
        (g.scenePosition o) := by
  have hbox : (setLayoutBox { g with toOutputServer := g.toOutputServer.createWorkspaces o } o
      (g.wlrLayoutBox resolution o)).layoutBox o = wlrLayoutBox resolution (setLayoutBox
        { g with toOutputServer := g.toOutputServer.createWorkspaces o } o
        (g.wlrLayoutBox resolution o)) o := setLayoutBox_self
  have harrived := fullScreenWorkspaces_spec hbox
  obtain ⟨ring, hring, -⟩ := fullScreenWorkspaces_eq hbox
  rw [createWorkspaces, if_pos h]
  refine ⟨?_, ?_, fun p hp => ?_, harrived⟩
  · rw [hring]
    rfl
  · rw [hring]
    rfl
  · rw [hring]
    exact unmoved_server.trans ((placing_setLayoutBox.trans placing_tiles).others p hp)

theorem Registered.createWorkspaces (h : g.Registered) (hscene : g.hasSceneOutput o = true) :
    (g.createWorkspaces resolution o).Registered := by
  obtain ⟨hserver, hcommands, -⟩ := createWorkspaces_spec resolution hscene
  have hlive := (OutputServer.createWorkspaces_same (s := g.toOutputServer) (o := o)).2.2.1
  have halters := OutputServer.alters_createWorkspaces (s := g.toOutputServer) (o := o)
  refine ⟨?_, ?_, ?_, fun p hp => ?_, ?_⟩
  · rw [hserver]
    exact h.listed.createWorkspaces
  · rw [hserver]
    exact h.distinct.congr hlive fun p => OutputServer.createWorkspaces_field fun _ _ _ => rfl
  · rw [hserver, OutputServer.createWorkspaces, if_pos hscene]
    exact h.running
  · rw [hserver] at hp ⊢
    rw [hlive] at hp
    have hsame : ((g.toOutputServer.createWorkspaces o).cg p).destroyed = (g.cg p).destroyed :=
      OutputServer.createWorkspaces_field fun _ _ _ => rfl
    rw [hsame]
    exact h.attached p hp
  · rw [hserver, halters.outputConfig, hcommands]
    exact h.recorded

theorem Registered.added (h : g.Registered) (hfresh : ∀ p, g.live p = true → (g.cg p).name ≠ name) :
    (g.added name m answer).Registered where
  listed := h.listed.added
  distinct := h.distinct.added hfresh
  running := h.running
  attached p hp := by
    show ((g.toOutputServer.added name).cg p).destroyed = false
    by_cases hpo : p = g.top
    · rw [hpo, OutputServer.added_cg_self]
      rfl
    · rw [OutputServer.added_cg_of_ne hpo]
      exact h.attached p ((OutputServer.added_live_of_ne hpo).symm.trans hp)
  recorded := OutputServer.alters_added.outputConfig.trans h.recorded

theorem unmoved_added (hp : p ≠ g.top) : Unmoved g (g.added name m answer) p :=
  ⟨Function.update_of_ne hp .., Function.update_of_ne hp .., Function.update_of_ne hp .., rfl,
    .inl rfl⟩

theorem Applied.modeFor_of_not_torn (ha : Applied resolution g g' o config answer ans)
    (htorn : ¬ g.Torn o config ans) : (g.modeFor o config answer).2.2 = true := by
  by_contra hfalse
  refine htorn (.inr (.inl ⟨fun hx => hfalse (modeFor_of_neg hx), ?_⟩))
  exact ha.modeSet.trans (Bool.eq_false_of_not_eq_true hfalse)

/-- **A new output** has the place that it has been configured with. -/
theorem Applied.placed_added {g₁ : GeometryServer}
    (ha : Applied resolution (g.added name m answer) g₁ g.top config answer ans)
    (h : (g.added name m answer).Registered)
    (htotal : config.position = (g.added name m answer).configuredPos g.top)
    (hset : ((g.added name m answer).modeFor g.top config answer).2.2 = true)
    (hscene : g₁.hasSceneOutput g.top = true) :
    PlacedAt resolution (g₁.createWorkspaces resolution g.top) g.top := by
  have hws : ((g.added name m answer).cg g.top).workspaces = none := by
    show ((g.toOutputServer.added name).cg g.top).workspaces = none
    rw [OutputServer.added_cg_self]
    rfl
  have hempty : wlrBoxEmpty ((g.added name m answer).layoutBox g.top) = true := by
    rw [show (g.added name m answer).layoutBox g.top = ⟨0, 0, 0, 0⟩ from Function.update_self ..]
    rfl
  obtain ⟨hplaced, hat⟩ := arrange_new resolution config answer hws hempty
  obtain ⟨hserver, hcommands, -, harrived⟩ := createWorkspaces_spec resolution hscene
  obtain ⟨-, -, hposition, -, -, -, hkeeps⟩ :=
    setMonitor_spec ((g.added name m answer).arrange resolution g.top config answer) g.top
      ((g.added name m answer).finalMonitor g.top config answer) answer g₁.toOutputServer
  rw [← ha.arranged hset] at hposition hkeeps
  have hpos : (g₁.createWorkspaces resolution g.top).configuredPos g.top =
      g₁.configuredPos g.top := by
    have hname : ((g₁.toOutputServer.createWorkspaces g.top).cg g.top).name =
      (g₁.cg g.top).name := OutputServer.createWorkspaces_field fun _ _ _ => rfl
    rw [configuredPos, configuredPos, hserver, hname, hcommands]
  refine ⟨⟨?_, harrived.layoutBox, harrived.tiled⟩, fun q hq => ?_⟩
  · rw [harrived.position, hposition]
    exact hplaced
  · rw [hpos, ha.toReconfigured.configuredPos h, ← htotal] at hq
    obtain ⟨hx, hq'⟩ := position_eq_some hq
    obtain ⟨hlayout, hscenePosition⟩ := hkeeps _ (hat hx)
    rw [← hq']
    exact ⟨harrived.position.trans hlayout, harrived.scenePosition.trans hscenePosition⟩

/-- **A new monitor** whose name no output has. -/
theorem plug_settled (h : Settled resolution g)
    (hk : g.KeepsGeometry resolution (.plug name m answer)) :
    Meets (g.handleNewOutput resolution name m answer) (fun _ => True)
      (Settled resolution) := by
  have hfresh : ∀ p, g.live p = true → (g.cg p).name ≠ name := fun p hp =>
    hk p (List.mem_append.mpr ((h.listed.live_iff p).mp hp))
  have hadded : (g.added name m answer).Registered := h.toRegistered.added hfresh
  have hl : (g.added name m answer).live g.top = true := OutputServer.added_live_self
  refine Meets.bind (outputApplyConfig_applied (hadded.attached g.top hl) hl) ?_
  rintro g₁ ⟨ans, ha⟩
  -- the mode is not refused, since `output_clear` would not return then
  have htorn := OutputServer.not_fails_added h.listed h.running ha.configured
  have hscene := OutputServer.hasSceneOutput_added htorn ha.configured
  have hregistered := hadded.reconfigured hl ha.toReconfigured
  obtain ⟨hserver, hcommands, hothers, -⟩ := createWorkspaces_spec resolution hscene
  obtain ⟨-, -, hlive', -, hnws⟩ :=
    OutputServer.createWorkspaces_same (s := g₁.toOutputServer) (o := g.top)
  have hlive := (OutputServer.configured_same (hadded.attached g.top hl) ha.configured).1
  have halters := ha.configured.alters hadded.listed
  have hcreate := OutputServer.alters_createWorkspaces (s := g₁.toOutputServer) (o := g.top)
  have hold : ∀ p, p ≠ g.top → (g₁.toOutputServer.createWorkspaces g.top).live p = true →
      g.live p = true := by
    intro p hp hlp
    rw [hlive', hlive] at hlp
    exact (OutputServer.added_live_of_ne hp).symm.trans hlp
  have hcg : ∀ p, p ≠ g.top → (g₁.toOutputServer.createWorkspaces g.top).cg p = g.cg p := by
    intro p hp
    rw [hcreate.cg p hp, halters.cg p hp]
    exact OutputServer.added_cg_of_ne hp
  refine Meets.ok ⟨hregistered.createWorkspaces hscene, fun p hp => ?_, fun p hp hcase => ?_⟩
  · rw [hserver] at hp ⊢
    by_cases hpo : p = g.top
    · rw [hpo, (OutputServer.createWorkspaces_cg_self hscene).1]
      exact Option.some_ne_none _
    · rw [hcg p hpo]
      exact h.arrays p (hold p hpo hp)
  · by_cases hpo : p = g.top
    · rw [hpo]
      exact ha.placed_added hadded hadded.totalConfig_position (ha.modeFor_of_not_torn htorn) hscene
    · have hpos : (g₁.createWorkspaces resolution g.top).configuredPos p = g.configuredPos p := by
        rw [configuredPos, configuredPos, hserver, hcg p hpo, hcommands, ha.commands]
        rfl
      have hlists : p ∈ (g₁.toOutputServer.createWorkspaces g.top).outputs ↔ p ∈ g.outputs :=
        (hcreate.outputs p hpo).trans ((halters.outputs p hpo).trans
          (OutputServer.alters_added.outputs p hpo))
      rw [hserver] at hp hcase
      rw [hpos] at hcase
      have hplaced := h.placed p (hold p hpo hp) (hcase.imp_left hlists.mp)
      refine hplaced.unmoved ((unmoved_added hpo).trans ((ha.others p hpo).trans (hothers p hpo)))
        ?_ hpos
      rw [hserver, hnws, ha.configured.keepsArrays.same.nws]
      rfl

/-! ### Every event -/

/-- Commands for tiles leave the points that the tiles cover. -/
theorem tiles_settled (h : Settled resolution g) {i : ℕ} {change : Retiling} :
    Settled resolution (g.setTiles o i (change.apply (g.tiles o i))) := by
  refine ⟨⟨h.listed, h.distinct, h.running, h.attached, h.recorded⟩, h.arrays,
    fun p hp hcase => ?_⟩
  have hplaced := h.placed p hp hcase
  refine ⟨⟨hplaced.placed, hplaced.layoutBox, fun j hj => ?_⟩, hplaced.pos⟩
  have htiled := hplaced.tiled j hj
  by_cases hpo : p = o
  · subst hpo
    rw [setTiles_tiles_self]
    by_cases hji : j = i
    · subst hji
      rw [Function.update_self]
      exact change.covered _ _ htiled
    · rwa [Function.update_of_ne hji]
  · rwa [show (g.setTiles o i (change.apply (g.tiles o i))).tiles p = g.tiles p from
      Function.update_of_ne hpo ..]

/-- **The step lemma.** -/
theorem step_settled (h : Settled resolution g) (hk : g.KeepsGeometry resolution e) :
    Meets (g.step resolution e) (fun _ => True) (Settled resolution) := by
  cases e with
  | plug name m answer => exact plug_settled h hk
  | configure cfg answer => exact configure_settled h hk
  | tiles o i change => exact Meets.ok (tiles_settled h)

theorem init_settled {prios : List (Text × ℤ)} {nws : ℕ} (h : 0 < nws) :
    Settled resolution (init prios nws) where
  listed := { OutputServer.init_listed prios with nws := h }
  distinct := fun _ _ ho => by cases ho
  running := rfl
  attached := fun _ ho => by cases ho
  arrays := fun _ ho => by cases ho
  recorded := rfl
  placed := fun _ ho => by cases ho

/-- **Places and sizes.**  As long as no command moves an output or changes its size when its
tiles have been made, the box of every enabled output is that of the layout; the output is in
the layout and in the scene where it has been configured last, and the tiles of each of its
workspaces cover its box. -/
theorem geometry_agrees {prios : List (Text × ℤ)} {nws : ℕ} (hnws : 0 < nws)
    (hg : Runs (step resolution) (KeepsGeometry resolution) (init prios nws) g)
    (ho : o ∈ g.outputs) :
    g.layoutBox o = g.wlrLayoutBox resolution o ∧
      (∀ pos, g.configuredPos o = some pos →
        ((g.layoutBox o).x, (g.layoutBox o).y) = (pos.x, pos.y) ∧
          g.scenePosition o = (pos.x, pos.y)) ∧
      ∀ i < g.nws, Covered ⟨0, 0, (g.layoutBox o).width, (g.layoutBox o).height⟩ (g.tiles o i) := by
  have hsettled : Settled resolution g := hg.invariant (E := fun _ => True) (init_settled hnws)
    fun g e h hk => step_settled h hk
  have hplaced := hsettled.placed o ((hsettled.listed.live_iff o).mpr (.inl ho)) (.inl ho)
  refine ⟨hplaced.layoutBox, fun pos hpos => ?_, hplaced.tiled⟩
  obtain ⟨hposition, hscene⟩ := hplaced.pos pos hpos
  rw [hplaced.layoutBox, wlrLayoutBox_of_position hposition]
  exact ⟨rfl, hscene⟩

instance : Decidable (KeepsSize resolution g o config answer) :=
  inferInstanceAs (Decidable (config.pos.x = -1 ∨ (g.monitor o).modes = [] →
    (g.monitor o).test answer.accepts (g.asked o config) = true →
      size resolution ((g.monitor o).committed.apply (g.asked o config)) =
        size resolution (g.monitor o).committed))

instance : Decidable (g.KeepsPlace o config answer) :=
  inferInstanceAs (Decidable (config.pos.x ≠ -1 → (g.modeFor o config answer).2.2 = true →
    o ∈ g.outputs ∧ (wlrBoxEmpty (g.layoutBox o) = false →
      g.position o = some (config.pos.x, config.pos.y))))

instance : Decidable (g.KeepsGeometry resolution e) :=
  match e with
  | .plug name _ _ => inferInstanceAs (Decidable (∀ p ∈ g.outputs ++ g.disabledOutputs,
      (g.cg p).name ≠ name))
  | .configure cfg answer => inferInstanceAs (Decidable (∀ o ∈ g.named cfg.outputName,
      KeepsSize resolution g o (totalConfig (storeConfig g.outputConfig cfg) (g.cg o).name) answer ∧
        g.KeepsPlace o (totalConfig (storeConfig g.outputConfig cfg) (g.cg o).name) answer))
  | .tiles .. => .isTrue trivial

/-- The size of a mode, turned and scaled. -/
def effectiveResolution (mode : OutputMode) (transform : ℤ) (scale : CFloat) : ℤ × ℤ :=
  let turned := if transform % 2 = 1 then (mode.height, mode.width) else (mode.width, mode.height)
  match scale with
  | .fin q => (⌊turned.1 / q⌋, ⌊turned.2 / q⌋)
  | .inf _ | .nan => turned

/-- A monitor with one mode, and a backend that accepts everything. -/
def fullHd : Monitor where
  modes := [⟨1920, 1080, 60000⟩]
  preferred := ⟨1920, 1080, 60000⟩
  committed := ⟨⟨1920, 1080, 60000⟩, 0, .fin 1, true⟩

def accepting : GeometryAnswer := ⟨fun _ => true, (0, 0), true⟩

/-- The first tile is split in its middle. -/
def halveFirst : Retiling where
  apply
    | [] => []
    | b :: ring => ⟨b.x, b.y, b.width / 2, b.height⟩ ::
        ⟨b.x + b.width / 2, b.y, b.width - b.width / 2, b.height⟩ :: ring
  covered F ring h := by
    cases ring with
    | nil => exact h
    | cons b ring =>
      have hhalves : ∀ p, b.Covers p ↔ (⟨b.x, b.y, b.width / 2, b.height⟩ : Rect).Covers p ∨
          (⟨b.x + b.width / 2, b.y, b.width - b.width / 2, b.height⟩ : Rect).Covers p := by
        intro p
        simp only [Rect.Covers]
        omega
      obtain ⟨hfirst, hrest⟩ := List.pairwise_cons.mp h.disjoint
      refine ⟨fun p => (h.covers_iff p).trans (by simp [hhalves, or_assoc]), ?_⟩
      refine List.pairwise_cons.mpr ⟨fun c hc p hp => ?_, List.pairwise_cons.mpr
        ⟨fun c hc p hp => hfirst c hc p ((hhalves p).mpr (.inr hp)), hrest⟩⟩
      rcases List.mem_cons.mp hc with rfl | hc
      · simp only [Rect.Covers] at hp ⊢
        omega
      · exact hfirst c hc p ((hhalves p).mpr (.inl hp))

/-- An `output` command for output A. -/
def commandA (cfg : OutputConfig) : GeometryEvent :=
  .configure { cfg with outputName := some (ascii "A") } accepting

/-- Output A is configured before its monitor is plugged in; its tile is split, and it is
scaled and turned. -/
def placedFirst : List GeometryEvent :=
  [commandA { emptyOutputConfig with pos := ⟨100, 50, 1920, 1080⟩, refreshRate := .fin 60 },
    .plug (ascii "A") fullHd accepting,
    .plug (ascii "B") fullHd accepting,
    .tiles 0 0 halveFirst,
    commandA { emptyOutputConfig with scale := .fin 2 },
    commandA { emptyOutputConfig with angle := 1 },
    .tiles 0 0 halveFirst]

theorem geometry_agrees_placed : ∃ g : GeometryServer,
    Runs (step effectiveResolution) (KeepsGeometry effectiveResolution) (init [] 1) g ∧
      (((g.layoutBox 0).x, (g.layoutBox 0).y) = (100, 50) ∧ g.scenePosition 0 = (100, 50)) ∧
      Covered ⟨0, 0, 540, 960⟩ (g.tiles 0 0) ∧ (g.tiles 0 0).length = 2 := by
  have hcheck : checked (step effectiveResolution) (KeepsGeometry effectiveResolution) (fun g =>
      decide (0 ∈ g.outputs ∧ g.configuredPos 0 = some ⟨100, 50, 1920, 1080⟩ ∧ 0 < g.nws ∧
        g.layoutBox 0 = ⟨100, 50, 540, 960⟩ ∧ (g.tiles 0 0).length = 2)) (init [] 1) placedFirst =
      true := by
    decide +kernel
  obtain ⟨g, hg, htest⟩ := exists_of_checked hcheck
  rw [decide_eq_true_eq] at htest
  obtain ⟨ho, hpos, hnws, hbox, hlen⟩ := htest
  obtain ⟨-, hplace, htiles⟩ := geometry_agrees Nat.one_pos hg ho
  have hcovered := htiles 0 hnws
  rw [hbox] at hcovered
  exact ⟨g, hg, hplace _ hpos, hcovered, hlen⟩

/-- Output A already has a place when it is given another one. -/
def movedLater : List GeometryEvent :=
  [.plug (ascii "A") fullHd accepting,
    commandA { emptyOutputConfig with pos := ⟨100, 50, 1920, 1080⟩, refreshRate := .fin 60 }]

/-- Output A is scaled, and no position has been configured for it. -/
def scaledLater : List GeometryEvent :=
  [.plug (ascii "A") fullHd accepting, commandA { emptyOutputConfig with scale := .fin 2 }]

/-- An output stays where it has been placed first, and is scaled behind its tiles. -/
theorem geometry_disagrees :
    (∃ g : GeometryServer, Runs (step effectiveResolution) (fun _ _ => True) (init [] 1) g ∧
      0 ∈ g.outputs ∧ g.configuredPos 0 = some ⟨100, 50, 1920, 1080⟩ ∧
      ((g.wlrLayoutBox effectiveResolution 0).x, (g.wlrLayoutBox effectiveResolution 0).y) =
        (0, 0) ∧ g.scenePosition 0 = (0, 0)) ∧
    ∃ g : GeometryServer, Runs (step effectiveResolution) (fun _ _ => True) (init [] 1) g ∧
      0 ∈ g.outputs ∧ 0 < g.nws ∧
      g.wlrLayoutBox effectiveResolution 0 = ⟨0, 0, 960, 540⟩ ∧
      ¬ Covered ⟨0, 0, 960, 540⟩ (g.tiles 0 0) := by
  constructor
  · have hcheck : checked (step effectiveResolution) (fun _ _ => True) (fun g =>
        decide (0 ∈ g.outputs ∧ g.configuredPos 0 = some ⟨100, 50, 1920, 1080⟩ ∧
          ((g.wlrLayoutBox effectiveResolution 0).x, (g.wlrLayoutBox effectiveResolution 0).y) =
            (0, 0) ∧ g.scenePosition 0 = (0, 0))) (init [] 1) movedLater = true := by
      decide +kernel
    obtain ⟨g, hg, htest⟩ := exists_of_checked hcheck
    exact ⟨g, hg, of_decide_eq_true htest⟩
  · have hcheck : checked (step effectiveResolution) (fun _ _ => True) (fun g =>
        decide (0 ∈ g.outputs ∧ 0 < g.nws ∧
          g.wlrLayoutBox effectiveResolution 0 = ⟨0, 0, 960, 540⟩ ∧
          g.tiles 0 0 = [⟨0, 0, 1920, 1080⟩])) (init [] 1) scaledLater = true := by
      decide +kernel
    obtain ⟨g, hg, htest⟩ := exists_of_checked hcheck
    rw [decide_eq_true_eq] at htest
    obtain ⟨ho, hnws, hbox, htiles⟩ := htest
    refine ⟨g, hg, ho, hnws, hbox, fun hcovered => ?_⟩
    -- a point of the tile that is not on the output any more
    have hpoint := (hcovered.covers_iff (1000, 0)).mpr (by simp [htiles, Rect.Covers])
    simp [Rect.Covers] at hpoint

end GeometryServer

end Cagebreak
