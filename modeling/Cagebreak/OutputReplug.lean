/-
What the workspaces of a permanent output hold while its monitor is away.

`output_destroy` leaves a permanent output in its list with a headless stand-in, and
`handle_new_output` looks for it there when the monitor comes back.  Whatever clears the
output in the meantime takes its views away and moves it out of the list that is searched.

* `step_server` — the outputs take the steps of `OutputServer`;
* `step_waits` — an output that waits for its monitor keeps what its workspaces hold;
* `replug_keeps` — no two outputs have one name, and a permanent output that has not been
  cleared gets its monitor back with everything it had.
-/
import Cagebreak.OutputNames
import Cagebreak.Lib.Rect

namespace Cagebreak

open Outcome

/-- `struct cg_tile`. -/
structure ContentTile where
  tile : Rect
  view : Option ℕ
  id : ℕ
  deriving DecidableEq, Repr

/-- What a workspace holds: its tiles, from the focused one on, and its views. -/
structure WorkspaceContent where
  tiles : List ContentTile
  views : List ℕ
  unmanagedViews : List ℕ
  deriving DecidableEq, Repr

/-- The outputs with what their workspaces hold. -/
structure ReplugServer extends OutputServer where
  content : ℕ → ℕ → WorkspaceContent
  tilesCurrId : ℕ

/-- The answers while an output is configured, and the size of its box afterwards. -/
structure ReplugAnswer extends OutputAnswer where
  width : ℤ
  height : ℤ
  deriving DecidableEq, Repr

/-- What the outputs react to.  `edit` is what commands, views and the focus make of a
workspace. -/
inductive ReplugEvent
  | plug (name : Text) (answer : ReplugAnswer)
  | unplug (o : ℕ)
  | configure (cfg : OutputConfig) (answer : ReplugAnswer)
  | cycleOutputs (reverse : Bool)
  | switchOutput (output : ℕ)
  | switchWs (ws : ℕ)
  | edit (o i : ℕ) (content : WorkspaceContent)

namespace ReplugServer

/-- Another content for a workspace. -/
def setContent (s : ReplugServer) (o i : ℕ) (c : WorkspaceContent) : ReplugServer :=
  { s with content := Function.update s.content o (Function.update (s.content o) i c) }

/-- `full_screen_workspace_tiles`, and the view that the new tile shows. -/
def fullScreenTile (s : ReplugServer) (o i : ℕ) (answer : ReplugAnswer) (view : Option ℕ) :
    ReplugServer :=
  let tile : ContentTile := ⟨⟨0, 0, answer.width, answer.height⟩, view, s.tilesCurrId⟩
  { s.setContent o i { s.content o i with tiles := [tile] } with
    tilesCurrId := s.tilesCurrId + 1 }

/-- `output_make_workspace_fullscreen`. -/
def outputMakeWorkspaceFullscreen (s : ReplugServer) (o i : ℕ) (answer : ReplugAnswer) :
    ReplugServer :=
  let c := s.content o i
  let visible := fun v => c.tiles.any fun t => decide (t.view = some v)
  s.fullScreenTile o i answer ((c.tiles.head?.bind ContentTile.view).or (c.views.find? visible))

/-- The loop of `output_clear` over the workspaces: the views move to the current workspace, or
are destroyed if there is no output for them.  If the focus then shows one of them in a tile
there, that is an `edit`. -/
def clearWorkspace (s : ReplugServer) (o i : ℕ) : ReplugServer :=
  let c := s.content o i
  let s := s.setContent o i
    { tiles := c.tiles.map fun t => { t with view := none }, views := [], unmanagedViews := [] }
  match s.currOutput with
  | none => s
  | some p =>
    if s.outputs = [] then s
    else
      let ws := (s.cg p).currWorkspace
      let d := s.content p ws
      s.setContent p ws { d with
        views := c.views.reverse ++ d.views
        unmanagedViews := c.unmanagedViews.reverse ++ d.unmanagedViews }

/-- The part of `output_clear` that is about views. -/
def clearWorkspaces (s : ReplugServer) (o : ℕ) : ReplugServer :=
  if s.running then (List.range s.nws).foldl (fun s i => s.clearWorkspace o i) s else s

/-- `output_destroy`. -/
def outputDestroy (s : ReplugServer) (o : ℕ) : OutputExec ReplugServer := do
  let t ← s.toOutputServer.outputDestroy o
  let s' := { s with toOutputServer := t }
  .ok (if (s.cg o).role = .permanent ∧ s.running then s' else s'.clearWorkspaces o)

/-- `output_apply_config`. -/
def outputApplyConfig (s : ReplugServer) (o : ℕ) (config : OutputConfig) (answer : ReplugAnswer) :
    OutputExec ReplugServer := do
  let t ← s.toOutputServer.outputApplyConfig o config answer.toOutputAnswer
  let s' := { s with toOutputServer := t }
  .ok (
    if config.role = .peripheral ∧ (s.cg o).destroyed then s'.clearWorkspaces o
    else if config.pos.x ≠ -1 ∧ !answer.modeSet then s'.clearWorkspaces o
    else
      let s' := if config.pos.x ≠ -1 ∧ (s.cg o).workspaces ≠ none ∧ answer.resized then
          (List.range s.nws).foldl
            (fun s i => s.outputMakeWorkspaceFullscreen o i answer) s'
        else s'
      if config.status = .disable ∧ 1 < s.outputs.length then s'.clearWorkspaces o else s')

/-- `output_configure`. -/
def outputConfigure (s : ReplugServer) (o : ℕ) (answer : ReplugAnswer) :
    OutputExec ReplugServer :=
  s.outputApplyConfig o (totalConfig s.outputConfig (s.cg o).name) answer

/-- `keybinding_configure_output`. -/
def keybindingConfigureOutput (s : ReplugServer) (cfg : OutputConfig) (answer : ReplugAnswer) :
    OutputExec ReplugServer :=
  let s := { s with toOutputServer := s.recorded cfg }
  match s.named cfg.outputName with
  | some o => s.outputConfigure o answer
  | none => .ok s

/-- `handle_new_output` for the monitor of a waiting output. -/
def reinitOutput (s : ReplugServer) (o : ℕ) (answer : ReplugAnswer) :
    OutputExec ReplugServer := do
  let t ← s.toOutputServer.sceneOutputDestroy (s.cg o).sceneOutput
  let t := (t.sceneOutputCreate o).modify o fun c => { c with destroyed := false }
  outputConfigure { s with toOutputServer := t } o answer

/-- The workspaces of a new output. -/
def createWorkspaces (s : ReplugServer) (o : ℕ) (answer : ReplugAnswer) : ReplugServer :=
  let s' := { s with toOutputServer := s.toOutputServer.createWorkspaces o }
  if s.hasSceneOutput o then
    (List.range s.nws).foldl
      (fun s i => (s.setContent o i ⟨[], [], []⟩).fullScreenTile o i answer none) s'
  else s'

/-- `handle_new_output` for any other monitor. -/
def addOutput (s : ReplugServer) (name : Text) (answer : ReplugAnswer) :
    OutputExec ReplugServer := do
  let s₁ ← outputConfigure { s with toOutputServer := s.toOutputServer.added name } s.top answer
  .ok (s₁.createWorkspaces s.top answer)

/-- `handle_new_output`. -/
def handleNewOutput (s : ReplugServer) (name : Text) (answer : ReplugAnswer) :
    OutputExec ReplugServer :=
  match s.waiting name with
  | some o => s.reinitOutput o answer
  | none => s.addOutput name answer

/-- Handle one event. -/
def step (s : ReplugServer) : ReplugEvent → OutputExec ReplugServer
  | .plug name answer => s.handleNewOutput name answer
  | .unplug o => if s.connected o then s.outputDestroy o else .ok s
  | .configure cfg answer => s.keybindingConfigureOutput cfg answer
  | .cycleOutputs reverse => do
    let t ← s.toOutputServer.keybindingCycleOutputs reverse
    .ok { s with toOutputServer := t }
  | .switchOutput output => do
    let t ← s.toOutputServer.keybindingSwitchOutput output
    .ok { s with toOutputServer := t }
  | .switchWs ws => do
    let t ← s.toOutputServer.keybindingSwitchWs ws
    .ok { s with toOutputServer := t }
  | .edit o i content => .ok (s.setContent o i content)

/-- The server before the first monitor, with the number of workspaces that the configuration
file has set. -/
def init (prios : List (Text × ℤ)) (nws : ℕ) : ReplugServer where
  toOutputServer := { OutputServer.init prios with nws }
  content _ _ := ⟨[], [], []⟩
  tilesCurrId := 1

end ReplugServer

/-- The event for the lists of outputs. -/
def ReplugEvent.server : ReplugEvent → Option OutputEvent
  | .plug name answer => some (.plug name answer.toOutputAnswer)
  | .unplug o => some (.unplug o)
  | .configure cfg answer => some (.configure cfg answer.toOutputAnswer)
  | .cycleOutputs reverse => some (.cycleOutputs reverse)
  | .switchOutput output => some (.switchOutput output)
  | .switchWs ws => some (.switchWs ws)
  | .edit .. => none

namespace ReplugServer

variable {s s' t u : ReplugServer} {o p i : ℕ} {config : OutputConfig} {answer : ReplugAnswer}
  {name : Text} {e : ReplugEvent}

/-! ### The outputs -/

@[simp] theorem fullScreenTile_server {v : Option ℕ} :
    (s.fullScreenTile o i answer v).toOutputServer = s.toOutputServer := rfl

@[simp] theorem outputMakeWorkspaceFullscreen_server :
    (s.outputMakeWorkspaceFullscreen o i answer).toOutputServer = s.toOutputServer := rfl

@[simp] theorem clearWorkspace_server :
    (s.clearWorkspace o i).toOutputServer = s.toOutputServer := by
  rw [clearWorkspace]
  dsimp only
  split
  · rfl
  · split
    · rfl
    · rfl

theorem foldl_server {f : ReplugServer → ℕ → ReplugServer}
    (hf : ∀ s i, (f s i).toOutputServer = s.toOutputServer) (l : List ℕ) :
    (l.foldl f s).toOutputServer = s.toOutputServer := by
  induction l generalizing s with
  | nil => rfl
  | cons i l ih => rw [List.foldl_cons, ih, hf]

@[simp] theorem clearWorkspaces_server :
    (s.clearWorkspaces o).toOutputServer = s.toOutputServer := by
  rw [clearWorkspaces]
  split
  · exact foldl_server (fun _ _ => clearWorkspace_server) _
  · rfl

/-- The outputs are those that the server computes. -/
theorem map_server {x : OutputExec OutputServer} {f : OutputServer → ReplugServer}
    (hf : ∀ t, (f t).toOutputServer = t) :
    toOutputServer <$> (x >>= fun t => .ok (f t)) = x := by
  cases x with
  | error e => rfl
  | ok t => exact congrArg Except.ok (hf t)

theorem outputDestroy_server :
    toOutputServer <$> s.outputDestroy o = s.toOutputServer.outputDestroy o := by
  refine map_server fun t => ?_
  split
  · rfl
  · exact clearWorkspaces_server

theorem outputApplyConfig_server : toOutputServer <$> s.outputApplyConfig o config answer =
    s.toOutputServer.outputApplyConfig o config answer.toOutputAnswer := by
  refine map_server fun t => ?_
  have hfull : toOutputServer (if config.pos.x ≠ -1 ∧ (s.cg o).workspaces ≠ none ∧
      answer.resized then
      (List.range s.nws).foldl
        (fun (s : ReplugServer) i => s.outputMakeWorkspaceFullscreen o i answer)
        { s with toOutputServer := t }
      else { s with toOutputServer := t }) = t := by
    split
    · exact foldl_server (fun _ _ => outputMakeWorkspaceFullscreen_server) _
    · rfl
  split
  · exact clearWorkspaces_server
  · split
    · exact clearWorkspaces_server
    · dsimp only
      split
      · exact clearWorkspaces_server.trans hfull
      · exact hfull

theorem createWorkspaces_server : (s.createWorkspaces o answer).toOutputServer =
    s.toOutputServer.createWorkspaces o := by
  have hnew : ∀ (s : ReplugServer) i, ((s.setContent o i ⟨[], [], []⟩).fullScreenTile o i answer
      none).toOutputServer = s.toOutputServer := fun _ _ => rfl
  rw [createWorkspaces]
  dsimp only
  split
  · exact foldl_server hnew _
  · rfl

theorem handleNewOutput_server : toOutputServer <$> s.handleNewOutput name answer =
    s.toOutputServer.handleNewOutput name answer.toOutputAnswer := by
  rw [handleNewOutput, OutputServer.handleNewOutput]
  cases s.waiting name with
  | some o =>
    show toOutputServer <$> s.reinitOutput o answer = s.toOutputServer.reinitOutput o _
    rw [reinitOutput, OutputServer.reinitOutput]
    cases s.toOutputServer.sceneOutputDestroy (s.cg o).sceneOutput with
    | error e => rfl
    | ok t => exact outputApplyConfig_server
  | none =>
    show toOutputServer <$> (outputConfigure _ s.top answer >>= _) =
      ((s.toOutputServer.added name).outputConfigure s.top answer.toOutputAnswer >>= _)
    rw [OutputServer.outputConfigure, ← outputApplyConfig_server
      (s := { s with toOutputServer := s.toOutputServer.added name }), outputConfigure]
    cases outputApplyConfig _ s.top _ answer with
    | error e => rfl
    | ok s₁ => exact congrArg Except.ok createWorkspaces_server

/-- **The outputs** take the steps of the server, whatever the workspaces hold. -/
theorem step_server {e' : OutputEvent} (he : e' ∈ e.server) :
    toOutputServer <$> s.step e = s.toOutputServer.step e' := by
  cases e with
  | plug name answer =>
    obtain rfl := Option.some.inj he
    exact handleNewOutput_server
  | unplug o =>
    obtain rfl := Option.some.inj he
    rw [step, OutputServer.step]
    split
    · exact outputDestroy_server
    · rfl
  | configure cfg answer =>
    obtain rfl := Option.some.inj he
    show toOutputServer <$> s.keybindingConfigureOutput cfg answer =
      s.toOutputServer.keybindingConfigureOutput cfg answer.toOutputAnswer
    rw [keybindingConfigureOutput, OutputServer.keybindingConfigureOutput]
    dsimp only
    rw [show ({ s.toOutputServer with
      outputConfig := storeConfig s.outputConfig cfg } : OutputServer) = s.recorded cfg from rfl]
    cases (s.recorded cfg).named cfg.outputName with
    | some o => exact outputApplyConfig_server
    | none => rfl
  | cycleOutputs reverse =>
    obtain rfl := Option.some.inj he
    exact map_server fun _ => rfl
  | switchOutput output =>
    obtain rfl := Option.some.inj he
    exact map_server fun _ => rfl
  | switchWs ws =>
    obtain rfl := Option.some.inj he
    exact map_server fun _ => rfl
  | edit o i content => cases he

/-! ### Names -/

/-- A monitor that is plugged in has a name that no monitor has that is there, which the
backend promises, and its output is not disabled. -/
def Finds (s : ReplugServer) (e : ReplugEvent) : Prop :=
  ∀ e' ∈ e.server, s.toOutputServer.Promised e' ∧ ¬ s.Doubles e'

/-- The lists are in order, and names are different. -/
structure Named (s : ReplugServer) : Prop where
  distinct : s.toOutputServer.Distinct
  listed : s.toOutputServer.Listed

theorem step_named (h : s.Named) (hf : s.Finds e) : Meets (s.step e) (fun _ => True) Named := by
  cases hstep : s.step e with
  | error err => trivial
  | ok s' =>
    cases he : e.server with
    | none =>
      -- only a content is changed
      cases e with
      | edit o i content =>
        obtain rfl := Except.ok.inj hstep
        exact ⟨h.distinct, h.listed⟩
      | plug | unplug | configure | cycleOutputs | switchOutput | switchWs => cases he
    | some e' =>
      obtain ⟨hp, hno⟩ := hf e' he
      have hok := step_server (s := s) he
      rw [hstep] at hok
      exact ⟨((OutputServer.step_distinct h.distinct h.listed hp).of_ok hok.symm).mpr hno,
        (OutputServer.step_listed h.listed).of_ok hok.symm⟩

theorem init_named {prios : List (Text × ℤ)} {nws : ℕ} (h : 0 < nws) : (init prios nws).Named where
  distinct := fun _ _ ho => by cases ho
  listed := { OutputServer.init_listed prios with nws := h }

/-- No two outputs have one name. -/
theorem Named.nodup (h : s.Named) :
    ((s.outputs ++ s.disabledOutputs).map fun o => (s.cg o).name).Nodup := by
  have hlive : ∀ p ∈ s.outputs ++ s.disabledOutputs, s.live p = true := fun p hp =>
    (h.listed.live_iff p).mpr (List.mem_append.mp hp)
  refine List.Nodup.map_on (fun p hp q hq hpq => h.distinct p q (hlive p hp) (hlive q hq) hpq) ?_
  refine List.nodup_append.mpr ⟨h.listed.outputs, h.listed.disabled, fun p hp q hq => ?_⟩
  rintro rfl
  exact h.listed.disjoint p hp hq

/-! ### Waiting -/

/-- The output waits for its monitor and has everything it had in `r`. -/
structure Waits (s : ReplugServer) (o : ℕ) (r : ReplugServer) : Prop where
  away : s.toOutputServer.Away o (r.cg o)
  content : s.content o = r.content o

/-- The configuration of an output does not clear it, and the box of `o` keeps its size. -/
def Preserves (s : ReplugServer) (o p : ℕ) (config : OutputConfig) (answer : ReplugAnswer) :
    Prop :=
  ¬ s.Torn p config answer.toOutputAnswer ∧ (p = o → config.pos.x ≠ -1 → answer.resized = false)

/-- **What the events must not do** while the monitor is away. -/
def Spares (s : ReplugServer) (o : ℕ) : ReplugEvent → Prop
  | .plug .. => False
  | .unplug p => p = o
  | .configure cfg answer => ∀ p ∈ s.named cfg.outputName,
      s.Preserves o p (totalConfig (storeConfig s.outputConfig cfg) (s.cg p).name) answer
  | .switchWs _ => s.currOutput ≠ some o
  | .cycleOutputs _ | .switchOutput _ => True
  | .edit p _ _ => p ≠ o

theorem fullscreen_content (h : o ≠ p) (l : List ℕ) :
    (l.foldl (fun (s : ReplugServer) i => s.outputMakeWorkspaceFullscreen p i answer) s).content o =
      s.content o := by
  induction l generalizing s with
  | nil => rfl
  | cons i l ih =>
    rw [List.foldl_cons, ih]
    exact Function.update_of_ne h ..

/-- Such a configuration leaves what the workspaces hold. -/
theorem outputApplyConfig_content (hp : s.Preserves o p config answer) :
    Meets (s.outputApplyConfig p config answer) (fun _ => True)
      (fun s' => s'.content o = s.content o) := by
  obtain ⟨htorn, hsize⟩ := hp
  rw [OutputServer.Torn, not_or, not_or] at htorn
  obtain ⟨hrole, hmode, hstatus⟩ := htorn
  rw [outputApplyConfig]
  cases s.toOutputServer.outputApplyConfig p config answer.toOutputAnswer with
  | error e => trivial
  | ok t =>
    refine Meets.ok ?_
    rw [if_neg hrole, if_neg (by simpa using hmode)]
    dsimp only
    rw [if_neg hstatus]
    split
    · next hfull =>
      have hne : o ≠ p := by
        rintro rfl
        have hresized := hsize rfl hfull.1
        rw [hfull.2.2] at hresized
        cases hresized
      exact fullscreen_content hne _
    · rfl

end ReplugServer

namespace OutputServer

variable {s s' : OutputServer} {o : ℕ} {config : OutputConfig} {ans : OutputAnswer} {c : CgOutput}

/-- An output that is not cleared still waits. -/
theorem Away.configured (h : s.Away o c) (hc : Configured s o config ans s')
    (htorn : ¬ s.Torn o config ans) : s'.Away o c := by
  have hdestroyed : (s'.cg o).destroyed = (s.cg o).destroyed := by
    have hprep : ((s.prepared o config).cg o).destroyed = (s.cg o).destroyed := by
      rw [prepared, modify_cg_self, withRole, modify_cg_self]
    cases hc with
    | destroyed hrole hd hdest => exact absurd (.inl ⟨hrole, hd⟩) htorn
    | failed hdest hpos hmode c hc => exact absurd (.inr (.inl ⟨hpos, hmode⟩)) htorn
    | disabled hstatus hlen c hc => exact absurd (.inr (.inr ⟨hstatus, hlen⟩)) htorn
    | kept hdest hlen hmode =>
      rw [renewBackground, modify_cg_self]
      split
      · exact hprep
      · exact hprep
  have harr := hc.keepsArrays.same
  exact ⟨(configured_kept htorn hc).2 h.enabled, hdestroyed.trans h.destroyed,
    hc.same_name.trans h.name, (harr.workspaces o).trans h.workspaces,
    (harr.currWorkspace o).trans h.currWorkspace⟩

end OutputServer

namespace ReplugServer

variable {s s' t u r : ReplugServer} {o p i : ℕ} {config : OutputConfig} {answer : ReplugAnswer}
  {name : Text} {e : ReplugEvent}

/-- What a configuration does that clears no output. -/
theorem outputApplyConfig_waits (h : s.Waits o r) (hs : s.toOutputServer.Listed)
    (hl : s.live p = true) (hp : s.Preserves o p config answer) :
    Meets (s.outputApplyConfig p config answer) (fun _ => True) (·.Waits o r) := by
  cases hstep : s.outputApplyConfig p config answer with
  | error err => trivial
  | ok s' =>
    have hcontent := (outputApplyConfig_content hp).of_ok hstep
    have hserver : toOutputServer <$> s.outputApplyConfig p config answer =
        s.toOutputServer.outputApplyConfig p config answer.toOutputAnswer :=
      outputApplyConfig_server
    rw [hstep] at hserver
    have hc := (OutputServer.outputApplyConfig_spec hl).of_ok hserver.symm
    refine ⟨?_, hcontent.trans h.content⟩
    by_cases hpo : p = o
    · subst hpo
      exact h.away.configured hc hp.1
    · exact h.away.alter (hc.alters hs) (Ne.symm hpo)

/-- **The step lemma** for an output that waits. -/
theorem step_waits (h : s.Waits o r) (hn : s.Named) (hsp : s.Spares o e) :
    Meets (s.step e) (fun _ => True) (·.Waits o r) := by
  cases e with
  | plug name answer => exact absurd hsp id
  | unplug p =>
    obtain rfl := hsp
    refine Meets.ite (fun hc => ?_) fun _ => Meets.ok h
    simp [OutputServer.connected, h.away.destroyed] at hc
  | configure cfg answer =>
    have hrec : Waits { s with toOutputServer := s.recorded cfg } o r :=
      ⟨h.away.congr h.away.enabled rfl, h.content⟩
    have hlisted : (s.recorded cfg).Listed := hn.listed.congr rfl rfl rfl le_rfl hn.listed.nws
    show Meets (match s.named cfg.outputName with
      | some p => outputConfigure { s with toOutputServer := s.recorded cfg } p answer
      | none => .ok { s with toOutputServer := s.recorded cfg }) _ _
    cases hp : s.named cfg.outputName with
    | none => exact Meets.ok hrec
    | some p =>
      have hl : s.live p = true := (hn.listed.live_iff p).mpr (OutputServer.named_mem hp).1
      exact outputApplyConfig_waits hrec hlisted hl (hsp p hp)
  | cycleOutputs reverse =>
    exact Meets.bind (OutputServer.step_away (e := .cycleOutputs reverse) h.away hn.listed trivial)
      fun t ht => Meets.ok ⟨ht, h.content⟩
  | switchOutput output =>
    exact Meets.bind (OutputServer.step_away (e := .switchOutput output) h.away hn.listed trivial)
      fun t ht => Meets.ok ⟨ht, h.content⟩
  | switchWs ws =>
    exact Meets.bind (OutputServer.step_away (e := .switchWs ws) h.away hn.listed hsp)
      fun t ht => Meets.ok ⟨ht, h.content⟩
  | edit p i content =>
    have hcontent : (s.setContent p i content).content o = s.content o :=
      Function.update_of_ne (Ne.symm hsp) ..
    exact Meets.ok ⟨h.away, hcontent.trans h.content⟩

/-- A permanent output waits for the monitor that is unplugged. -/
theorem unplug_waits (hc : s.connected o = true) (hout : o ∈ s.outputs)
    (hrole : (s.cg o).role = .permanent) (hrun : s.running = true)
    (hu : s.step (.unplug o) = .ok u) : u.Waits o s := by
  have hl : s.live o = true := (Bool.and_eq_true_iff.mp hc).1
  rw [step, if_pos hc] at hu
  have hserver := outputDestroy_server (s := s) (o := o)
  rw [hu] at hserver
  refine ⟨(OutputServer.unplug_away hl hout hrole hrun).of_ok hserver.symm, ?_⟩
  rw [outputDestroy] at hu
  cases hd : s.toOutputServer.outputDestroy o with
  | error err =>
    rw [hd] at hu
    cases hu
  | ok t =>
    rw [hd] at hu
    have hsame := Except.ok.inj hu
    rw [if_pos ⟨hrole, hrun⟩] at hsame
    rw [← hsame]

/-- A waiting output with a scene output for its monitor. -/
def reinited (s : ReplugServer) (o : ℕ) : ReplugServer :=
  { s with toOutputServer := s.toOutputServer.reinited o }

theorem reinitOutput_content
    (hp : (s.reinited o).Preserves o o (totalConfig s.outputConfig (s.cg o).name) answer) :
    Meets (s.reinitOutput o answer) (fun _ => True) fun s' => s'.content o = s.content o := by
  rw [reinitOutput]
  refine Meets.bind (OutputServer.sceneOutputDestroy_spec.mono (fun _ _ => trivial)
    fun _ h => h) ?_
  rintro _ rfl
  have hname : ((s.reinited o).cg o).name = (s.cg o).name := OutputServer.reinited_name
  show Meets ((s.reinited o).outputApplyConfig o
    (totalConfig s.outputConfig ((s.reinited o).cg o).name) answer) _ _
  rw [hname]
  exact outputApplyConfig_content hp

/-- The monitor of an output that waits comes back. -/
theorem Waits.plugged (h : s.Waits o r) (hn : s.Named)
    (hp : (s.reinited o).Preserves o o (totalConfig s.outputConfig (r.cg o).name) answer)
    (hplug : s.step (.plug (r.cg o).name answer) = .ok s') :
    (s'.connected o = true ∧ s'.live = s.live) ∧ (s'.cg o).name = (r.cg o).name ∧
      (s'.cg o).workspaces = (r.cg o).workspaces ∧
      (s'.cg o).currWorkspace = (r.cg o).currWorkspace ∧ s'.content o = r.content o := by
  have hserver := step_server (s := s) (e := .plug (r.cg o).name answer) rfl
  rw [hplug] at hserver
  obtain ⟨hconn, hlive, hname, hws, hcurr⟩ :=
    (h.away.plugged hn.listed hn.distinct).of_ok hserver.symm
  refine ⟨⟨hconn, hlive⟩, hname, hws, hcurr, ?_⟩
  have hreinit : s.reinitOutput o answer = .ok s' := by
    rw [← hplug]
    show _ = s.handleNewOutput (r.cg o).name answer
    rw [handleNewOutput, h.away.waiting hn.listed hn.distinct]
  rw [← h.away.name] at hp
  exact ((reinitOutput_content hp).of_ok hreinit).trans h.content

/-- **Replugging.**  As long as no monitor comes back whose output is disabled, no two outputs
have one name.  A permanent output whose monitor is unplugged, and which no event clears or
gives another size until the monitor comes back, gets it back, and has the workspaces, the
current workspace, the tiles and the views that it had. -/
theorem replug_keeps {prios : List (Text × ℤ)} {nws : ℕ} (hnws : 0 < nws)
    (hs : Runs step Finds (init prios nws) s) :
    ((s.outputs ++ s.disabledOutputs).map fun o => (s.cg o).name).Nodup ∧
      ∀ o u t s' answer, s.connected o = true → o ∈ s.outputs → (s.cg o).role = .permanent →
        s.running = true → s.step (.unplug o) = .ok u →
        Runs step (fun s e => s.Finds e ∧ s.Spares o e) u t →
        (t.reinited o).Preserves o o (totalConfig t.outputConfig (s.cg o).name) answer →
        t.step (.plug (s.cg o).name answer) = .ok s' →
        (s'.connected o = true ∧ s'.live = t.live) ∧ (s'.cg o).name = (s.cg o).name ∧
          (s'.cg o).workspaces = (s.cg o).workspaces ∧
          (s'.cg o).currWorkspace = (s.cg o).currWorkspace ∧ s'.content o = s.content o := by
  have hnamed : s.Named := hs.invariant (E := fun _ => True) (init_named hnws)
    fun s e h hf => step_named h hf
  refine ⟨hnamed.nodup, fun o u t s' answer hc hout hrole hrun hu ht hp hplug => ?_⟩
  have hunplug : s.Finds (.unplug o) := fun e' he => by
    obtain rfl := Option.some.inj he
    exact ⟨trivial, id⟩
  have hwaits : t.Named ∧ t.Waits o s := by
    refine ht.invariant (E := fun _ => True) (I := fun t => t.Named ∧ t.Waits o s)
      ⟨(step_named hnamed hunplug).of_ok hu, unplug_waits hc hout hrole hrun hu⟩ ?_
    rintro t e ⟨hn, hw⟩ ⟨hf, hsp⟩
    have hn' := step_named hn hf
    have hw' := step_waits hw hn hsp
    cases hstep : t.step e with
    | error err => trivial
    | ok t' => exact ⟨hn'.of_ok hstep, hw'.of_ok hstep⟩
  exact hwaits.2.plugged hwaits.1 hp hplug

instance : Decidable (s.Finds e) :=
  inferInstanceAs (Decidable (∀ e' ∈ e.server, s.toOutputServer.Promised e' ∧ ¬ s.Doubles e'))

instance : Decidable (s.Preserves o p config answer) :=
  inferInstanceAs (Decidable (¬ (config.role = .peripheral ∧ (s.cg p).destroyed = true ∨
    config.pos.x ≠ -1 ∧ answer.modeSet = false ∨
    config.status = .disable ∧ 1 < s.outputs.length) ∧
      (p = o → config.pos.x ≠ -1 → answer.resized = false)))

instance : Decidable (s.Spares o e) :=
  match e with
  | .plug .. => .isFalse id
  | .unplug p => inferInstanceAs (Decidable (p = o))
  | .configure cfg answer => inferInstanceAs (Decidable (∀ p ∈ s.named cfg.outputName,
      s.Preserves o p (totalConfig (storeConfig s.outputConfig cfg) (s.cg p).name) answer))
  | .switchWs _ => inferInstanceAs (Decidable (s.currOutput ≠ some o))
  | .cycleOutputs _ | .switchOutput _ => .isTrue trivial
  | .edit p _ _ => inferInstanceAs (Decidable (p ≠ o))

/-- An output of 1920x1080, whatever is configured. -/
def sameSize : ReplugAnswer := ⟨⟨true, false, false⟩, 1920, 1080⟩

/-- An `output` command for output B. -/
def commandB (cfg : OutputConfig) : ReplugEvent :=
  .configure { cfg with outputName := some (ascii "B") } sameSize

/-- Two tiles, with a view in one of them. -/
def twoTiles : WorkspaceContent where
  tiles := [⟨⟨0, 0, 960, 1080⟩, some 7, 2⟩, ⟨⟨960, 0, 960, 1080⟩, none, 3⟩]
  views := [7]
  unmanagedViews := []

/-- Outputs A and B; B is permanent, and its second workspace holds a view. -/
def permanentB : List ReplugEvent :=
  [.plug (ascii "A") sameSize,
    commandB { emptyOutputConfig with role := .permanent },
    .plug (ascii "B") sameSize,
    .edit 2 1 twoTiles]

/-- While its monitor is away it is configured, and another workspace changes. -/
def awayB : List ReplugEvent :=
  [commandB { emptyOutputConfig with role := .permanent },
    commandB { emptyOutputConfig with status := .enable },
    .edit 0 0 twoTiles]

theorem replug_keeps_views : ∃ s t s' : ReplugServer, Runs step Finds (init [] 2) s ∧
    s.content 2 1 = twoTiles ∧ t.step (.plug (ascii "B") sameSize) = .ok s' ∧
    s'.connected 2 = true ∧ s'.live = t.live ∧ s'.content 2 1 = twoTiles := by
  have hcheck : checked step Finds (fun s => decide (s.connected 2 = true ∧ 2 ∈ s.outputs ∧
      (s.cg 2).role = .permanent ∧ s.running = true ∧ (s.cg 2).name = ascii "B" ∧
      s.content 2 1 = twoTiles) &&
      returns (s.step (.unplug 2)) fun u =>
        checked step (fun s e => s.Finds e ∧ s.Spares 2 e) (fun t =>
          decide ((t.reinited 2).Preserves 2 2 (totalConfig t.outputConfig (ascii "B")) sameSize) &&
          returns (t.step (.plug (ascii "B") sameSize)) fun _ => true) u awayB)
      (init [] 2) permanentB = true := by
    decide +kernel
  obtain ⟨s, hs, htest⟩ := exists_of_checked hcheck
  rw [Bool.and_eq_true, decide_eq_true_eq] at htest
  obtain ⟨⟨hc, hout, hrole, hrun, hname, hcontent⟩, hreturns⟩ := htest
  obtain ⟨u, hu, haway⟩ := exists_of_returns hreturns
  obtain ⟨t, ht, hlast⟩ := exists_of_checked haway
  rw [Bool.and_eq_true, decide_eq_true_eq, ← hname] at hlast
  obtain ⟨s', hs', -⟩ := exists_of_returns hlast.2
  obtain ⟨⟨hconn, hlive⟩, -, -, -, hkept⟩ :=
    (replug_keeps Nat.two_pos hs).2 2 u t s' sameSize hc hout hrole hrun hu ht hlast.1 hs'
  rw [hname] at hs'
  exact ⟨s, t, s', hs, hcontent, hs', hconn, hlive, (congrFun hkept 1).trans hcontent⟩

/-- Output B is disabled and enabled while its monitor is away. -/
def disabledB : List ReplugEvent :=
  permanentB ++
    [.unplug 2,
      commandB { emptyOutputConfig with status := .disable },
      commandB { emptyOutputConfig with status := .enable },
      .plug (ascii "B") sameSize]

/-- Its monitor comes back: there are two outputs B, and the one that has the monitor has
nothing of what was there. -/
theorem replug_doubles : ∃ s : ReplugServer,
    Runs step (fun s e => ∀ e' ∈ e.server, s.toOutputServer.Promised e') (init [] 2) s ∧
      ¬ ((s.outputs ++ s.disabledOutputs).map fun o => (s.cg o).name).Nodup ∧
      ∃ o ∈ s.outputs ++ s.disabledOutputs, s.connected o = true ∧ (s.cg o).name = ascii "B" ∧
        (s.content o 1).views = [] := by
  have hcheck : checked step (fun s e => ∀ e' ∈ e.server, s.toOutputServer.Promised e') (fun s =>
      decide (¬ ((s.outputs ++ s.disabledOutputs).map fun o => (s.cg o).name).Nodup ∧
        ∃ o ∈ s.outputs ++ s.disabledOutputs, s.connected o = true ∧ (s.cg o).name = ascii "B" ∧
          (s.content o 1).views = [])) (init [] 2) disabledB = true := by
    decide +kernel
  obtain ⟨s, hs, htest⟩ := exists_of_checked hcheck
  exact ⟨s, hs, of_decide_eq_true htest⟩

end ReplugServer

end Cagebreak
