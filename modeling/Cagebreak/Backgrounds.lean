/-
The rectangles behind the outputs.

Whenever an output is configured it is given a rectangle with the color of the
background.  The rectangle is a child of the root of the scene and is destroyed
only where the pointer to it is replaced, so that a pointer that is not `NULL`
(`bg`) is to a rectangle in the scene.  The command `background` and the focus
follow the pointers without a check.

A rectangle needs the scene output of its output.  The pointer is `NULL` from a
configuration that finds none, or destroys it, to the next one that finds one
(`painted_configured_iff`).
-/
import Cagebreak.OutputScenes

namespace Cagebreak

open Outcome

/-- The server with the color of the backgrounds. -/
structure BackgroundServer (Color : Type) where
  server : OutputServer
  bgColor : Color

/-- What changes the outputs, or follows the pointers to their rectangles. -/
inductive BackgroundEvent (Color : Type)
  | output (e : OutputEvent)
  | background (bg : Color)
  /-- a view on a workspace of the output gets the focus -/
  | focus (o : ℕ)

/-- `output->bg`, followed. -/
def OutputServer.followBg (s : OutputServer) (o : ℕ) : OutputExec Unit :=
  if !s.live o then .error .freed
  else if !(s.cg o).bg then .error .null
  else .ok ()

namespace BackgroundServer

variable {Color : Type}

/-- `keybinding_set_background`, without the event that is sent. -/
def keybindingSetBackground (s : BackgroundServer Color) (bg : Color) :
    OutputExec (BackgroundServer Color) := do
  let s := { s with bgColor := bg }
  s.server.outputs.forM s.server.followBg
  s.server.disabledOutputs.forM s.server.followBg
  .ok s

/-- The end of `seat_set_focus`, for a view on a workspace of `o`: the rectangle
of the output is moved. -/
def seatSetFocus (s : BackgroundServer Color) (o : ℕ) : OutputExec (BackgroundServer Color) := do
  s.server.followBg o
  .ok s

/-- Handle one event.  No view is on a workspace of an output that is not in
use. -/
def step (s : BackgroundServer Color) : BackgroundEvent Color → OutputExec (BackgroundServer Color)
  | .output e => do
    let server ← s.server.step e
    .ok { s with server }
  | .background bg => s.keybindingSetBackground bg
  | .focus o => if s.server.live o then s.seatSetFocus o else .ok s

/-- The server before the first monitor. -/
def init (prios : List (Text × ℤ)) (bgColor : Color) : BackgroundServer Color :=
  ⟨OutputServer.init prios, bgColor⟩

end BackgroundServer

/-- A configuration destroys the output, or leaves it with a rectangle: with the
old one if a mode is refused, and otherwise with a new one, for which it must
not be disabled and must have a scene output (`shown`).  The number of enabled
outputs is `n`. -/
def CgOutput.Redrawn (c : CgOutput) (config : OutputConfig) (answer : OutputAnswer) (shown : Bool)
    (n : ℕ) : Prop :=
  config.role = .peripheral ∧ c.destroyed = true ∨
    if config.pos.x ≠ -1 ∧ answer.modeSet = false then c.bg = true
    else ¬ (config.status = .disable ∧ 1 < n) ∧ shown = true

instance {c : CgOutput} {config : OutputConfig} {answer : OutputAnswer} {shown : Bool} {n : ℕ} :
    Decidable (c.Redrawn config answer shown n) :=
  inferInstanceAs (Decidable (_ ∧ _ ∨ ite _ _ _))

namespace OutputServer

variable {s s' : OutputServer} {o p : ℕ} {c : Option ℕ} {config : OutputConfig}
  {answer : OutputAnswer} {name : Text} {e : OutputEvent}

/-- A configuration that the event applies leaves its output with a rectangle.
The monitor of an output that is plugged in has a new scene output. -/
def Repaints (s : OutputServer) : OutputEvent → Prop
  | .configure cfg answer => ∀ o, s.named cfg.outputName = some o →
    (s.cg o).Redrawn (totalConfig (storeConfig s.outputConfig cfg) (s.cg o).name) answer
      (s.hasSceneOutput o) s.outputs.length
  | .plug name answer =>
    (∀ o, s.waiting name = some o → { s.cg o with destroyed := false }.Redrawn
      (totalConfig s.outputConfig name) answer true s.outputs.length) ∧
    (s.waiting name = none → (s.newOutput name).Redrawn
      (totalConfig s.outputConfig name) answer true (s.outputs.length + 1))
  | _ => True

instance : Decidable (s.Repaints e) :=
  match e with
  | .configure cfg answer => inferInstanceAs (Decidable (∀ o ∈ s.named cfg.outputName,
      (s.cg o).Redrawn (totalConfig (storeConfig s.outputConfig cfg) (s.cg o).name) answer
        (s.hasSceneOutput o) s.outputs.length))
  | .plug name answer => inferInstanceAs (Decidable ((∀ o ∈ s.waiting name,
      { s.cg o with destroyed := false }.Redrawn (totalConfig s.outputConfig name) answer true
        s.outputs.length) ∧ (s.waiting name = none → (s.newOutput name).Redrawn
          (totalConfig s.outputConfig name) answer true (s.outputs.length + 1))))
  | .unplug _ | .workspaces _ | .cycleOutputs _ | .switchOutput _ | .switchWs _ | .quit =>
    isTrue trivial

/-- Every output in use has a rectangle. -/
def Painted (s : OutputServer) : Prop := ∀ o, s.live o = true → (s.cg o).bg = true

/-- Every other output in use has a rectangle. -/
def PaintedBut (s : OutputServer) (o : ℕ) : Prop :=
  ∀ p, p ≠ o → s.live p = true → (s.cg p).bg = true

theorem Painted.but (h : s.Painted) : s.PaintedBut o := fun p _ => h p

theorem Painted.congr (h : s.Painted) (hbg : ∀ p, (s'.cg p).bg = (s.cg p).bg)
    (hlive : ∀ p, s'.live p = true → s.live p = true) : s'.Painted := by
  intro p hp
  rw [hbg]
  exact h p (hlive p hp)

/-- The other outputs are left alone, so that the output decides. -/
theorem PaintedBut.painted_iff {t : OutputServer} (h : s.PaintedBut o)
    (hbg : ∀ p, p ≠ o → (t.cg p).bg = (s.cg p).bg)
    (hlive : ∀ p, p ≠ o → t.live p = s.live p) :
    t.Painted ↔ (t.live o = true → (t.cg o).bg = true) := by
  constructor
  · intro ht
    exact ht o
  · intro ho p hp
    by_cases hpo : p = o
    · subst hpo
      exact ho hp
    · rw [hbg p hpo]
      rw [hlive p hpo] at hp
      exact h p hpo hp

/-! ### Configuring an output -/

theorem prepared_bg : ((s.prepared o config).cg p).bg = (s.cg p).bg := by
  by_cases h : p = o
  · subst h
    rw [prepared, modify_cg_self, withRole, modify_cg_self]
  · rw [prepared, modify_cg_of_ne h, withRole, modify_cg_of_ne h]

theorem prepared_hasSceneOutput :
    (s.prepared o config).hasSceneOutput p = s.hasSceneOutput p := by
  rw [hasSceneOutput, prepared_sceneOutput]
  rfl

/-- The scene output of an output that is disabled is gone. -/
theorem hasSceneOutput_disabledTo : (s.disabledTo o c).hasSceneOutput o = false := by
  show (s.cg o).sceneOutput.any (s.sceneWithout o) = false
  rw [sceneWithout]
  cases (s.cg o).sceneOutput with
  | none => rfl
  | some q =>
    show Function.update s.sceneLive q false q = false
    exact Function.update_self ..

theorem renewBackground_bg_self : ((s.renewBackground o).cg o).bg = s.hasSceneOutput o := by
  rw [renewBackground, modify_cg_self]

theorem renewBackground_bg_of_ne (h : p ≠ o) : ((s.renewBackground o).cg p).bg = (s.cg p).bg := by
  rw [renewBackground, modify_cg_of_ne h]

theorem detached_bg : ((s.detached o).cg p).bg = (s.cg p).bg := by
  rw [detached]
  split
  · rfl
  · by_cases h : p = o
    · subst h
      rw [modify_cg_self]
    · rw [modify_cg_of_ne h]

theorem ended_same : s.ended.cg = s.cg ∧ s.ended.live = s.live := by
  rw [ended]
  split
  · exact ⟨rfl, rfl⟩
  · exact ⟨rfl, rfl⟩

/-- An output that is destroyed keeps its rectangle as long as it is in use. -/
theorem destroyed_bg (hd : Destroyed s o s') : (∀ p, (s'.cg p).bg = (s.cg p).bg) ∧
    (∀ p, p ≠ o → s'.live p = s.live p) ∧ (s'.live o = true → s.live o = true) := by
  cases hd with
  | replaced hrole hrun =>
    rw [ended_same.1, ended_same.2]
    have hlive : ((s.detached o).sceneOutputCreate o).live = s.live := detached_live
    rw [hlive]
    refine ⟨fun p => ?_, fun _ _ => rfl, id⟩
    show (Function.update (s.detached o).cg o _ p).bg = _
    by_cases h : p = o
    · subst h
      rw [Function.update_self]
      exact detached_bg
    · rw [Function.update_of_ne h]
      exact detached_bg
  | removed hrole c hc =>
    rw [ended_same.1, ended_same.2]
    refine ⟨fun p => detached_bg, fun p hp => Function.update_of_ne hp .., fun h => ?_⟩
    have hnone : Function.update s.live o false o = true := h
    rw [Function.update_self] at hnone
    cases hnone

/-- **One configuration.**  If all other outputs have a rectangle, all outputs
have one afterwards exactly if the configuration leaves its output with one. -/
theorem painted_configured_iff (h : s.PaintedBut o) (hl : s.live o = true)
    (hc : Configured s o config answer s') :
    s'.Painted ↔ (s.cg o).Redrawn config answer (s.hasSceneOutput o) s.outputs.length := by
  rw [CgOutput.Redrawn]
  cases hc with
  | destroyed hrole hd hdest =>
    obtain ⟨hbg, hlive, -⟩ := destroyed_bg hdest
    refine iff_of_true ?_ (.inl ⟨hrole, hd⟩)
    refine (h.painted_iff (fun p hp => ?_) hlive).mpr fun ho => ?_
    · rw [hbg, withRole, modify_cg_of_ne hp]
    · -- a peripheral output is freed
      cases hdest with
      | replaced hperm hrun =>
        rw [withRole, modify_cg_self, hrole] at hperm
        cases hperm
      | removed hperm c hc =>
        rw [ended_same.2] at ho
        have hnone : Function.update s.live o false o = true := ho
        rw [Function.update_self] at hnone
        cases hnone
  | failed hdest hpos hmode c hc =>
    -- the mode was refused: the output is disabled, and keeps the background it has
    rw [if_pos ⟨hpos, hmode⟩, or_iff_right hdest]
    rw [h.painted_iff (t := (s.prepared o config).disabledTo o c) (fun p _ => prepared_bg)
      fun _ _ => rfl]
    have hself : (((s.prepared o config).disabledTo o c).cg o).bg = (s.cg o).bg := prepared_bg
    have hlive : ((s.prepared o config).disabledTo o c).live o = true := hl
    rw [hself]
    exact ⟨fun hs' => hs' hlive, fun hbg _ => hbg⟩
  | disabled hstatus hlen c hc hdest hmode =>
    -- the background of a disabled output is renewed, but it has no node to be drawn in
    rw [if_neg hmode, or_iff_right hdest]
    rw [h.painted_iff (t := ((s.prepared o config).disabledTo o c).renewBackground o)
      (fun p hp => (renewBackground_bg_of_ne hp).trans prepared_bg) fun _ _ => rfl]
    rw [renewBackground_bg_self, hasSceneOutput_disabledTo]
    refine iff_of_false (fun hs' => absurd (hs' hl) Bool.false_ne_true) fun hno => ?_
    exact hno.1 ⟨hstatus, hlen⟩
  | kept hdest hlen hmode =>
    rw [if_neg hmode, or_iff_right hdest]
    generalize ht : (if s.PrioChanged o config then ((s.prepared o config).unlink o).outputInsert o
      else s.prepared o config) = t
    have hsame : (∀ p, (t.cg p).bg = (s.cg p).bg) ∧ t.live = s.live ∧
        t.hasSceneOutput o = s.hasSceneOutput o := by
      rw [← ht]
      split
      · exact ⟨fun _ => prepared_bg, rfl, prepared_hasSceneOutput⟩
      · exact ⟨fun _ => prepared_bg, rfl, prepared_hasSceneOutput⟩
    rw [h.painted_iff (t := t.renewBackground o)
      (fun p hp => (renewBackground_bg_of_ne hp).trans (hsame.1 p)) fun p _ => congrFun hsame.2.1 p]
    rw [renewBackground_bg_self, hsame.2.2]
    have hlive : (t.renewBackground o).live o = true := (congrFun hsame.2.1 o).trans hl
    exact ⟨fun hs' => ⟨hlen, hs' hlive⟩, fun hs' _ => hs'.2⟩

theorem painted_createWorkspaces_iff : (s.createWorkspaces o).Painted ↔ s.Painted := by
  have hlive : (s.createWorkspaces o).live = s.live := createWorkspaces_same.2.2.1
  have hbg : ∀ p, ((s.createWorkspaces o).cg p).bg = (s.cg p).bg := fun p =>
    createWorkspaces_field fun _ _ _ => rfl
  constructor
  · intro h
    exact h.congr (fun p => (hbg p).symm) fun p hp => by rw [hlive]; exact hp
  · intro h
    exact h.congr hbg fun p hp => by rw [hlive] at hp; exact hp

/-! ### Events -/

/-- A server whose outputs have rectangles, each output being in one list. -/
structure Backed (s : OutputServer) : Prop where
  listed : s.Listed
  painted : s.Painted

theorem reinited_redrawn_iff (hw : s.waiting name = some o) :
    ((s.reinited o).cg o).Redrawn (totalConfig s.outputConfig (s.cg o).name) answer
      ((s.reinited o).hasSceneOutput o) (s.reinited o).outputs.length ↔
    { s.cg o with destroyed := false }.Redrawn (totalConfig s.outputConfig name) answer true
      s.outputs.length := by
  have hshown : (s.reinited o).hasSceneOutput o = true := by
    rw [hasSceneOutput, reinited_cg_self]
    exact Function.update_self ..
  rw [hshown, reinited_cg_self, (waiting_mem hw).2.1]
  exact Iff.rfl

theorem added_redrawn_iff :
    ((s.added name).cg s.top).Redrawn (totalConfig s.outputConfig name) answer
      ((s.added name).hasSceneOutput s.top) (s.added name).outputs.length ↔
    (s.newOutput name).Redrawn (totalConfig s.outputConfig name) answer true
      (s.outputs.length + 1) := by
  have hshown : (s.added name).hasSceneOutput s.top = true := by
    rw [hasSceneOutput, added_cg_self]
    exact Function.update_self ..
  have hperm : (s.added name).outputs.Perm (s.top :: s.outputs) := outputInsert_perm
  rw [hshown, added_cg_self, hperm.length_eq, List.length_cons]
  exact Iff.rfl

/-- **One event.**  All outputs that have rectangles keep or renew them exactly
if a configuration that the event applies leaves its output with one. -/
theorem step_painted_iff (h : s.Backed) :
    Meets (s.step e) (fun _ => True) fun s' => s'.Painted ↔ s.Repaints e := by
  have hlive : ∀ p, p ∈ s.outputs ∨ p ∈ s.disabledOutputs → s.live p = true := fun p hp =>
    (h.listed.live_iff p).mpr hp
  have hsame : ∀ {s' : OutputServer}, (∀ p, (s'.cg p).bg = (s.cg p).bg) → s'.live = s.live →
      (s'.Painted ↔ True) := by
    intro s' hbg hl
    exact iff_true_intro (h.painted.congr hbg fun p hp => by rw [← hl, hp])
  cases e with
  | plug name answer =>
    show Meets (s.handleNewOutput name answer) _ _
    rw [handleNewOutput]
    cases hw : s.waiting name with
    | some o =>
      -- a permanent output of that name comes back
      have hl := hlive o (.inl (waiting_mem hw).1)
      have hbut : (s.reinited o).PaintedBut o := by
        intro p hp hlp
        rw [reinited_cg_of_ne hp]
        exact h.painted p hlp
      refine (reinitOutput_spec hl).mono (fun _ _ => trivial) fun s' hs' => ?_
      have hl' : (s.reinited o).live o = true := hl
      rw [painted_configured_iff hbut hl' hs', reinited_redrawn_iff hw, Repaints, hw]
      constructor
      · intro hre
        refine ⟨fun p hp => ?_, fun hno => absurd hno (Option.some_ne_none o)⟩
        rw [← Option.some.inj hp]
        exact hre
      · intro hre
        exact hre.1 o rfl
    | none =>
      -- all outputs but the new one are painted
      have hbut : (s.added name).PaintedBut s.top := by
        intro p hp hlp
        rw [added_cg_of_ne hp]
        rw [added_live_of_ne hp] at hlp
        exact h.painted p hlp
      refine addOutput_spec.mono (fun _ _ => trivial) ?_
      rintro _ ⟨s₁, hs₁, rfl⟩
      rw [painted_createWorkspaces_iff, painted_configured_iff hbut added_live_self hs₁,
        added_redrawn_iff, Repaints, hw]
      constructor
      · intro hnew
        exact ⟨fun o ho => absurd ho.symm (Option.some_ne_none o), fun _ => hnew⟩
      · intro hnew
        exact hnew.2 rfl
  | unplug o =>
    refine Meets.ite (fun hc => ?_) fun _ => Meets.ok (iff_true_intro h.painted)
    have hl : s.live o = true := (Bool.and_eq_true_iff.mp hc).1
    refine (outputDestroy_spec hl).mono (fun _ _ => trivial) fun s' hs' => ?_
    obtain ⟨hbg, hothers, hself⟩ := destroyed_bg hs'
    refine iff_true_intro (h.painted.congr hbg fun p hp => ?_)
    -- the background of a freed output is destroyed with it
    by_cases hpo : p = o
    · rw [hpo, hl]
    · rw [← hothers p hpo, hp]
  | configure cfg answer =>
    have hbut : ∀ o, (s.recorded cfg).PaintedBut o := fun o => h.painted.but
    refine (keybindingConfigureOutput_spec hlive).mono (fun _ _ => trivial) ?_
    rintro s' (⟨hnone, rfl⟩ | ⟨o, ho, hs'⟩)
    · refine iff_of_true h.painted fun o ho => ?_
      rw [hnone] at ho
      exact absurd ho.symm (Option.some_ne_none o)
    · have hl : (s.recorded cfg).live o = true := hlive o (named_mem ho).1
      rw [painted_configured_iff (hbut o) hl hs', Repaints]
      constructor
      · intro hre p hp
        rw [ho] at hp
        rw [← Option.some.inj hp]
        exact hre
      · intro hre
        exact hre o ho
  | workspaces nws =>
    refine (keybindingSetNws_spec nws.2.1 h.listed.outputs fun p hp => hlive p (.inl hp)).mono
      (fun _ _ => trivial) ?_
    rintro _ ⟨cg, hcg, rfl⟩
    exact hsame (fun p => (hcg.same p).bg) rfl
  | cycleOutputs reverse =>
    refine (keybindingCycleOutputs_spec reverse).mono (fun _ _ => trivial) ?_
    rintro _ ⟨c, -, rfl⟩
    exact hsame (fun _ => rfl) rfl
  | switchOutput output =>
    refine (keybindingSwitchOutput_spec output).mono (fun _ _ => trivial) ?_
    rintro _ (rfl | ⟨c, -, rfl⟩)
    · exact hsame (fun _ => rfl) rfl
    · exact hsame (fun _ => rfl) rfl
  | switchWs ws =>
    refine (keybindingSwitchWs_spec ws).mono (fun _ _ => trivial) ?_
    rintro _ (rfl | ⟨-, o, -, rfl⟩)
    · exact hsame (fun _ => rfl) rfl
    · refine hsame (fun p => ?_) rfl
      by_cases hpo : p = o
      · subst hpo
        rw [modify_cg_self]
      · rw [modify_cg_of_ne hpo]
  | quit => exact Meets.ok (hsame (fun _ => rfl) rfl)

theorem init_backed (prios : List (Text × ℤ)) : (init prios).Backed :=
  ⟨init_listed prios, fun _ ho => absurd ho Bool.false_ne_true⟩

theorem followBg_eq_ok (h : s.Painted) (hl : s.live o = true) : s.followBg o = .ok () := by
  rw [followBg, hl, h o hl]
  rfl

theorem forM_followBg {l : List ℕ} (h : s.Painted) (hl : ∀ o ∈ l, s.live o = true) :
    l.forM s.followBg = .ok () := by
  induction l with
  | nil => rfl
  | cons o l ih =>
    show (s.followBg o >>= fun _ => l.forM s.followBg) = _
    rw [followBg_eq_ok h (hl o List.mem_cons_self)]
    exact ih fun p hp => hl p (List.mem_cons_of_mem _ hp)

end OutputServer

namespace BackgroundServer

open OutputServer

variable {Color : Type} {s : BackgroundServer Color}

/-- A configuration that an event applies leaves its output with a rectangle. -/
def Repaints (s : BackgroundServer Color) : BackgroundEvent Color → Prop
  | .output e => s.server.Repaints e
  | _ => True

instance {e : BackgroundEvent Color} : Decidable (s.Repaints e) :=
  match e with
  | .output e => inferInstanceAs (Decidable (s.server.Repaints e))
  | .background _ | .focus _ => isTrue trivial

/-- With rectangles everywhere, setting their color finds all of them. -/
theorem keybindingSetBackground_eq (h : s.server.Backed) (bg : Color) :
    s.keybindingSetBackground bg = .ok { s with bgColor := bg } := by
  have hout : s.server.outputs.forM s.server.followBg = .ok () :=
    forM_followBg h.painted fun o ho => (h.listed.live_iff o).mpr (.inl ho)
  have hdis : s.server.disabledOutputs.forM s.server.followBg = .ok () :=
    forM_followBg h.painted fun o ho => (h.listed.live_iff o).mpr (.inr ho)
  show (s.server.outputs.forM s.server.followBg >>= fun _ =>
    s.server.disabledOutputs.forM s.server.followBg >>= fun _ => .ok { s with bgColor := bg }) = _
  rw [hout, hdis]
  rfl

theorem seatSetFocus_eq {o : ℕ} (h : s.server.Painted) (hl : s.server.live o = true) :
    s.seatSetFocus o = .ok s := by
  rw [seatSetFocus, followBg_eq_ok h hl]
  rfl

theorem step_backed (h : s.server.Backed) (e : BackgroundEvent Color) :
    Meets (s.step e) (fun _ => True) fun s' =>
      s'.server.Listed ∧ (s'.server.Painted ↔ s.Repaints e) := by
  cases e with
  | output e =>
    rw [step]
    cases hs : s.server.step e with
    | error err => exact Meets.error trivial
    | ok t =>
      have hlisted : t.Listed := (step_listed h.listed).of_ok hs
      have hpainted : t.Painted ↔ s.server.Repaints e := (step_painted_iff h).of_ok hs
      exact Meets.ok ⟨hlisted, hpainted⟩
  | background bg =>
    rw [step, keybindingSetBackground_eq h]
    exact Meets.ok ⟨h.listed, iff_of_true h.painted trivial⟩
  | focus o =>
    rw [step]
    refine Meets.ite (fun hl => ?_) fun _ => Meets.ok ⟨h.listed, iff_of_true h.painted trivial⟩
    rw [seatSetFocus_eq h.painted hl]
    exact Meets.ok ⟨h.listed, iff_of_true h.painted trivial⟩

/-- **The rectangles are there.**  In every run in which each configuration that
is applied leaves its output with a rectangle, each output in a list has one in
every state, and neither `background` nor the focus follows a `NULL` pointer.
The first event that applies another configuration leaves an output without. -/
theorem backgrounds_painted {prios : List (Text × ℤ)} {bgColor : Color} :
    (∀ s, Runs step Repaints (init prios bgColor) s →
      (∀ o ∈ s.server.outputs ++ s.server.disabledOutputs,
        s.server.live o = true ∧ (s.server.cg o).bg = true) ∧
      (∀ bg, s.keybindingSetBackground bg = .ok { s with bgColor := bg }) ∧
      ∀ o, s.server.live o = true → s.seatSetFocus o = .ok s) ∧
    ∀ s e s', Runs step Repaints (init prios bgColor) s → s.step e = .ok s' → ¬ s.Repaints e →
      ∃ o ∈ s'.server.outputs ++ s'.server.disabledOutputs, (s'.server.cg o).bg = false := by
  have hinv : ∀ s, Runs step Repaints (init prios bgColor) s → s.server.Backed := by
    intro s hs
    refine hs.invariant (E := fun _ => True) (I := fun s => s.server.Backed) (init_backed prios)
      fun t e ht hok => ?_
    exact (step_backed ht e).mono (fun _ h => h) fun t' ht' => ⟨ht'.1, ht'.2.mpr hok⟩
  constructor
  · intro s hs
    have h := hinv s hs
    refine ⟨fun o ho => ?_, keybindingSetBackground_eq h, fun o hl => seatSetFocus_eq h.painted hl⟩
    have hl := (h.listed.live_iff o).mpr (List.mem_append.mp ho)
    exact ⟨hl, h.painted o hl⟩
  · intro s e s' hs hstep hno
    obtain ⟨hlisted, hiff⟩ := (step_backed (hinv s hs) e).of_ok hstep
    have hbare : ¬ s'.server.Painted := fun h => hno (hiff.mp h)
    rw [Painted, not_forall] at hbare
    obtain ⟨o, ho⟩ := hbare
    rw [Classical.not_imp, Bool.not_eq_true] at ho
    exact ⟨o, List.mem_append.mpr ((hlisted.live_iff o).mp ho.1), ho.2⟩

/-- Two monitors; a mode is accepted for the first of them, and a color is set. -/
def modeAndColor : List (BackgroundEvent Unit) :=
  [.output (.plug (ascii "A") agrees), .output (.plug (ascii "B") agrees),
    .output (.configure modeForA agrees), .background (), .focus 2]

/-- Both have their rectangles. -/
theorem backgrounds_painted_first : ∃ s : BackgroundServer Unit,
    Runs step Repaints (init [] ()) s ∧ (0 ∈ s.server.outputs ∧ (s.server.cg 0).bg = true) ∧
      2 ∈ s.server.outputs ∧ (s.server.cg 2).bg = true := by
  have hcheck : checked step Repaints (fun s : BackgroundServer Unit =>
      decide (0 ∈ s.server.outputs) && decide (2 ∈ s.server.outputs)) (init [] ())
        modeAndColor = true := by decide
  obtain ⟨s, hs, htest⟩ := exists_of_checked hcheck
  simp only [Bool.and_eq_true, decide_eq_true_eq] at htest
  obtain ⟨h0, h2⟩ := htest
  obtain ⟨hpainted, -⟩ := backgrounds_painted.1 s hs
  exact ⟨s, hs, ⟨h0, (hpainted 0 (List.mem_append_left _ h0)).2⟩, h2,
    (hpainted 2 (List.mem_append_left _ h2)).2⟩

/-- Two monitors, one of which is disabled. -/
def disabledMonitor : List (BackgroundEvent Unit) :=
  [.output (.plug (ascii "A") agrees), .output (.plug (ascii "B") agrees), .output disableB]

/-- `output B prio 3`. -/
def prioB : BackgroundEvent Unit :=
  .output (.configure
    { emptyOutputConfig with outputName := some (ascii "B"), priority := 3 } agrees)

/-- The rectangle of the output that is disabled is gone when `background` looks
for it; with a new priority the output is enabled again, and still has none when
a view on it gets the focus. -/
theorem backgrounds_painted_disabled :
    (∃ s, Runs step (fun _ _ => True) (init [] ()) s ∧ 2 ∈ s.server.disabledOutputs ∧
      (s.server.cg 2).bg = false ∧ s.step (.background ()) = .error .null) ∧
    ∃ s, Runs step (fun _ _ => True) (init [] ()) s ∧ 2 ∈ s.server.outputs ∧
      (s.server.cg 2).bg = false ∧ s.step (.focus 2) = .error .null := by
  have hdis : returns (disabledMonitor.foldlM step (init [] ())) (fun s =>
      decide (2 ∈ s.server.disabledOutputs) && !(s.server.cg 2).bg &&
        fails (s.step (.background ())) .null) = true := by decide
  have hprio : returns ((disabledMonitor ++ [prioB]).foldlM step (init [] ())) (fun s =>
      decide (2 ∈ s.server.outputs) && !(s.server.cg 2).bg &&
        fails (s.step (.focus 2)) .null) = true := by decide
  obtain ⟨s, hs, htest⟩ := exists_of_returns hdis
  obtain ⟨t, ht, htest'⟩ := exists_of_returns hprio
  simp only [Bool.and_eq_true, Bool.not_eq_true', decide_eq_true_eq] at htest htest'
  exact ⟨⟨s, Runs.of_foldlM hs, htest.1.1, htest.1.2, eq_error_of_fails htest.2⟩,
    ⟨t, Runs.of_foldlM ht, htest'.1.1, htest'.1.2, eq_error_of_fails htest'.2⟩⟩

end BackgroundServer

end Cagebreak
