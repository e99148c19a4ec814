/-
The current output in every run.

Until the display is terminated the current output is one of the connected ones, and
the current workspace of every output is one of its workspaces.

* `runAction_running` — every command keeps this;
* `step_running` — every input does;
* `focusedTile_placed` — so there is a focused tile whenever an output is connected.
-/
import Cagebreak.ShownUnplug

namespace Cagebreak

open Exec Server

namespace Server

variable {s s' s'' : Server} {t m : TilePtr} {v : ViewPtr} {w : WsPtr} {o : OutPtr}

/-! ### Operations that keep the outputs -/

/-- An operation keeps what is connected, the number of workspaces, and that there is
a current output. -/
structure Turns (s s' : Server) : Prop extends Turned s s' where
  nws : s'.outs.nws = s.outs.nws
  started : s'.outs.currOutput = none → s.outs.currOutput = none

theorem Turns.refl (hc : CurrentInv s.outs) : Turns s s := ⟨⟨hc, rfl⟩, rfl, id⟩

theorem Turns.trans (h : Turns s s') (h' : Turns s' s'') : Turns s s'' :=
  ⟨h.toTurned.trans h'.toTurned, h'.nws.trans h.nws, fun hn => h.started (h'.started hn)⟩

theorem turns_of_outs (h : s'.outs = s.outs) (hc : CurrentInv s.outs) : Turns s s' := by
  refine ⟨⟨?_, by rw [h]⟩, by rw [h], by rw [h]; exact id⟩
  rw [h]
  exact hc

theorem KeepsLayout.turns_of (h : KeepsLayout s s') (hc : CurrentInv s.outs) : Turns s s' :=
  turns_of_outs h.outs hc

theorem KeepsLayout.turning {m : Exec Server} (hm : Ensures m (KeepsLayout s))
    (hc : CurrentInv s.outs) : Ensures m (Turns s) :=
  hm.mono fun _ h => h.turns_of hc

theorem Turns.bind {m : Exec Server} {f : Server → Exec Server} (hm : Ensures m (Turns s))
    (hf : ∀ s₁, m = .ok s₁ → CurrentInv s₁.outs → Ensures (f s₁) (Turns s₁)) :
    Ensures (m >>= f) (Turns s) :=
  Ensures.bind_any fun s₁ h₁ => (hf s₁ h₁ (hm s₁ h₁).current).mono fun _ h₂ => (hm s₁ h₁).trans h₂

theorem emit_turns {e : Event} (hc : CurrentInv s.outs) : Turns s (s.emit e) := turns_of_outs rfl hc

/-! ### Changing the current output, workspace and tile -/

theorem setOutput_turns (hc : CurrentInv s.outs) (ho : o ∈ s.outs.outputs) :
    Ensures (s.setOutput o) (Turns s) := by
  refine ((setOutput_turned hc ho).and setOutput_outs).mono ?_
  rintro s' ⟨h, -, houts⟩
  refine ⟨h, by rw [houts], fun hn => ?_⟩
  rw [houts] at hn
  exact absurd hn (Option.some_ne_none o)

theorem keybindingCycleOutputs_turns (hc : CurrentInv s.outs) {reverse triggerEvent : Bool} :
    Ensures (s.keybindingCycleOutputs reverse triggerEvent) (Turns s) := by
  refine Ensures.bind_any fun old _ => Ensures.nonNull fun o ho =>
    Ensures.bind (setOutput_turns hc (mem_of_cycleOutput ho)) fun s₁ h₁ => Ensures.ok ?_
  cases triggerEvent with
  | false => exact h₁
  | true => exact h₁.trans (emit_turns h₁.current)

theorem mem_of_outputFromNum {O : Outputs} {num : ℕ} (h : O.outputFromNum num = some o) :
    o ∈ O.outputs := by
  rw [Outputs.outputFromNum] at h
  split at h
  · cases h
  · exact List.mem_of_getElem? h

theorem keybindingSwitchOutput_turns (hc : CurrentInv s.outs) {num : ℕ} :
    Ensures (s.keybindingSwitchOutput num) (Turns s) :=
  Ensures.bind_any fun _ _ => Ensures.ifSome (fun _ => .refl hc) fun _ ho =>
    Ensures.bind (setOutput_turns hc (mem_of_outputFromNum ho)) fun _ h₁ =>
      Ensures.ok (h₁.trans (emit_turns h₁.current))

theorem workspaceFocus_turns (hc : CurrentInv s.outs) {ws : ℕ} :
    Ensures (s.workspaceFocus o ws) (Turns s) := by
  refine ((workspaceFocus_turned hc).and workspaceFocus_spec).mono ?_
  rintro s' ⟨h, ⟨rfl, -⟩ | ⟨rfl, -⟩⟩
  · exact .refl hc
  · exact ⟨h, rfl, id⟩

theorem keybindingSwitchWs_turns (hc : CurrentInv s.outs) {ws : ℕ} :
    Ensures (s.keybindingSwitchWs ws) (Turns s) := by
  refine Ensures.ite (fun _ => Ensures.ok (.refl hc)) fun _ => Ensures.bind_any fun _ _ => ?_
  refine Turns.bind (workspaceFocus_turns hc) fun s₁ _ hc₁ => ?_
  refine Ensures.bind_any fun _ _ => Ensures.bind_any fun _ _ =>
    Turns.bind (KeepsLayout.turning seatSetFocus_keeps hc₁) fun s₂ _ hc₂ => Ensures.ok ?_
  exact emit_turns hc₂

theorem workspaceFocusTile_turns (hc : CurrentInv s.outs) :
    Ensures (s.workspaceFocusTile w t) (Turns s) := by
  refine workspaceFocusTile_spec.mono ?_
  rintro s' ⟨-, rfl⟩
  exact turns_of_outs rfl hc

theorem keybindingFocusTile_turns (h : WellFormed False s) (hc : CurrentInv s.outs) {tileId : ℕ} :
    Ensures (s.keybindingFocusTile tileId) (Turns s) := by
  refine Ensures.mono (keybindingFocusTile_cases h) ?_
  rintro s' (⟨-, rfl⟩ | ⟨t, s₁, s₂, s₃, s₄, e, ht, hs₁, hs₂, -, hs₃, -, hs₄, rfl⟩)
  · exact .refl hc
  · have h₁ : Turns s s₁ := by
      rcases hs₁ with rfl | hs₁
      · exact .refl hc
      · exact setOutput_turns hc (tileFromId_placed h _ ht t rfl).1.output _ hs₁
    have h₂ : Turns s₁ s₂ := by
      rcases hs₂ with rfl | hs₂
      · exact .refl h₁.current
      · exact keybindingSwitchWs_turns h₁.current _ hs₂
    have h₃ := workspaceFocusTile_turns h₂.current _ hs₃
    have h₄ := (seatSetFocus_keeps _ hs₄).turns_of h₃.current
    exact (((h₁.trans h₂).trans h₃).trans h₄).trans (emit_turns h₄.current)

theorem keybindingCycleTiles_turns (h : WellFormed False s) (hc : CurrentInv s.outs)
    {reverse : Bool} : Ensures (s.keybindingCycleTiles reverse) (Turns s) :=
  Ensures.bind_any fun _ _ => Ensures.deref fun _ => Ensures.nonNull fun _ _ =>
    Ensures.deref fun _ => keybindingFocusTile_turns h hc

theorem focusTile_turns (hc : CurrentInv s.outs) {dir : Direction} :
    Ensures (s.focusTile dir t) (Turns s) := by
  refine Ensures.bind_any fun _ _ => Ensures.ifSome (fun _ => .refl hc) fun n _ => ?_
  exact Turns.bind (workspaceFocusTile_turns hc) fun s₁ _ hc₁ =>
    KeepsLayout.turning seatSetFocus_keeps hc₁

theorem mergeTile_outs {dir : Direction} :
    Ensures (s.mergeTile dir t) fun s' => s'.outs = s.outs := by
  refine Ensures.bind_any fun found _ => Ensures.ifSome (fun _ => rfl) fun m _ =>
    Ensures.ite (fun _ => Ensures.ok rfl) fun _ => ?_
  refine Ensures.bind workspaceTileUpdateView_keeps fun s₁ h₁ => ?_
  refine Ensures.nonNull fun p _ => Ensures.nonNull fun n _ => ?_
  refine Ensures.bind (Ensures.ifSome (fun _ => .refl) fun _ _ =>
    SameLayout.keeps viewMaximize_sameLayout) fun s₂ h₂ => Ensures.bind_any fun place _ => ?_
  obtain ⟨ws, output, outputId⟩ := place
  exact Ensures.ok (h₂.outs.trans h₁.outs)

theorem swapTiles_turns (h : WellFormed False s) (hc : CurrentInv s.outs)
    {tile swapTile : Option TilePtr} {follow : Bool} :
    Ensures (s.swapTiles tile swapTile follow) (Turns s) := by
  unfold swapTiles
  split
  · next a b =>
    refine Ensures.ite (fun _ => Ensures.ok (.refl hc)) fun _ => Ensures.deref fun _ => ?_
    refine Ensures.bind workspaceTileUpdateView_keeps fun s₁ h₁ => ?_
    refine Ensures.bind workspaceTileUpdateView_keeps fun s₂ h₂ => ?_
    refine Ensures.bind workspaceTileUpdateView_keeps fun s₃ h₃ => ?_
    have hk := (h₁.trans h₂).trans h₃
    refine Turns.bind (Ensures.mono (P := Turns s₃) ?_ fun _ h' => (hk.turns_of hc).trans h')
      fun s₄ _ hc₄ => Ensures.bind_any fun place _ => ?_
    · have hc₃ := (hk.turns_of hc).current
      exact Ensures.ite (fun _ => keybindingFocusTile_turns (hk.wellFormed h) hc₃)
        fun _ => KeepsLayout.turning (SameLayout.keeps refocus_sameLayout) hc₃
    · obtain ⟨ws, output, outputId⟩ := place
      exact Ensures.ok (emit_turns hc₄)
  · exact Ensures.ok (.refl hc)

theorem swapTile_turns (h : WellFormed False s) (hc : CurrentInv s.outs) {tileId : ℕ}
    {dir : Direction} {follow : Bool} : Ensures (s.swapTile tileId dir follow) (Turns s) :=
  Ensures.bind_any fun _ _ => Ensures.ifSome (fun _ => .refl hc) fun _ _ =>
    Ensures.bind_any fun _ _ => swapTiles_turns h hc

theorem keybindingSplitOutput_outs {vertical : Bool} {percentage : Percentage} :
    Ensures (s.keybindingSplitOutput o vertical percentage) fun s' => s'.outs = s.outs := by
  refine Ensures.bind_any fun w _ => Ensures.bind_any fun f _ => Ensures.deref fun _ =>
    Ensures.ite (fun _ => Ensures.ok rfl) fun _ => Ensures.bind_any fun nextView _ =>
    Ensures.nonNull fun c _ => ?_
  refine Ensures.bind workspaceTileUpdateView_keeps fun s₁ h₁ => ?_
  refine Ensures.bind (P := fun s₂ => s₂.outs = s₁.outs) (workspaceFocusTile_spec.mono ?_)
    fun s₂ h₂ => ?_
  · rintro s₂ ⟨-, rfl⟩
    rfl
  refine Ensures.bind (Ensures.ifSome (fun _ => .refl) fun _ _ =>
    SameLayout.keeps viewMaximize_sameLayout) fun s₃ h₃ => ?_
  refine Ensures.bind (Ensures.ifSome (fun _ => .refl) fun _ _ =>
    SameLayout.keeps viewMaximize_sameLayout) fun s₄ h₄ => Ensures.bind_any fun place _ => ?_
  obtain ⟨ws, output, outputId⟩ := place
  exact Ensures.ok (((h₄.outs.trans h₃.outs).trans h₂).trans h₁.outs)

theorem keybindingWorkspaceFullscreen_outs (h : WellFormed False s) {screen workspace : ℕ} :
    Ensures (s.keybindingWorkspaceFullscreen screen workspace) fun s' => s'.outs = s.outs := by
  refine Ensures.bind_any fun cur _ => Ensures.ifSome (fun _ => rfl) fun o _ =>
    Ensures.ite (fun _ => Ensures.ok rfl) fun _ => ?_
  refine Ensures.bind (P := fun s₁ => s₁.outs = s.outs) ?_ fun s₁ h₁ =>
    Ensures.bind_any fun _ _ => Ensures.bind_any fun _ _ => Ensures.ok h₁
  refine Ensures.ite (fun _ => Ensures.ok rfl) fun _ => Ensures.bind_any fun w _ =>
    Ensures.bind_any fun f _ => Ensures.deref fun _ => Ensures.bind_any fun current _ => ?_
  refine Ensures.bind (workspaceFreeTiles_inv h) fun s₁ ⟨h₁, hw₁, ho₁⟩ => ?_
  refine Ensures.bind (fullScreenWorkspaceTiles_inv h₁ hw₁) fun s₂ ⟨_, ho₂⟩ => ?_
  refine Ensures.bind_any fun f' _ => Ensures.bind_any fun l _ =>
    Ensures.bind workspaceTileUpdateView_keeps fun s₃ h₃ => ?_
  have ho₃ : s₃.outs = s.outs :=
    ((h₃.outs.trans pointViewsAt_keeps.outs).trans ho₂).trans ho₁
  exact Ensures.ite (fun _ => seatSetFocus_keeps.mono fun _ h₄ => h₄.outs.trans ho₃)
    fun _ => Ensures.ok ho₃

theorem resizeTile_outs (h : WellFormed False s) {hpixs vpixs : ℤ} {tileId : ℕ} :
    Ensures (s.resizeTile hpixs vpixs tileId) fun s' => s'.outs = s.outs := by
  have halong : ∀ s₁ : Server, WellFormed False s₁ → ∀ (a : Axis) (p : OutPtr) (t : TilePtr) pixs,
      Ensures (s₁.resizeAlong a p t pixs) fun s' => s'.outs = s₁.outs := fun s₁ h₁ a p t pixs =>
    Ensures.deref fun _ => Ensures.ite (fun _ => Ensures.bind_any fun _ _ =>
      Ensures.ite (fun _ => (resize_inv h₁).mono fun _ h' => h'.2) fun _ => Ensures.ok rfl)
      fun _ => Ensures.ok rfl
  refine Ensures.bind_any fun _ _ => Ensures.bind_any fun _ _ => Ensures.bind_any fun _ _ =>
    Ensures.ifSome (fun _ => rfl) fun _ _ => ?_
  refine Ensures.bind ((halong s h _ _ _ _).and (resizeAlong_wellFormed h)) fun s₁ h₁ => ?_
  exact (halong s₁ h₁.2 _ _ _ _).mono fun _ h₂ => h₂.trans h₁.1

/-! ### Moving views -/

theorem keybindingMoveViewToTile_turns (h : WellFormed False s) (hc : CurrentInv s.outs)
    {viewId tileId : ℕ} {follow : Bool} :
    Ensures (s.keybindingMoveViewToTile viewId tileId follow) (Turns s) := by
  refine Ensures.bind_any fun view _ => Ensures.bind_any fun tile _ =>
    Ensures.bind_any fun old _ => ?_
  obtain ⟨oldOutput, oldWs⟩ := old
  refine Ensures.ifSome (fun _ => .refl hc) fun t _ => ?_
  have hmove : Ensures (view.elim (s.emptyTile t) fun v => do
      let s ← s.takeView v
      s.putView v t) (KeepsLayout s) := by
    cases view with
    | none => exact emptyTile_keeps
    | some v => exact KeepsLayout.bind takeView_keeps fun _ _ => putView_keeps
  refine Ensures.bind hmove fun s₁ h₁ => ?_
  have hc₁ := (h₁.turns_of hc).current
  refine Ensures.mono (P := Turns s₁) ?_ fun _ h' => (h₁.turns_of hc).trans h'
  refine Turns.bind (Ensures.ite (fun _ => keybindingFocusTile_turns (h₁.wellFormed h) hc₁)
    fun _ => Ensures.ifSome (fun _ => .refl hc₁)
      fun _ _ => KeepsLayout.turning workspaceTileUpdateView_keeps hc₁) fun s₂ _ hc₂ => ?_
  exact Ensures.bind_any fun _ _ => Ensures.bind_any fun _ _ => Ensures.ok (emit_turns hc₂)

theorem keybindingMoveViewToOutput_turns (h : WellFormed False s) (hc : CurrentInv s.outs)
    {viewId outputNum : ℕ} {follow : Bool} :
    Ensures (s.keybindingMoveViewToOutput viewId outputNum follow) (Turns s) :=
  Ensures.ifSome (fun _ => .refl hc) fun _ _ => Ensures.bind_any fun _ _ =>
    Ensures.bind_any fun _ _ => keybindingMoveViewToTile_turns h hc

theorem keybindingMoveViewToWorkspace_turns (h : WellFormed False s) (hc : CurrentInv s.outs)
    {viewId ws : ℕ} {follow : Bool} :
    Ensures (s.keybindingMoveViewToWorkspace viewId ws follow) (Turns s) :=
  Ensures.ite (fun _ => Ensures.ok (.refl hc)) fun _ => Ensures.bind_any fun _ _ =>
    Ensures.bind_any fun _ _ => Ensures.bind_any fun _ _ => keybindingMoveViewToTile_turns h hc

theorem keybindingMoveViewToCycleOutput_turns (hc : CurrentInv s.outs) {reverse : Bool} :
    Ensures (s.keybindingMoveViewToCycleOutput reverse) (Turns s) := by
  refine Ensures.ite (fun _ => Ensures.ok (.refl hc)) fun _ => Ensures.bind_any fun old _ =>
    Ensures.bind_any fun f _ => ?_
  refine Turns.bind (Ensures.ifSome (fun _ => .refl hc)
    fun _ _ => KeepsLayout.turning leaveView_keeps hc) fun s₁ _ hc₁ => ?_
  refine Turns.bind (keybindingCycleOutputs_turns hc₁) fun s₂ _ hc₂ => ?_
  refine Turns.bind (Ensures.ifSome (fun _ => .refl hc₂)
    fun _ _ => KeepsLayout.turning arriveView_keeps hc₂) fun s₃ _ hc₃ => ?_
  exact Ensures.bind_any fun _ _ => Ensures.bind_any fun _ _ => Ensures.bind_any fun _ _ =>
    Ensures.bind_any fun _ _ => Ensures.ok (emit_turns hc₃)

/-! ### The number of workspaces -/

theorem freeTilesLoop_outs {n : ℕ} : Ensures (freeTilesLoop w n s) fun s' => s'.outs = s.outs := by
  induction n generalizing s with
  | zero => exact Ensures.error
  | succ n ih =>
    unfold freeTilesLoop
    split
    · exact Ensures.ok rfl
    · exact Ensures.deref fun _ => ih

theorem workspaceFree_outs : Ensures (s.workspaceFree w) fun s' => s'.outs = s.outs := by
  refine Ensures.bind (P := fun s₁ => s₁.outs = s.outs) ?_ fun s₁ h₁ => Ensures.ok h₁
  exact Ensures.bind_any fun f _ => Ensures.deref fun _ => Ensures.nonNull fun p _ =>
    freeTilesLoop_outs

theorem newWorkspace_outs {num : ℕ} : Ensures (s.newWorkspace o num) fun p =>
    p.2.outs = s.outs :=
  Ensures.bind (P := fun s₁ => s₁.outs = s.outs)
    (Ensures.deref fun _ => workspaceTileUpdateView_keeps.mono fun _ h => h.outs)
    fun _ h₁ => Ensures.ok h₁

/-- New workspaces only go to the array of the output. -/
theorem addWorkspaces_outs {l : List ℕ} : Ensures (l.foldlM (addWorkspace o) s) fun s' =>
    s'.outs = { s.outs with outWorkspaces := s'.outs.outWorkspaces } := by
  refine Ensures.foldlM (fun s₁ i _ h₁ => ?_) rfl
  refine addWorkspace_ensures (newWorkspace_outs.mono fun p hp => ?_)
  obtain ⟨w, s₂⟩ := p
  have h₂ : s₂.outs = { s.outs with outWorkspaces := s₁.outs.outWorkspaces } := hp.trans h₁
  rw [setWorkspaces, h₂]

/-- **`keybinding_set_nws`** lets an output show a workspace that is left. -/
theorem outputSetNws_outs {oldNws nws : ℕ} (hn : 1 ≤ nws) :
    Ensures (outputSetNws oldNws nws s o) fun s' => s'.outs = { s.outs with
      outWorkspaces := s'.outs.outWorkspaces
      outCurr := Function.update s.outs.outCurr o (s'.outs.outCurr o) } ∧
      s'.outs.outCurr o < nws := by
  refine Ensures.bind (P := fun s₁ => s₁.outs = s.outs) (Ensures.foldlM (fun s₁ i _ h₁ => ?_) rfl)
    fun s₁ h₁ => ?_
  · refine Ensures.bind_any fun w _ => Ensures.bind_any fun last _ => Ensures.deref fun _ =>
      Ensures.bind moveViews_keeps fun s₂ h₂ => Ensures.bind moveViews_keeps fun s₃ h₃ => ?_
    exact workspaceFree_outs.mono fun s₄ h₄ => h₄.trans ((h₃.outs.trans h₂.outs).trans h₁)
  refine Ensures.bind addWorkspaces_outs fun s₂ h₂ => ?_
  have h₂' : s₂.outs = { s.outs with outWorkspaces := s₂.outs.outWorkspaces } := by
    rw [h₂, setWorkspaces, h₁]
  refine Ensures.ite (fun _ => workspaceFocus_spec.mono ?_) fun hlt => Ensures.ok ⟨?_, ?_⟩
  · rintro s₃ (⟨rfl, -⟩ | ⟨rfl, -⟩)
    · refine ⟨?_, ?_⟩
      · rw [h₂']
        simp
      · show Function.update s₂.outs.outCurr o 0 o < nws
        rw [Function.update_self]
        omega
    · refine ⟨?_, ?_⟩
      · rw [h₂']
        simp
      · show Function.update (Function.update s₂.outs.outCurr o 0) o (nws - 1) o < nws
        rw [Function.update_self]
        omega
  · rw [h₂']
    simp
  · omega

/-- What holds of the outputs while the display has not been terminated. -/
structure Running (s : Server) : Prop where
  current : CurrentInv s.outs
  nws : 1 ≤ s.outs.nws
  started : s.outs.outputs ≠ [] → s.outs.currOutput ≠ none

theorem Turns.running (h : Turns s s') (hs : s.Running) : s'.Running := by
  refine ⟨h.current, ?_, fun ho hn => hs.started ?_ (h.started hn)⟩
  · rw [h.nws]
    exact hs.nws
  · rwa [← h.outputs]

theorem Running.congr (h : s.Running) (houts : s'.outs.outputs = s.outs.outputs)
    (hcur : s'.outs.currOutput = s.outs.currOutput) (hcurr : s'.outs.outCurr = s.outs.outCurr)
    (hnws : s'.outs.nws = s.outs.nws) : s'.Running := by
  refine ⟨⟨?_, ?_⟩, ?_, ?_⟩
  · rw [hcur, houts]
    exact h.current.output
  · rw [houts, hcurr, hnws]
    exact h.current.workspace
  · rw [hnws]
    exact h.nws
  · rw [houts, hcur]
    exact h.started

theorem Running.of_turns {m : Exec Server} (hm : Ensures m (Turns s)) (hs : s.Running) :
    Ensures m Running :=
  hm.mono fun _ h => h.running hs

theorem keybindingSetNws_running (hs : s.Running) {nws : ℕ} (hn : 1 ≤ nws) :
    Ensures (s.keybindingSetNws nws) Running := by
  -- the outputs the loop has not been to yet may show a workspace that is gone
  have hloop : ∀ (l : List OutPtr) (s₁ : Server), (∀ o, s₁.outs.currOutput = some o →
      o ∈ s₁.outs.outputs) → s₁.outs.nws = nws → (∀ o ∈ s₁.outs.outputs, o ∉ l →
        s₁.outs.outCurr o < nws) → (s₁.outs.outputs ≠ [] → s₁.outs.currOutput ≠ none) →
      Ensures (l.foldlM (outputSetNws s.outs.nws nws) s₁) Running := by
    intro l
    induction l with
    | nil =>
      intro s₁ hout hnws hws hstarted
      refine Ensures.ok ⟨⟨hout, ?_⟩, ?_, hstarted⟩
      · rw [hnws]
        exact fun o ho => hws o ho List.not_mem_nil
      · rwa [hnws]
    | cons p l ih =>
      intro s₁ hout hnws hws hstarted
      rw [List.foldlM_cons]
      refine Ensures.bind (outputSetNws_outs hn) ?_
      rintro s₂ ⟨h₂, hp⟩
      refine ih s₂ ?_ ?_ ?_ ?_
      · rw [h₂]
        exact hout
      · rw [h₂]
        exact hnws
      · intro o ho hol
        by_cases hop : o = p
        · rwa [hop]
        · rw [h₂] at ho ⊢
          show Function.update s₁.outs.outCurr p _ o < nws
          rw [Function.update_of_ne hop]
          exact hws o ho fun hmem => (List.mem_cons.mp hmem).elim hop hol
      · rw [h₂]
        exact hstarted
  refine Ensures.bind (hloop _ _ hs.current.output rfl (fun o ho hno => absurd ho hno)
    hs.started) fun s₁ h₁ => ?_
  refine Ensures.bind (Running.of_turns (KeepsLayout.turning
    (SameLayout.keeps refocus_sameLayout) h₁.current) h₁) fun s₂ h₂ => Ensures.ok ?_
  exact (emit_turns h₂.current).running h₂

/-! ### Outputs that come and go -/

/-- The first output becomes the current one. -/
theorem handleNewOutput_running (hwf : WellFormed False s) (hs : s.Running) {name : String}
    {box : LayoutBox} : Ensures (s.handleNewOutput name box) Running := by
  have hfresh : s.outs.outTop ∉ s.outs.outputs := fun hmem => lt_irrefl _ (hwf.outs.out_lt _ hmem)
  refine Ensures.bind addWorkspaces_outs fun s₁ h₁ => ?_
  have hmem : ∀ o, o ∈ s₁.outs.outputs ↔ o = s.outs.outTop ∨ o ∈ s.outs.outputs := by
    intro o
    rw [h₁]
    exact outputInsert_perm.mem_iff.trans List.mem_cons
  have hcurr : s₁.outs.outCurr = Function.update s.outs.outCurr s.outs.outTop 0 := by rw [h₁]
  have hcur : s₁.outs.currOutput = s.outs.currOutput := by rw [h₁]
  have hnws : s₁.outs.nws = s.outs.nws := by rw [h₁]
  have h₁' : ∀ s₂ : Server, s₂.outs.outputs = s₁.outs.outputs → s₂.outs.nws = s₁.outs.nws →
      s₂.outs.currOutput = s₁.outs.currOutput.or (some s.outs.outTop) →
      (∀ o, s₂.outs.outCurr o = s₁.outs.outCurr o) → s₂.Running := by
    intro s₂ houts hn hc hws
    refine ⟨⟨fun o ho => ?_, fun o ho => ?_⟩, ?_, fun _ hnone => ?_⟩
    · rw [houts, hmem]
      rw [hc, hcur] at ho
      cases hold : s.outs.currOutput with
      | none =>
        rw [hold] at ho
        exact .inl (Option.some.inj ho).symm
      | some p =>
        rw [hold] at ho
        exact .inr (hs.current.output o (hold.trans ho))
    · rw [hws, hcurr, hn, hnws]
      rw [houts, hmem] at ho
      rcases ho with rfl | ho
      · rw [Function.update_self]
        exact hs.nws
      · have hne : o ≠ s.outs.outTop := fun e => hfresh (e ▸ ho)
        rw [Function.update_of_ne hne]
        exact hs.current.workspace o ho
    · rw [hn, hnws]
      exact hs.nws
    · rw [hc, Option.or_eq_none_iff] at hnone
      exact absurd hnone.2 (Option.some_ne_none _)
  refine Ensures.bind workspaceFocus_spec ?_
  rintro s₂ (⟨rfl, -⟩ | ⟨rfl, -⟩)
  · exact Ensures.ok (h₁' _ rfl rfl rfl fun _ => rfl)
  · refine Ensures.ok (h₁' _ rfl rfl rfl fun o => ?_)
    -- the first workspace is the current one already
    show Function.update s₁.outs.outCurr s.outs.outTop 0 o = _
    rw [hcurr, Function.update_idem]

/-- Before an output goes away another one becomes the current one. -/
theorem leaveOutput_turns (hc : CurrentInv s.outs) (hnd : s.outs.outputs.Nodup)
    (ho : o ∈ s.outs.outputs) :
    Ensures (if s.outs.currOutput = some o ∧ 1 < s.outs.outputs.length then
      s.keybindingCycleOutputs false true else .ok s) fun s' => Turns s s' ∧
      (s.outs.outputs.erase o ≠ [] → s'.outs.currOutput ≠ some o) := by
  refine Ensures.ite (fun hcur => ?_) fun hcur => Ensures.ok ⟨.refl hc, fun hne e => ?_⟩
  · refine (keybindingCycleOutputs_turns hc).and ?_
    refine Ensures.bind_any fun old hold => Ensures.nonNull fun p hp =>
      Ensures.bind setOutput_outs fun s₁ h₁ => Ensures.ok fun _ e => ?_
    obtain rfl : o = old := Option.some.inj (hcur.1.symm.trans (nonNull_eq_ok.mp hold))
    change s₁.outs.currOutput = some o at e
    rw [h₁.2] at e
    exact cycleOutput_ne hnd hcur.2 hp (Option.some.inj e)
  · refine hcur ⟨e, ?_⟩
    have := List.length_erase_of_mem ho
    have := List.length_pos_iff.mpr hne
    omega

/-- Emptying a workspace keeps the layout. -/
theorem clearWorkspace_keeps {i : ℕ} : Ensures (do
      let w ← s.outs.wsAt o i
      let l ← s.tiles.ringOf w
      let s ← l.foldlM (fun s t => s.workspaceTileUpdateView t none) s
      let wNew ← s.outs.curWs
      let s ← s.rehomeViews true w wNew
      s.rehomeViews false w wNew) (KeepsLayout s) := by
  refine Ensures.bind_any fun w _ => Ensures.bind_any fun l _ => ?_
  refine KeepsLayout.bind (Ensures.foldlM (fun s₁ t _ h₁ =>
    workspaceTileUpdateView_keeps.mono fun _ h₂ => h₁.trans h₂) .refl) fun s₁ _ => ?_
  exact Ensures.bind_any fun wNew _ => KeepsLayout.bind rehomeViews_keeps fun _ _ =>
    rehomeViews_keeps

/-- The display is terminated when the last output goes away. -/
theorem outputDestroy_running (hwf : WellFormed False s) (hs : s.Running)
    (ho : o ∈ s.outs.outputs) : Ensures (s.outputDestroy o) fun s' =>
      s'.terminated = false → s'.Running := by
  refine Ensures.bind (P := fun s₁ => s₁.outs.outputs ≠ [] → s₁.Running) ?_ fun s₁ h₁ => ?_
  · refine Ensures.bind (leaveOutput_turns hs.current hwf.outs.nodup ho) fun s₁ ⟨h₁, hcur₁⟩ =>
      Ensures.mono (Ensures.foldlM (fun s₂ i _ h₂ =>
        clearWorkspace_keeps.mono fun _ h' => h₂.trans h') KeepsLayout.refl) fun s₂ h₂ => ?_
    have hs₁ := h₁.running hs
    have houts : s₂.outs.outputs = s.outs.outputs.erase o := by rw [h₂.outs, h₁.outputs]
    refine fun hne => ⟨⟨fun p hp => ?_, fun p hp => ?_⟩, ?_, fun _ => ?_⟩
    · rw [houts] at hne
      rw [h₂.outs] at hp
      have hpo : p ≠ o := fun e => hcur₁ hne (e ▸ hp)
      rw [houts]
      refine (List.mem_erase_of_ne hpo).mpr ?_
      rw [← h₁.outputs]
      exact hs₁.current.output p hp
    · rw [houts] at hp
      rw [h₂.outs]
      refine hs₁.current.workspace p ?_
      rw [h₁.outputs]
      exact List.mem_of_mem_erase hp
    · rw [h₂.outs]
      exact hs₁.nws
    · rw [h₂.outs]
      refine hs₁.started ?_
      rw [h₁.outputs]
      exact List.ne_nil_of_mem ho
  -- freeing the workspaces changes no output
  refine Ensures.bind (P := fun s₂ => s₂.outs = s₁.outs) (Ensures.foldlM (fun s₂ i _ h₂ =>
    Ensures.bind_any fun w _ => Ensures.deref fun _ => workspaceFree_outs.mono
      fun s₃ h₃ => h₃.trans h₂) rfl) fun s₂ h₂ => Ensures.ok ?_
  split
  · intro hrun
    exact nomatch hrun
  · next hne =>
    intro _
    change ¬ s₂.outs.outputs = [] at hne
    rw [h₂] at hne
    refine (h₁ hne).congr ?_ ?_ ?_ ?_
    · show s₂.outs.outputs = _
      rw [h₂]
    · show s₂.outs.currOutput = _
      rw [h₂]
    · show s₂.outs.outCurr = _
      rw [h₂]
    · show s₂.outs.nws = _
      rw [h₂]

/-! ### Every input -/

theorem runAction_running (h : WellFormed False s) (hs : s.Running) {a : Action} :
    Ensures (s.runAction a) Running := by
  have hc := hs.current
  have houts : ∀ m : Exec Server, Ensures m (fun s' => s'.outs = s.outs) → Ensures m Running :=
    fun m hm => hm.mono fun _ ho => (turns_of_outs ho hc).running hs
  cases a with
  | layoutFullscreen => exact houts _ (keybindingWorkspaceFullscreen_outs h)
  | splitHorizontal =>
    exact Ensures.bind_any fun _ _ => houts _ keybindingSplitOutput_outs
  | splitVertical =>
    exact Ensures.bind_any fun _ _ => houts _ keybindingSplitOutput_outs
  | cycleViews => exact houts _ (keybindingCycleViews_keeps.mono fun _ hk => hk.outs)
  | cycleTiles =>
    exact Ensures.ite (fun _ => hs.of_turns (keybindingCycleTiles_turns h hc))
      fun _ => hs.of_turns (keybindingFocusTile_turns h hc)
  | cycleOutput => exact hs.of_turns (keybindingCycleOutputs_turns hc)
  | switchWorkspace => exact hs.of_turns (keybindingSwitchWs_turns hc)
  | switchOutput => exact hs.of_turns (keybindingSwitchOutput_turns hc)
  | resizeTileHorizontal => exact houts _ (resizeTile_outs h)
  | resizeTileVertical => exact houts _ (resizeTile_outs h)
  | moveToTile =>
    exact Ensures.bind_any fun _ _ => hs.of_turns (keybindingMoveViewToTile_turns h hc)
  | moveToWorkspace =>
    exact Ensures.bind_any fun _ _ => hs.of_turns (keybindingMoveViewToWorkspace_turns h hc)
  | moveToOutput =>
    exact Ensures.bind_any fun _ _ => hs.of_turns (keybindingMoveViewToOutput_turns h hc)
  | moveViewToTile => exact hs.of_turns (keybindingMoveViewToTile_turns h hc)
  | moveViewToWorkspace => exact hs.of_turns (keybindingMoveViewToWorkspace_turns h hc)
  | moveViewToOutput => exact hs.of_turns (keybindingMoveViewToOutput_turns h hc)
  | merge =>
    exact Ensures.bind_any fun _ _ => Ensures.ifSome (fun _ => hs) fun _ _ => houts _ mergeTile_outs
  | swapDir => exact hs.of_turns (swapTile_turns h hc)
  | swap =>
    exact Ensures.bind_any fun _ _ => Ensures.bind_any fun _ _ => hs.of_turns (swapTiles_turns h hc)
  | focus => exact Ensures.bind_any fun _ _ => hs.of_turns (focusTile_turns hc)
  | moveViewToCycleOutput => exact hs.of_turns (keybindingMoveViewToCycleOutput_turns hc)
  | workspaces nws => exact keybindingSetNws_running hs nws.2.1

theorem Running.setCursorAt (h : s.Running) (c : Option (OutPtr × ℚ × ℚ)) :
    ({ s with cursorAt := c } : Server).Running :=
  h.congr rfl rfl rfl rfl

/-- **Every input** keeps a current output among those that are connected. -/
theorem step_running (hwf : WellFormed False s) (hs : s.terminated = false → s.Running)
    {i : Input} : Ensures (step s i) fun s' => s'.terminated = false → s'.Running := by
  refine Ensures.ite (fun _ => Ensures.ok hs) fun hrun => ?_
  have h := hs (by simpa using hrun)
  have hkeeps : ∀ m : Exec Server, Ensures m (KeepsLayout s) →
      Ensures m fun s' => s'.terminated = false → s'.Running :=
    fun m hm => hm.mono fun _ hk _ => (hk.turns_of h.current).running h
  cases i with
  | command a => exact (runAction_running hwf h).mono fun _ h' _ => h'
  | outputNew name box cursor =>
    exact (handleNewOutput_running (hwf.setCursorAt cursor) (h.setCursorAt cursor)).mono
      fun _ h' _ => h'
  | outputDestroy o cursor =>
    exact Ensures.deref fun ho => outputDestroy_running (hwf.setCursorAt cursor)
      (h.setCursorAt cursor) (of_decide_eq_true ho)
  | layoutChange o box => exact Ensures.ok fun _ => h.congr rfl rfl rfl rfl
  | cursorMotion cursor =>
    refine processCursorMotion_sameLayout.mono fun s' h' _ => ?_
    exact (h'.toKeepsLayout.turns_of (h.setCursorAt cursor).current).running (h.setCursorAt cursor)
  | viewNew => exact hkeeps _ viewInit_keeps
  | viewMap => exact Ensures.deref fun _ => hkeeps _ viewMap_keeps
  | viewUnmap => exact Ensures.deref fun _ => hkeeps _ viewUnmap_keeps
  | viewDestroy => exact hkeeps _ viewDestroy_keeps

theorem Running.init : Server.init.Running := by
  refine ⟨⟨nofun, nofun⟩, le_rfl, fun h => absurd rfl h⟩

end Server

open Server

variable {s : Server}

theorem Reachable.running (h : Reachable s) (hrun : s.terminated = false) : s.Running := by
  have hinv := h.invariant (I := fun s => WellFormed False s ∧
    (s.terminated = false → s.Running)) ⟨.init, fun _ => .init⟩ fun _ _ hs _ =>
      (step_wellFormed (fun _ => rfl) hs.1).and (step_running hs.1 hs.2)
  exact hinv.2 hrun

end Cagebreak
