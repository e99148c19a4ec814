/-
Where the frames of workspaces come from.

A workspace is made full screen with the box its output has in the layout at that time,
and keeps this frame when the layout changes.  So what holds of every box that has been
reported holds of every frame: `framed_of_steps`.
-/
import Cagebreak.TileRuns

namespace Cagebreak

open Exec

namespace Server

variable {s s' : Server} {Q : Rect → Prop} {t : TilePtr} {v : ViewPtr} {w : WsPtr} {o : OutPtr}

/-- The boxes of all outputs and the frames of all workspaces satisfy `Q`. -/
structure Framed (Q : Rect → Prop) (s : Server) : Prop where
  outBox : ∀ o, Q (s.outs.outBox o).frame
  wsFrame : ∀ w, Q (s.tiles.wsFrame w)

theorem KeepsLayout.framed (hs : KeepsLayout s s') (h : s.Framed Q) : s'.Framed Q := by
  constructor
  · rw [hs.outs]
    exact h.outBox
  · rw [hs.tiles]
    exact h.wsFrame

/-- An operation that keeps the layout, at the end of another one. -/
theorem Framed.of_keeps {m : Exec Server} (h : s.Framed Q) (hm : Ensures m (KeepsLayout s)) :
    Ensures m (Framed Q) :=
  hm.mono fun _ hs => hs.framed h

/-! ### Focusing -/

theorem workspaceFocusTile_framed (h : s.Framed Q) :
    Ensures (s.workspaceFocusTile w t) (Framed Q) :=
  Ensures.deref fun _ => Ensures.ok ⟨h.outBox, h.wsFrame⟩

theorem workspaceFocus_framed (h : s.Framed Q) {ws : ℕ} :
    Ensures (s.workspaceFocus o ws) (Framed Q) :=
  Ensures.ite (fun _ => Ensures.ok h) fun _ => Ensures.bind_any fun _ _ =>
    Ensures.bind_any fun _ _ => Ensures.deref fun _ => Ensures.ok ⟨h.outBox, h.wsFrame⟩

theorem setOutput_framed (h : s.Framed Q) : Ensures (s.setOutput o) (Framed Q) := by
  have hset : Framed Q { s with outs.currOutput := some o } := ⟨h.outBox, h.wsFrame⟩
  exact refocus_sameLayout.mono fun _ hs => hs.toKeepsLayout.framed hset

theorem Framed.emit (h : s.Framed Q) (e : Event) : (s.emit e).Framed Q := ⟨h.outBox, h.wsFrame⟩

theorem keybindingCycleOutputs_framed (h : s.Framed Q) {reverse triggerEvent : Bool} :
    Ensures (s.keybindingCycleOutputs reverse triggerEvent) (Framed Q) := by
  refine Ensures.bind_any fun old _ => Ensures.nonNull fun next _ =>
    Ensures.bind (setOutput_framed h) fun s₁ h₁ => Ensures.ok ?_
  cases triggerEvent
  · exact h₁
  · exact h₁.emit _

theorem keybindingSwitchOutput_framed (h : s.Framed Q) {num : ℕ} :
    Ensures (s.keybindingSwitchOutput num) (Framed Q) :=
  Ensures.bind_any fun _ _ => Ensures.ifSome (fun _ => h) fun _ _ =>
    Ensures.bind (setOutput_framed h) fun _ h₁ => Ensures.ok (h₁.emit _)

theorem keybindingSwitchWs_framed (h : s.Framed Q) {ws : ℕ} :
    Ensures (s.keybindingSwitchWs ws) (Framed Q) :=
  Ensures.ite (fun _ => Ensures.ok h) fun _ => Ensures.bind_any fun _ _ =>
    Ensures.bind (workspaceFocus_framed h) fun _ h₁ => Ensures.bind_any fun _ _ =>
      Ensures.bind_any fun _ _ => Ensures.bind (h₁.of_keeps seatSetFocus_keeps) fun _ h₂ =>
        Ensures.ok (h₂.emit _)

theorem keybindingFocusTile_framed (h : s.Framed Q) {tileId : ℕ} :
    Ensures (s.keybindingFocusTile tileId) (Framed Q) := by
  refine Ensures.bind_any fun o _ => Ensures.bind_any fun w _ => Ensures.bind_any fun oldTile _ =>
    Ensures.bind_any fun tile _ => Ensures.ifSome (fun _ => h) fun t _ =>
    Ensures.bind_any fun ot _ => ?_
  refine Ensures.bind (P := Framed Q) (Ensures.ite (fun _ => Ensures.ok h) fun _ =>
    setOutput_framed h) fun s₁ h₁ => Ensures.bind_any fun oc _ => ?_
  refine Ensures.bind (P := Framed Q) (Ensures.ite (fun _ => Ensures.ok h₁) fun _ =>
    keybindingSwitchWs_framed h₁) fun s₂ h₂ => ?_
  refine Ensures.bind (workspaceFocusTile_framed h₂) fun s₃ h₃ => ?_
  exact Ensures.bind (h₃.of_keeps seatSetFocus_keeps) fun s₄ h₄ => Ensures.ok (h₄.emit _)

theorem keybindingCycleTiles_framed (h : s.Framed Q) {reverse : Bool} :
    Ensures (s.keybindingCycleTiles reverse) (Framed Q) :=
  Ensures.bind_any fun _ _ => Ensures.deref fun _ => Ensures.nonNull fun _ _ =>
    Ensures.deref fun _ => keybindingFocusTile_framed h

theorem focusTile_framed (h : s.Framed Q) {dir : Direction} :
    Ensures (s.focusTile dir t) (Framed Q) :=
  Ensures.bind_any fun _ _ => Ensures.ifSome (fun _ => h) fun _ _ =>
    Ensures.bind (workspaceFocusTile_framed h) fun _ h₁ => h₁.of_keeps seatSetFocus_keeps

/-! ### Tiles -/

/-- Redrawing the view of a tile, if it shows one. -/
theorem maximizeShown_framed (h : s.Framed Q) {view : Option ViewPtr} :
    Ensures (ifSome view s fun v => s.viewMaximize v t) (Framed Q) :=
  h.of_keeps (Ensures.ifSome (fun _ => .refl) fun _ _ =>
    viewMaximize_sameLayout.mono fun _ hs => hs.toKeepsLayout)

theorem mergeTile_framed (h : s.Framed Q) {dir : Direction} :
    Ensures (s.mergeTile dir t) (Framed Q) := by
  refine Ensures.bind_any fun found _ => Ensures.ifSome (fun _ => h) fun m _ =>
    Ensures.ite (fun _ => Ensures.ok h) fun _ => ?_
  refine Ensures.bind (h.of_keeps workspaceTileUpdateView_keeps) fun s₁ h₁ =>
    Ensures.nonNull fun p _ => Ensures.nonNull fun n _ => ?_
  refine Ensures.bind (P := Framed Q) (maximizeShown_framed ?_) fun s₂ h₂ =>
    Ensures.bind_any fun place _ => ?_
  · exact ⟨h₁.outBox, h₁.wsFrame⟩
  · obtain ⟨ws, output, outputId⟩ := place
    exact Ensures.ok (h₂.emit _)

theorem swapTiles_framed (h : s.Framed Q) {tile swapTile : Option TilePtr} {follow : Bool} :
    Ensures (s.swapTiles tile swapTile follow) (Framed Q) := by
  unfold swapTiles
  split
  · refine Ensures.ite (fun _ => Ensures.ok h) fun _ => Ensures.deref fun _ => ?_
    refine Ensures.bind (h.of_keeps workspaceTileUpdateView_keeps) fun s₁ h₁ => ?_
    refine Ensures.bind (h₁.of_keeps workspaceTileUpdateView_keeps) fun s₂ h₂ => ?_
    refine Ensures.bind (h₂.of_keeps workspaceTileUpdateView_keeps) fun s₃ h₃ => ?_
    refine Ensures.bind (Ensures.ite (fun _ => keybindingFocusTile_framed h₃) fun _ =>
      refocus_sameLayout.mono fun _ hs => hs.toKeepsLayout.framed h₃) fun s₄ h₄ =>
      Ensures.bind_any fun place _ => ?_
    obtain ⟨ws, output, outputId⟩ := place
    exact Ensures.ok (h₄.emit _)
  · exact Ensures.ok h

theorem swapTile_framed (h : s.Framed Q) {tileId : ℕ} {dir : Direction} {follow : Bool} :
    Ensures (s.swapTile tileId dir follow) (Framed Q) :=
  Ensures.bind_any fun _ _ => Ensures.ifSome (fun _ => h) fun _ _ => Ensures.bind_any fun _ _ =>
    swapTiles_framed h

theorem keybindingSplitOutput_framed (h : s.Framed Q) {vertical : Bool}
    {percentage : Percentage} :
    Ensures (s.keybindingSplitOutput o vertical percentage) (Framed Q) := by
  refine Ensures.bind_any fun w _ => Ensures.bind_any fun f _ => Ensures.deref fun _ =>
    Ensures.ite (fun _ => Ensures.ok h) fun _ => Ensures.bind_any fun nextView _ =>
    Ensures.nonNull fun c _ => ?_
  refine Ensures.bind (P := Framed Q) (workspaceTileUpdateView_keeps.mono fun s₁ hs =>
    hs.framed ⟨h.outBox, h.wsFrame⟩) fun s₁ h₁ => ?_
  refine Ensures.bind (workspaceFocusTile_framed h₁) fun s₂ h₂ => ?_
  refine Ensures.bind (maximizeShown_framed h₂) fun s₃ h₃ => ?_
  refine Ensures.bind (maximizeShown_framed h₃) fun s₄ h₄ => Ensures.bind_any fun place _ => ?_
  obtain ⟨ws, output, outputId⟩ := place
  exact Ensures.ok (h₄.emit _)

theorem resize_framed (h : s.Framed Q) {axis : Axis} {orig tile : TilePtr}
    {parent : Option TilePtr} {n : ℕ} {coordOffset dimOffset : ℤ} :
    Ensures (resize axis orig n s tile parent coordOffset dimOffset) (Framed Q) := by
  induction n generalizing s tile parent coordOffset dimOffset with
  | zero => exact Ensures.error
  | succ n ih =>
    refine Ensures.ite (fun _ => Ensures.ok h) fun _ => Ensures.bind_any fun its _ => ?_
    refine Ensures.bind (P := Framed Q) (Ensures.foldlM (fun s₁ it _ h₁ => ?_) h) fun s₁ h₁ => ?_
    · refine Ensures.ite (fun _ => Ensures.ok h₁) fun _ => ?_
      cases handedOn s₁.tiles axis tile it coordOffset dimOffset with
      | none => exact Ensures.ok h₁
      | some cd => exact ih h₁
    · refine Ensures.bind (P := Framed Q) (maximizeShown_framed ?_) fun s₂ h₂ =>
        Ensures.bind_any fun place _ => ?_
      · exact ⟨h₁.outBox, h₁.wsFrame⟩
      · obtain ⟨ws, output, outputId⟩ := place
        exact Ensures.ok (h₂.emit _)

theorem resizeTile_framed (h : s.Framed Q) {hpixs vpixs : ℤ} {tileId : ℕ} :
    Ensures (s.resizeTile hpixs vpixs tileId) (Framed Q) := by
  have key : ∀ s' axis o t pixs, Framed Q s' → Ensures (s'.resizeAlong axis o t pixs) (Framed Q) :=
    fun s' axis o t pixs h' => Ensures.deref fun _ => Ensures.ite (fun _ =>
      Ensures.bind_any fun _ _ => Ensures.ite (fun _ => resize_framed h') fun _ => Ensures.ok h')
        fun _ => Ensures.ok h'
  exact Ensures.bind_any fun _ _ => Ensures.bind_any fun _ _ => Ensures.bind_any fun _ _ =>
    Ensures.ifSome (fun _ => h) fun _ _ => Ensures.bind (key _ _ _ _ _ h) fun _ h₁ =>
      key _ _ _ _ _ h₁

/-! ### Views -/

theorem keybindingMoveViewToTile_framed (h : s.Framed Q) {viewId tileId : ℕ} {follow : Bool} :
    Ensures (s.keybindingMoveViewToTile viewId tileId follow) (Framed Q) := by
  refine Ensures.bind_any fun view _ => Ensures.bind_any fun tile _ =>
    Ensures.bind_any fun old _ => ?_
  obtain ⟨oldOutput, oldWs⟩ := old
  refine Ensures.ifSome (fun _ => h) fun t _ => ?_
  refine Ensures.bind (P := Framed Q) (h.of_keeps ?_) fun s₁ h₁ => ?_
  · cases view with
    | none => exact emptyTile_keeps
    | some v => exact KeepsLayout.bind takeView_keeps fun _ _ => putView_keeps
  refine Ensures.bind (P := Framed Q) (Ensures.ite (fun _ => keybindingFocusTile_framed h₁)
    fun _ => Ensures.ifSome (fun _ => h₁) fun u _ => h₁.of_keeps workspaceTileUpdateView_keeps)
    fun s₂ h₂ => ?_
  exact Ensures.bind_any fun oc _ => Ensures.bind_any fun oldId _ => Ensures.ok (h₂.emit _)

theorem keybindingMoveViewToOutput_framed (h : s.Framed Q) {viewId outputNum : ℕ}
    {follow : Bool} :
    Ensures (s.keybindingMoveViewToOutput viewId outputNum follow) (Framed Q) :=
  Ensures.ifSome (fun _ => h) fun _ _ => Ensures.bind_any fun _ _ => Ensures.bind_any fun _ _ =>
    keybindingMoveViewToTile_framed h

theorem keybindingMoveViewToWorkspace_framed (h : s.Framed Q) {viewId ws : ℕ} {follow : Bool} :
    Ensures (s.keybindingMoveViewToWorkspace viewId ws follow) (Framed Q) :=
  Ensures.ite (fun _ => Ensures.ok h) fun _ => Ensures.bind_any fun _ _ =>
    Ensures.bind_any fun _ _ => Ensures.bind_any fun _ _ => keybindingMoveViewToTile_framed h

theorem keybindingMoveViewToCycleOutput_framed (h : s.Framed Q) {reverse : Bool} :
    Ensures (s.keybindingMoveViewToCycleOutput reverse) (Framed Q) := by
  refine Ensures.ite (fun _ => Ensures.ok h) fun _ => Ensures.bind_any fun old _ =>
    Ensures.bind_any fun f _ => ?_
  refine Ensures.bind (P := Framed Q) (Ensures.ifSome (fun _ => h) fun v _ =>
    h.of_keeps leaveView_keeps) fun s₁ h₁ => ?_
  refine Ensures.bind (keybindingCycleOutputs_framed h₁) fun s₂ h₂ => ?_
  refine Ensures.bind (P := Framed Q) (Ensures.ifSome (fun _ => h₂) fun v _ =>
    h₂.of_keeps arriveView_keeps) fun s₃ h₃ => ?_
  exact Ensures.bind_any fun new _ => Ensures.bind_any fun wOld _ => Ensures.bind_any fun fOld _ =>
    Ensures.bind_any fun fNew _ => Ensures.ok (h₃.emit _)

/-! ### Workspaces and outputs -/

theorem freeTilesLoop_framed (h : s.Framed Q) {n : ℕ} :
    Ensures (freeTilesLoop w n s) (Framed Q) := by
  induction n generalizing s with
  | zero => exact Ensures.error
  | succ n ih =>
    unfold freeTilesLoop
    split
    · exact Ensures.ok h
    · exact Ensures.deref fun _ => ih ⟨h.outBox, h.wsFrame⟩

theorem workspaceFreeTiles_framed (h : s.Framed Q) :
    Ensures (s.workspaceFreeTiles w) (Framed Q) := by
  refine Ensures.bind_any fun f _ => Ensures.deref fun _ => Ensures.nonNull fun p _ =>
    freeTilesLoop_framed ?_
  exact ⟨h.outBox, h.wsFrame⟩

theorem workspaceFree_framed (h : s.Framed Q) : Ensures (s.workspaceFree w) (Framed Q) :=
  Ensures.bind (workspaceFreeTiles_framed h) fun _ h₁ => Ensures.ok ⟨h₁.outBox, h₁.wsFrame⟩

/-- A full screen workspace gets the box of its output. -/
theorem fullScreenWorkspaceTiles_framed (h : s.Framed Q) :
    Ensures (s.fullScreenWorkspaceTiles w) (Framed Q) := by
  refine Ensures.deref fun _ => workspaceTileUpdateView_keeps.mono fun s₁ hs =>
    hs.framed ⟨h.outBox, fun w' => ?_⟩
  by_cases hw : w' = w
  · subst hw
    simpa using h.outBox _
  · simpa [hw] using h.wsFrame w'

theorem addWorkspace_framed (h : s.Framed Q) {k : ℕ} :
    Ensures (addWorkspace o s k) (Framed Q) := by
  refine addWorkspace_ensures ?_
  refine Ensures.bind (P := Framed Q) (fullScreenWorkspaceTiles_framed ?_) fun s₁ h₁ =>
    Ensures.ok ?_
  · exact ⟨h.outBox, h.wsFrame⟩
  · exact ⟨h₁.outBox, h₁.wsFrame⟩

theorem outputMakeWorkspaceFullscreen_framed (h : s.Framed Q) {ws : ℕ} :
    Ensures (s.outputMakeWorkspaceFullscreen o ws) (Framed Q) := by
  refine Ensures.ite (fun _ => Ensures.ok h) fun _ => Ensures.bind_any fun w _ =>
    Ensures.bind_any fun f _ => Ensures.deref fun _ => Ensures.bind_any fun current _ => ?_
  refine Ensures.bind (workspaceFreeTiles_framed h) fun s₁ h₁ => ?_
  refine Ensures.bind (fullScreenWorkspaceTiles_framed h₁) fun s₂ h₂ => ?_
  refine Ensures.bind_any fun f' _ => Ensures.bind_any fun l _ => ?_
  refine Ensures.bind ((pointViewsAt_keeps.framed h₂).of_keeps workspaceTileUpdateView_keeps)
    fun s₃ h₃ => ?_
  exact Ensures.ite (fun _ => h₃.of_keeps seatSetFocus_keeps) fun _ => Ensures.ok h₃

theorem keybindingWorkspaceFullscreen_framed (h : s.Framed Q) {screen workspace : ℕ} :
    Ensures (s.keybindingWorkspaceFullscreen screen workspace) (Framed Q) :=
  Ensures.bind_any fun _ _ => Ensures.ifSome (fun _ => h) fun _ _ =>
    Ensures.ite (fun _ => Ensures.ok h) fun _ =>
      Ensures.bind (outputMakeWorkspaceFullscreen_framed h) fun _ h₁ => Ensures.bind_any fun _ _ =>
        Ensures.bind_any fun _ _ => Ensures.ok (h₁.emit _)

theorem outputSetNws_framed (h : s.Framed Q) {oldNws nws : ℕ} :
    Ensures (outputSetNws oldNws nws s o) (Framed Q) := by
  refine Ensures.bind (P := Framed Q) (Ensures.foldlM (fun s₁ k _ h₁ => ?_) h) fun s₁ h₁ => ?_
  · refine Ensures.bind_any fun w _ => Ensures.bind_any fun last _ => Ensures.deref fun _ => ?_
    exact Ensures.bind (h₁.of_keeps moveViews_keeps) fun s₂ h₂ =>
      Ensures.bind (h₂.of_keeps moveViews_keeps) fun s₃ h₃ => workspaceFree_framed h₃
  refine Ensures.bind (P := Framed Q) (Ensures.foldlM (fun s₂ k _ h₂ => addWorkspace_framed h₂)
    ⟨h₁.outBox, h₁.wsFrame⟩) fun s₂ h₂ => ?_
  refine Ensures.ite (fun _ => workspaceFocus_framed ?_) fun _ => Ensures.ok h₂
  exact ⟨h₂.outBox, h₂.wsFrame⟩

theorem keybindingSetNws_framed (h : s.Framed Q) {nws : ℕ} :
    Ensures (s.keybindingSetNws nws) (Framed Q) := by
  refine Ensures.bind (P := Framed Q) (Ensures.foldlM (fun s₁ o _ h₁ => outputSetNws_framed h₁)
    ⟨h.outBox, h.wsFrame⟩) fun s₁ h₁ => ?_
  exact Ensures.bind refocus_sameLayout fun s₂ hs =>
    Ensures.ok ((hs.toKeepsLayout.framed h₁).emit _)

theorem handleNewOutput_framed (h : s.Framed Q) {name : String} {box : LayoutBox}
    (hbox : Q box.frame) : Ensures (s.handleNewOutput name box) (Framed Q) := by
  refine Ensures.bind (P := Framed Q) (Ensures.foldlM (fun s₁ k _ h₁ => addWorkspace_framed h₁)
    ⟨fun o => ?_, h.wsFrame⟩) fun s₁ h₁ => ?_
  · by_cases ho : o = s.outs.outTop
    · subst ho
      simpa using hbox
    · simpa [ho] using h.outBox o
  · exact Ensures.bind (workspaceFocus_framed h₁) fun s₂ h₂ =>
      Ensures.ok ⟨h₂.outBox, h₂.wsFrame⟩

theorem outputClear_framed (h : s.Framed Q) : Ensures (s.outputClear o) (Framed Q) := by
  refine Ensures.bind (P := Framed Q) (Ensures.ite
    (fun _ => keybindingCycleOutputs_framed h) fun _ => Ensures.ok h) fun s₁ h₁ => ?_
  refine Ensures.foldlM (fun s₂ i _ h₂ => ?_) ⟨h₁.outBox, h₁.wsFrame⟩
  refine Ensures.bind_any fun w _ => Ensures.bind_any fun l _ => ?_
  refine Ensures.bind (P := Framed Q) (Ensures.foldlM (fun s₃ t _ h₃ =>
    h₃.of_keeps workspaceTileUpdateView_keeps) h₂) fun s₃ h₃ => Ensures.bind_any fun wNew _ => ?_
  exact Ensures.bind (h₃.of_keeps rehomeViews_keeps) fun s₄ h₄ => h₄.of_keeps rehomeViews_keeps

theorem outputDestroy_framed (h : s.Framed Q) : Ensures (s.outputDestroy o) (Framed Q) := by
  refine Ensures.bind (outputClear_framed h) fun s₁ h₁ => ?_
  refine Ensures.bind (P := Framed Q) (Ensures.foldlM (fun s₂ i _ h₂ =>
    Ensures.bind_any fun w _ => Ensures.deref fun _ => workspaceFree_framed h₂) h₁) fun s₂ h₂ => ?_
  refine Ensures.ok ?_
  split
  · exact ⟨h₂.outBox, h₂.wsFrame⟩
  · exact ⟨h₂.outBox, h₂.wsFrame⟩

/-! ### Every input -/

theorem runAction_framed (h : s.Framed Q) {a : Action} : Ensures (s.runAction a) (Framed Q) := by
  cases a with
  | layoutFullscreen => exact keybindingWorkspaceFullscreen_framed h
  | splitHorizontal => exact Ensures.bind_any fun _ _ => keybindingSplitOutput_framed h
  | splitVertical => exact Ensures.bind_any fun _ _ => keybindingSplitOutput_framed h
  | cycleViews => exact h.of_keeps keybindingCycleViews_keeps
  | cycleTiles =>
    exact Ensures.ite (fun _ => keybindingCycleTiles_framed h) fun _ => keybindingFocusTile_framed h
  | cycleOutput => exact keybindingCycleOutputs_framed h
  | switchWorkspace => exact keybindingSwitchWs_framed h
  | switchOutput => exact keybindingSwitchOutput_framed h
  | resizeTileHorizontal => exact resizeTile_framed h
  | resizeTileVertical => exact resizeTile_framed h
  | moveToTile => exact Ensures.bind_any fun _ _ => keybindingMoveViewToTile_framed h
  | moveToWorkspace => exact Ensures.bind_any fun _ _ => keybindingMoveViewToWorkspace_framed h
  | moveToOutput => exact Ensures.bind_any fun _ _ => keybindingMoveViewToOutput_framed h
  | moveViewToTile => exact keybindingMoveViewToTile_framed h
  | moveViewToWorkspace => exact keybindingMoveViewToWorkspace_framed h
  | moveViewToOutput => exact keybindingMoveViewToOutput_framed h
  | merge =>
    exact Ensures.bind_any fun _ _ => Ensures.ifSome (fun _ => h) fun _ _ => mergeTile_framed h
  | swapDir => exact swapTile_framed h
  | swap => exact Ensures.bind_any fun _ _ => Ensures.bind_any fun _ _ => swapTiles_framed h
  | focus => exact Ensures.bind_any fun _ _ => focusTile_framed h
  | moveViewToCycleOutput => exact keybindingMoveViewToCycleOutput_framed h
  | workspaces => exact keybindingSetNws_framed h

end Server

open Server

variable {s s' : Server} {Q : Rect → Prop}

/-- A box that is reported satisfies `Q`. -/
def Input.Reports (Q : Rect → Prop) : Input → Prop
  | .outputNew _ box _ | .layoutChange _ box => Q box.frame
  | _ => True

theorem Server.Framed.setCursorAt (h : s.Framed Q) (c : Option (OutPtr × ℚ × ℚ)) :
    Framed Q { s with cursorAt := c } := ⟨h.outBox, h.wsFrame⟩

theorem step_framed {i : Input} (hi : i.Reports Q) (h : s.Framed Q) :
    Ensures (step s i) (Framed Q) := by
  refine Ensures.ite (fun _ => Ensures.ok h) fun _ => ?_
  cases i with
  | command a => exact runAction_framed h
  | outputNew name box cursor => exact handleNewOutput_framed (h.setCursorAt cursor) hi
  | outputDestroy o cursor =>
    exact Ensures.deref fun _ => outputDestroy_framed (h.setCursorAt cursor)
  | layoutChange o box =>
    refine Ensures.ok ⟨fun o' => ?_, h.wsFrame⟩
    by_cases ho : o' = o
    · subst ho
      simpa [Input.Reports] using hi
    · simpa [ho] using h.outBox o'
  | cursorMotion cursor =>
    exact processCursorMotion_sameLayout.mono fun _ hs =>
      hs.toKeepsLayout.framed (h.setCursorAt cursor)
  | viewNew => exact h.of_keeps viewInit_keeps
  | viewMap => exact Ensures.deref fun _ => h.of_keeps viewMap_keeps
  | viewUnmap => exact Ensures.deref fun _ => h.of_keeps viewUnmap_keeps
  | viewDestroy => exact h.of_keeps viewDestroy_keeps

/-- **Frames are boxes that have been reported**: what holds of these, and of the boxes
there are before, holds of all frames. -/
theorem framed_of_steps {ok : Server → Input → Prop} (hok : ∀ s i, ok s i → i.Reports Q)
    (h : s.Framed Q) (hs : Steps step ok s s') : s'.Framed Q :=
  hs.invariant h fun _ _ ht hi => step_framed (hok _ _ hi) ht

end Cagebreak
