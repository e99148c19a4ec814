/-
The workspaces of the connected outputs.

A workspace is made for an output and freed with it, or when there are to be fewer
workspaces.  `Housed` says that none is left over: what is allocated is in the array of
a connected output.  Commands but `workspaces` do not touch any of this
(`SameWorkspaces`).

* `outputSetNws_housed`, `outputDestroy_housed` — workspaces that are dropped are freed;
* `step_housed`, `wsLive_iff` — every input, and every run;
* `tileFromId_finds` — so every tile can be addressed.
-/
import Cagebreak.CurrentRuns
import Cagebreak.DropWorkspaces
import Cagebreak.TileRuns

namespace Cagebreak

open Exec

namespace Server

variable {s s' s'' : Server} {t : TilePtr} {w : WsPtr} {o : OutPtr} {a : Action} {i : Input}

/-- Every workspace that is allocated is in the array of a connected output. -/
def Housed (s : Server) : Prop := ∀ w, s.tiles.wsLive w = true →
  ∃ o ∈ s.outs.outputs, w ∈ s.outs.outWorkspaces o

/-- The same workspaces are allocated and in the arrays of the same outputs. -/
structure SameWorkspaces (s s' : Server) : Prop where
  live : s'.tiles.wsLive = s.tiles.wsLive
  outputs : s'.outs.outputs = s.outs.outputs
  arrays : s'.outs.outWorkspaces = s.outs.outWorkspaces
  nws : s'.outs.nws = s.outs.nws

theorem SameWorkspaces.refl : SameWorkspaces s s := ⟨rfl, rfl, rfl, rfl⟩

theorem SameWorkspaces.trans (h : SameWorkspaces s s') (h' : SameWorkspaces s' s'') :
    SameWorkspaces s s'' :=
  ⟨h'.live.trans h.live, h'.outputs.trans h.outputs, h'.arrays.trans h.arrays, h'.nws.trans h.nws⟩

theorem SameWorkspaces.bind {m : Exec Server} {f : Server → Exec Server}
    (hm : Ensures m (SameWorkspaces s))
    (hf : ∀ s₁, Ensures (f s₁) (SameWorkspaces s₁)) : Ensures (m >>= f) (SameWorkspaces s) :=
  hm.bind fun s₁ h₁ => (hf s₁).mono fun _ h₂ => h₁.trans h₂

theorem SameWorkspaces.housed (h : SameWorkspaces s s') (hs : s.Housed) : s'.Housed := by
  rw [Housed, h.live, h.outputs, h.arrays]
  exact hs

theorem KeepsLayout.sameWorkspaces (h : KeepsLayout s s') : SameWorkspaces s s' :=
  ⟨by rw [h.tiles], by rw [h.outs], by rw [h.outs], by rw [h.outs]⟩

theorem sameWorkspaces_of_keeps {m : Exec Server} (hm : Ensures m (KeepsLayout s)) :
    Ensures m (SameWorkspaces s) :=
  hm.mono fun _ h => h.sameWorkspaces

/-! ### Focusing -/

theorem setOutput_workspaces : Ensures (s.setOutput o) (SameWorkspaces s) := by
  refine setOutput_outs.mono ?_
  rintro s' ⟨htiles, houts⟩
  exact ⟨by rw [htiles], by rw [houts], by rw [houts], by rw [houts]⟩

theorem keybindingCycleOutputs_workspaces {reverse triggerEvent : Bool} :
    Ensures (s.keybindingCycleOutputs reverse triggerEvent) (SameWorkspaces s) := by
  refine Ensures.bind_any fun old _ => Ensures.nonNull fun o _ =>
    SameWorkspaces.bind setOutput_workspaces fun s₁ => Ensures.ok ?_
  cases triggerEvent with
  | false => exact .refl
  | true => exact ⟨rfl, rfl, rfl, rfl⟩

theorem keybindingSwitchOutput_workspaces {num : ℕ} :
    Ensures (s.keybindingSwitchOutput num) (SameWorkspaces s) :=
  Ensures.bind_any fun _ _ => Ensures.ifSome (fun _ => .refl) fun _ _ =>
    SameWorkspaces.bind setOutput_workspaces fun _ => Ensures.ok ⟨rfl, rfl, rfl, rfl⟩

theorem workspaceFocus_workspaces {ws : ℕ} :
    Ensures (s.workspaceFocus o ws) (SameWorkspaces s) := by
  refine workspaceFocus_spec.mono ?_
  rintro s' (⟨rfl, -⟩ | ⟨rfl, -⟩)
  · exact .refl
  · exact ⟨rfl, rfl, rfl, rfl⟩

theorem keybindingSwitchWs_workspaces {ws : ℕ} :
    Ensures (s.keybindingSwitchWs ws) (SameWorkspaces s) :=
  Ensures.ite (fun _ => Ensures.ok .refl) fun _ => Ensures.bind_any fun _ _ =>
    SameWorkspaces.bind workspaceFocus_workspaces fun _ => Ensures.bind_any fun _ _ =>
      Ensures.bind_any fun _ _ => SameWorkspaces.bind
        (sameWorkspaces_of_keeps seatSetFocus_keeps) fun _ => Ensures.ok ⟨rfl, rfl, rfl, rfl⟩

theorem workspaceFocusTile_workspaces : Ensures (s.workspaceFocusTile w t) (SameWorkspaces s) :=
  Ensures.deref fun _ => Ensures.ok ⟨rfl, rfl, rfl, rfl⟩

theorem keybindingFocusTile_workspaces (hwf : WellFormed False s) {id : ℕ} :
    Ensures (s.keybindingFocusTile id) (SameWorkspaces s) := by
  refine (keybindingFocusTile_cases hwf).mono ?_
  rintro s' (⟨-, rfl⟩ | ⟨t, s₁, s₂, s₃, s₄, e, -, hs₁, hs₂, -, hs₃, -, hs₄, rfl⟩)
  · exact .refl
  have h₁ : SameWorkspaces s s₁ := by
    rcases hs₁ with rfl | hs₁
    · exact .refl
    · exact setOutput_workspaces s₁ hs₁
  have h₂ : SameWorkspaces s₁ s₂ := by
    rcases hs₂ with rfl | hs₂
    · exact .refl
    · exact keybindingSwitchWs_workspaces s₂ hs₂
  have h₃ := workspaceFocusTile_workspaces s₃ hs₃
  have h₄ := sameWorkspaces_of_keeps seatSetFocus_keeps s₄ hs₄
  exact (((h₁.trans h₂).trans h₃).trans h₄).trans ⟨rfl, rfl, rfl, rfl⟩

theorem keybindingCycleTiles_workspaces (hwf : WellFormed False s) {reverse : Bool} :
    Ensures (s.keybindingCycleTiles reverse) (SameWorkspaces s) :=
  Ensures.bind_any fun _ _ => Ensures.deref fun _ => Ensures.nonNull fun _ _ =>
    Ensures.deref fun _ => keybindingFocusTile_workspaces hwf

theorem focusTile_workspaces {dir : Direction} :
    Ensures (s.focusTile dir t) (SameWorkspaces s) :=
  Ensures.bind_any fun _ _ => Ensures.ifSome (fun _ => .refl) fun _ _ =>
    SameWorkspaces.bind workspaceFocusTile_workspaces fun _ =>
      sameWorkspaces_of_keeps seatSetFocus_keeps

/-! ### Tiles -/

theorem viewMaximizeShown_workspaces {view : Option ViewPtr} : Ensures
    (ifSome view s fun v => s.viewMaximize v t) (SameWorkspaces s) :=
  Ensures.ifSome (fun _ => .refl) fun _ _ =>
    sameWorkspaces_of_keeps (SameLayout.keeps viewMaximize_sameLayout)

theorem mergeTile_workspaces {dir : Direction} :
    Ensures (s.mergeTile dir t) (SameWorkspaces s) := by
  refine Ensures.bind_any fun found _ => Ensures.ifSome (fun _ => .refl) fun m _ =>
    Ensures.ite (fun _ => Ensures.ok .refl) fun _ => ?_
  refine Ensures.bind workspaceTileUpdateView_keeps fun s₁ h₁ => ?_
  refine Ensures.nonNull fun p _ => Ensures.nonNull fun n _ => ?_
  refine Ensures.bind viewMaximizeShown_workspaces fun s₂ h₂ => Ensures.bind_any fun place _ => ?_
  obtain ⟨ws, output, outputId⟩ := place
  exact Ensures.ok (h₁.sameWorkspaces.trans ⟨h₂.live, h₂.outputs, h₂.arrays, h₂.nws⟩)

theorem swapTiles_workspaces (hwf : WellFormed False s) {tile swapTile : Option TilePtr}
    {follow : Bool} : Ensures (s.swapTiles tile swapTile follow) (SameWorkspaces s) := by
  unfold swapTiles
  split
  · next a b =>
    refine Ensures.ite (fun _ => Ensures.ok .refl) fun _ => Ensures.deref fun _ => ?_
    refine Ensures.bind workspaceTileUpdateView_keeps fun s₁ h₁ => ?_
    refine Ensures.bind workspaceTileUpdateView_keeps fun s₂ h₂ => ?_
    refine Ensures.bind workspaceTileUpdateView_keeps fun s₃ h₃ => ?_
    have hk := (h₁.trans h₂).trans h₃
    refine Ensures.bind (P := SameWorkspaces s₃) (Ensures.ite
      (fun _ => keybindingFocusTile_workspaces (hk.wellFormed hwf))
      fun _ => sameWorkspaces_of_keeps (SameLayout.keeps refocus_sameLayout))
      fun s₄ h₄ => Ensures.bind_any fun place _ => ?_
    obtain ⟨ws, output, outputId⟩ := place
    exact Ensures.ok ((hk.sameWorkspaces.trans h₄).trans ⟨rfl, rfl, rfl, rfl⟩)
  · exact Ensures.ok .refl

theorem swapTile_workspaces (hwf : WellFormed False s) {tileId : ℕ} {dir : Direction}
    {follow : Bool} : Ensures (s.swapTile tileId dir follow) (SameWorkspaces s) :=
  Ensures.bind_any fun _ _ => Ensures.ifSome (fun _ => .refl) fun _ _ =>
    Ensures.bind_any fun _ _ => swapTiles_workspaces hwf

theorem keybindingSplitOutput_workspaces {vertical : Bool} {percentage : Percentage} :
    Ensures (s.keybindingSplitOutput o vertical percentage) (SameWorkspaces s) := by
  refine Ensures.bind_any fun w _ => Ensures.bind_any fun f _ => Ensures.deref fun _ =>
    Ensures.ite (fun _ => Ensures.ok .refl) fun _ => Ensures.bind_any fun nextView _ =>
    Ensures.nonNull fun c _ => ?_
  refine Ensures.bind workspaceTileUpdateView_keeps fun s₁ h₁ => ?_
  have hsame := h₁.sameWorkspaces
  have h₁' : SameWorkspaces s s₁ := ⟨hsame.live, hsame.outputs, hsame.arrays, hsame.nws⟩
  refine Ensures.bind workspaceFocusTile_workspaces fun s₂ h₂ => ?_
  refine Ensures.bind viewMaximizeShown_workspaces fun s₃ h₃ => ?_
  refine Ensures.bind viewMaximizeShown_workspaces fun s₄ h₄ => Ensures.bind_any fun place _ => ?_
  obtain ⟨ws, output, outputId⟩ := place
  exact Ensures.ok ((((h₁'.trans h₂).trans h₃).trans h₄).trans ⟨rfl, rfl, rfl, rfl⟩)

theorem resize_workspaces {a : Axis} {orig tile : TilePtr} {parent : Option TilePtr} {n : ℕ}
    {coordOffset dimOffset : ℤ} :
    Ensures (resize a orig n s tile parent coordOffset dimOffset) (SameWorkspaces s) := by
  induction n generalizing s tile parent coordOffset dimOffset with
  | zero => exact Ensures.error
  | succ n ih =>
    refine Ensures.ite (fun _ => Ensures.ok .refl) fun _ => Ensures.bind_any fun its _ => ?_
    refine Ensures.bind (Ensures.foldlM (I := SameWorkspaces s) (fun s₁ it _ h₁ => ?_) .refl)
      fun s₁ h₁ => ?_
    · refine Ensures.ite (fun _ => Ensures.ok h₁) fun _ => ?_
      cases handedOn s₁.tiles a tile it coordOffset dimOffset with
      | none => exact Ensures.ok h₁
      | some cd => exact ih.mono fun _ h₂ => h₁.trans h₂
    · refine Ensures.bind viewMaximizeShown_workspaces fun s₂ h₂ =>
        Ensures.bind_any fun place _ => ?_
      obtain ⟨ws, output, outputId⟩ := place
      exact Ensures.ok (h₁.trans ⟨h₂.live, h₂.outputs, h₂.arrays, h₂.nws⟩)

theorem resizeAlong_workspaces {a : Axis} {pixs : ℤ} :
    Ensures (s.resizeAlong a o t pixs) (SameWorkspaces s) :=
  Ensures.deref fun _ => Ensures.ite (fun _ => Ensures.bind_any fun _ _ =>
    Ensures.ite (fun _ => resize_workspaces) fun _ => Ensures.ok .refl) fun _ => Ensures.ok .refl

theorem resizeTile_workspaces {hpixs vpixs : ℤ} {tileId : ℕ} :
    Ensures (s.resizeTile hpixs vpixs tileId) (SameWorkspaces s) :=
  Ensures.bind_any fun _ _ => Ensures.bind_any fun _ _ => Ensures.bind_any fun _ _ =>
    Ensures.ifSome (fun _ => .refl) fun _ _ => SameWorkspaces.bind resizeAlong_workspaces
      fun _ => resizeAlong_workspaces

theorem freeTilesLoop_workspaces {n : ℕ} :
    Ensures (freeTilesLoop w n s) (SameWorkspaces s) := by
  induction n generalizing s with
  | zero => exact Ensures.error
  | succ n ih =>
    unfold freeTilesLoop
    split
    · exact Ensures.ok .refl
    · exact Ensures.deref fun _ => ih.mono fun _ h => ⟨h.live, h.outputs, h.arrays, h.nws⟩

theorem workspaceFreeTiles_workspaces : Ensures (s.workspaceFreeTiles w) (SameWorkspaces s) :=
  Ensures.bind_any fun _ _ => Ensures.deref fun _ => Ensures.nonNull fun _ _ =>
    freeTilesLoop_workspaces.mono fun _ h => ⟨h.live, h.outputs, h.arrays, h.nws⟩

theorem fullScreenWorkspaceTiles_workspaces :
    Ensures (s.fullScreenWorkspaceTiles w) (SameWorkspaces s) :=
  Ensures.deref fun _ => (sameWorkspaces_of_keeps workspaceTileUpdateView_keeps).mono
    fun _ h => ⟨h.live, h.outputs, h.arrays, h.nws⟩

theorem keybindingWorkspaceFullscreen_workspaces {screen workspace : ℕ} :
    Ensures (s.keybindingWorkspaceFullscreen screen workspace) (SameWorkspaces s) := by
  refine Ensures.bind_any fun cur _ => Ensures.ifSome (fun _ => .refl) fun o _ =>
    Ensures.ite (fun _ => Ensures.ok .refl) fun _ => ?_
  refine SameWorkspaces.bind ?_ fun s₁ => Ensures.bind_any fun _ _ => Ensures.bind_any fun _ _ =>
    Ensures.ok ⟨rfl, rfl, rfl, rfl⟩
  refine Ensures.ite (fun _ => Ensures.ok .refl) fun _ => Ensures.bind_any fun w _ =>
    Ensures.bind_any fun f _ => Ensures.deref fun _ => Ensures.bind_any fun current _ => ?_
  refine SameWorkspaces.bind workspaceFreeTiles_workspaces fun s₁ => ?_
  refine SameWorkspaces.bind fullScreenWorkspaceTiles_workspaces fun s₂ => ?_
  refine Ensures.bind_any fun f' _ => Ensures.bind_any fun l _ =>
    Ensures.bind workspaceTileUpdateView_keeps fun s₃ h₃ => ?_
  have h₃' : SameWorkspaces s₂ s₃ := pointViewsAt_keeps.sameWorkspaces.trans h₃.sameWorkspaces
  exact Ensures.ite (fun _ => seatSetFocus_keeps.mono fun _ h₄ => h₃'.trans h₄.sameWorkspaces)
    fun _ => Ensures.ok h₃'

/-! ### Moving views -/

theorem keybindingMoveViewToTile_workspaces (hwf : WellFormed False s) {viewId tileId : ℕ}
    {follow : Bool} : Ensures (s.keybindingMoveViewToTile viewId tileId follow)
      (SameWorkspaces s) := by
  refine Ensures.bind_any fun view _ => Ensures.bind_any fun tile _ =>
    Ensures.bind_any fun old _ => ?_
  obtain ⟨oldOutput, oldWs⟩ := old
  refine Ensures.ifSome (fun _ => .refl) fun t _ => ?_
  have hmove : Ensures (view.elim (s.emptyTile t) fun v => do
      let s ← s.takeView v
      s.putView v t) (KeepsLayout s) := by
    cases view with
    | none => exact emptyTile_keeps
    | some v => exact KeepsLayout.bind takeView_keeps fun _ _ => putView_keeps
  refine Ensures.bind hmove fun s₁ h₁ => ?_
  refine Ensures.bind (P := SameWorkspaces s₁) (Ensures.ite
    (fun _ => keybindingFocusTile_workspaces (h₁.wellFormed hwf)) fun _ =>
      Ensures.ifSome (fun _ => .refl) fun _ _ => sameWorkspaces_of_keeps
        workspaceTileUpdateView_keeps) fun s₂ h₂ => ?_
  exact Ensures.bind_any fun _ _ => Ensures.bind_any fun _ _ =>
    Ensures.ok ((h₁.sameWorkspaces.trans h₂).trans ⟨rfl, rfl, rfl, rfl⟩)

theorem keybindingMoveViewToOutput_workspaces (hwf : WellFormed False s)
    {viewId outputNum : ℕ} {follow : Bool} :
    Ensures (s.keybindingMoveViewToOutput viewId outputNum follow) (SameWorkspaces s) :=
  Ensures.ifSome (fun _ => .refl) fun _ _ => Ensures.bind_any fun _ _ =>
    Ensures.bind_any fun _ _ => keybindingMoveViewToTile_workspaces hwf

theorem keybindingMoveViewToWorkspace_workspaces (hwf : WellFormed False s) {viewId ws : ℕ}
    {follow : Bool} :
    Ensures (s.keybindingMoveViewToWorkspace viewId ws follow) (SameWorkspaces s) :=
  Ensures.ite (fun _ => Ensures.ok .refl) fun _ => Ensures.bind_any fun _ _ =>
    Ensures.bind_any fun _ _ => Ensures.bind_any fun _ _ =>
      keybindingMoveViewToTile_workspaces hwf

theorem keybindingMoveViewToCycleOutput_workspaces {reverse : Bool} :
    Ensures (s.keybindingMoveViewToCycleOutput reverse) (SameWorkspaces s) := by
  refine Ensures.ite (fun _ => Ensures.ok .refl) fun _ => Ensures.bind_any fun old _ =>
    Ensures.bind_any fun f _ => ?_
  refine SameWorkspaces.bind (Ensures.ifSome (fun _ => .refl)
    fun _ _ => sameWorkspaces_of_keeps leaveView_keeps) fun s₁ => ?_
  refine SameWorkspaces.bind keybindingCycleOutputs_workspaces fun s₂ => ?_
  refine SameWorkspaces.bind (Ensures.ifSome (fun _ => .refl)
    fun _ _ => sameWorkspaces_of_keeps arriveView_keeps) fun s₃ => ?_
  exact Ensures.bind_any fun _ _ => Ensures.bind_any fun _ _ => Ensures.bind_any fun _ _ =>
    Ensures.bind_any fun _ _ => Ensures.ok ⟨rfl, rfl, rfl, rfl⟩

/-! ### Workspaces that are freed -/

theorem workspaceFree_workspaces : Ensures (s.workspaceFree w) fun s' =>
    SameWorkspaces { s with tiles.wsLive := Function.update s.tiles.wsLive w false } s' := by
  refine Ensures.bind workspaceFreeTiles_workspaces fun s₁ h₁ =>
    Ensures.ok ⟨?_, h₁.outputs, h₁.arrays, h₁.nws⟩
  show Function.update s₁.tiles.wsLive w false = Function.update s.tiles.wsLive w false
  rw [h₁.live]

/-- A loop that frees workspaces of one output leaves those with other numbers. -/
theorem freeLoop_live {f : Server → ℕ → Exec Server} (hf : ∀ s i, Ensures (f s i) fun s' =>
      ∃ w, s.outs.wsAt o i = .ok w ∧ SameWorkspaces
        { s with tiles.wsLive := Function.update s.tiles.wsLive w false } s') {l : List ℕ} :
    Ensures (l.foldlM f s) fun s' => s'.outs.outputs = s.outs.outputs ∧
      s'.outs.outWorkspaces = s.outs.outWorkspaces ∧ ∀ w, s'.tiles.wsLive w = true →
        s.tiles.wsLive w = true ∧ ∀ i ∈ l, (s.outs.outWorkspaces o)[i]? ≠ some w := by
  induction l generalizing s with
  | nil => exact Ensures.ok ⟨rfl, rfl, fun w hw => ⟨hw, nofun⟩⟩
  | cons i l ih =>
    rw [List.foldlM_cons]
    refine Ensures.bind (hf s i) ?_
    rintro s₁ ⟨w, hw, h₁⟩
    refine ih.mono ?_
    rintro s₂ ⟨houts, harrays, hlive⟩
    refine ⟨houts.trans h₁.outputs, harrays.trans h₁.arrays, fun x hx => ?_⟩
    obtain ⟨hx₁, hrest⟩ := hlive x hx
    rw [h₁.live] at hx₁
    change Function.update s.tiles.wsLive w false x = true at hx₁
    have hne : x ≠ w := by
      rintro rfl
      rw [Function.update_self] at hx₁
      exact Bool.false_ne_true hx₁
    rw [Function.update_of_ne hne] at hx₁
    refine ⟨hx₁, fun j hj he => ?_⟩
    -- it is not the one that is freed now, nor one of those freed later
    rcases List.mem_cons.mp hj with rfl | hj
    · exact hne (Option.some.inj (he.symm.trans (getElem?_of_wsAt hw)))
    · refine hrest j hj ?_
      rw [h₁.arrays]
      exact he

theorem dropAt_workspaces {i nws : ℕ} : Ensures (s.dropAt nws o i) fun s' =>
    ∃ w, s.outs.wsAt o i = .ok w ∧ SameWorkspaces
      { s with tiles.wsLive := Function.update s.tiles.wsLive w false } s' := by
  refine Ensures.bind_any fun w hw => Ensures.bind_any fun last _ => Ensures.deref fun _ =>
    Ensures.bind moveViews_keeps fun s₁ h₁ => Ensures.bind moveViews_keeps fun s₂ h₂ => ?_
  have h := (h₁.trans h₂).sameWorkspaces
  refine workspaceFree_workspaces.mono fun s₃ h₃ => ⟨w, hw, ?_, h₃.outputs.trans h.outputs,
    h₃.arrays.trans h.arrays, h₃.nws.trans h.nws⟩
  refine h₃.live.trans ?_
  show Function.update s₂.tiles.wsLive w false = Function.update s.tiles.wsLive w false
  rw [h.live]

/-! ### Workspaces that are made -/

theorem newWorkspace_workspaces {num : ℕ} : Ensures (s.newWorkspace o num) fun p =>
    p.1 = s.tiles.wsTop ∧ SameWorkspaces { s with
      tiles.wsLive := Function.update s.tiles.wsLive s.tiles.wsTop true } p.2 :=
  Ensures.bind fullScreenWorkspaceTiles_workspaces fun _ h =>
    Ensures.ok ⟨rfl, h.live, h.outputs, h.arrays, h.nws⟩

/-- New workspaces go to the array of a connected output. -/
theorem addWorkspaces_housed (ho : o ∈ s.outs.outputs) (h : s.Housed) {l : List ℕ} :
    Ensures (l.foldlM (addWorkspace o) s) Housed := by
  refine Ensures.mono (P := fun s' => s'.Housed ∧ o ∈ s'.outs.outputs)
    (Ensures.foldlM (fun s₁ i _ h₁ => ?_) ⟨h, ho⟩) fun _ h' => h'.1
  obtain ⟨h₁, ho₁⟩ := h₁
  refine addWorkspace_ensures (newWorkspace_workspaces.mono fun p hp => ?_)
  obtain ⟨w, s₂⟩ := p
  obtain ⟨rfl, h₂⟩ := hp
  have ho₂ : o ∈ s₂.outs.outputs := by
    rw [h₂.outputs]
    exact ho₁
  refine ⟨fun x hx => ?_, ho₂⟩
  change s₂.tiles.wsLive x = true at hx
  rw [h₂.live] at hx
  change Function.update s₁.tiles.wsLive s₁.tiles.wsTop true x = true at hx
  by_cases hnew : x = s₁.tiles.wsTop
  · -- the new workspace is the last one of the array
    refine ⟨o, ho₂, ?_⟩
    show x ∈ Function.update s₂.outs.outWorkspaces o _ o
    rw [Function.update_self, hnew]
    simp
  · rw [Function.update_of_ne hnew] at hx
    obtain ⟨p, hp, hmem⟩ := h₁ x hx
    have hold : x ∈ s₂.outs.outWorkspaces p := by
      rw [h₂.arrays]
      exact hmem
    refine ⟨p, ?_, ?_⟩
    · show p ∈ s₂.outs.outputs
      rw [h₂.outputs]
      exact hp
    · show x ∈ Function.update s₂.outs.outWorkspaces o _ p
      by_cases hpo : p = o
      · rw [hpo] at hold ⊢
        rw [Function.update_self]
        exact List.mem_append_left _ hold
      · rw [Function.update_of_ne hpo]
        exact hold

/-- **`keybinding_set_nws`** for one output frees what leaves the array. -/
theorem outputSetNws_housed {oldNws nws : ℕ} (ho : o ∈ s.outs.outputs)
    (hlen : (s.outs.outWorkspaces o).length = oldNws) (h : s.Housed) :
    Ensures (outputSetNws oldNws nws s o) Housed := by
  refine Ensures.bind (freeLoop_live (o := o) fun s i => dropAt_workspaces) ?_
  rintro s₁ ⟨houts₁, harrays₁, hlive₁⟩
  have hset : (s₁.setWorkspaces o ((s₁.outs.outWorkspaces o).take nws)).Housed := by
    intro w hw
    obtain ⟨hold, hfreed⟩ := hlive₁ w hw
    obtain ⟨p, hp, hmem⟩ := h w hold
    refine ⟨p, ?_, ?_⟩
    · show p ∈ s₁.outs.outputs
      rw [houts₁]
      exact hp
    show w ∈ Function.update s₁.outs.outWorkspaces o _ p
    by_cases hpo : p = o
    · rw [hpo] at hmem ⊢
      rw [Function.update_self, harrays₁]
      obtain ⟨i, hi⟩ := List.mem_iff_getElem?.mp hmem
      have hlt := (List.getElem?_eq_some_iff.mp hi).1
      -- what was at a place from `nws` on has been freed
      have hkept : i < nws := by
        by_contra hge
        refine hfreed i (List.mem_range'_1.mpr ?_) hi
        omega
      refine List.mem_of_getElem? (i := i) ?_
      rw [List.getElem?_take_of_lt hkept]
      exact hi
    · rw [Function.update_of_ne hpo, harrays₁]
      exact hmem
  refine Ensures.bind (addWorkspaces_housed ?_ hset) fun s₂ h₂ => ?_
  · show o ∈ s₁.outs.outputs
    rw [houts₁]
    exact ho
  · refine Ensures.ite (fun _ => workspaceFocus_workspaces.mono fun s₃ h₃ => ?_)
      fun _ => Ensures.ok h₂
    refine SameWorkspaces.housed ⟨h₃.live, h₃.outputs, h₃.arrays, h₃.nws⟩ h₂

/-- **`keybinding_set_nws`** leaves no workspace over. -/
theorem keybindingSetNws_housed (hwf : WellFormed False s) (h : s.Housed) {nws : ℕ}
    (hn : 1 ≤ nws) : Ensures (s.keybindingSetNws nws) Housed := by
  refine Ensures.bind (setNws_loop (I := fun l s₁ => s₁.Housed ∧ ∀ p ∈ l, p ∈ s₁.outs.outputs)
    (fun o l s₁ hol hnws hlay₁ h₁ => ?_) _ _ hwf.outs.nodup (fun _ ho => ho)
    (WellFormed.setNws hwf nws) rfl ⟨h, fun _ hp => hp⟩) fun s₁ h₁ => ?_
  · obtain ⟨h₁, hmem₁⟩ := h₁
    have ho := hmem₁ o List.mem_cons_self
    -- the loop has not been to this output, so its array has the old length
    have hlen := hlay₁.outs.len o ho
    rw [if_pos List.mem_cons_self] at hlen
    refine ((outputSetNws_housed ho hlen h₁).and (outputSetNws_outs hn)).mono ?_
    rintro s₂ ⟨h₂, houts₂, -⟩
    refine ⟨h₂, fun p hp => ?_⟩
    rw [houts₂]
    exact hmem₁ p (List.mem_cons_of_mem _ hp)
  · obtain ⟨-, -, h₁, -⟩ := h₁
    exact Ensures.bind (sameWorkspaces_of_keeps (SameLayout.keeps refocus_sameLayout))
      fun s₂ h₂ => Ensures.ok (SameWorkspaces.housed ⟨h₂.live, h₂.outputs, h₂.arrays, h₂.nws⟩ h₁)

/-! ### Outputs -/

/-- **`handle_new_output`** makes the workspaces of the output. -/
theorem handleNewOutput_housed (hwf : WellFormed False s) (h : s.Housed) {name : String}
    {box : LayoutBox} : Ensures (s.handleNewOutput name box) Housed := by
  refine Ensures.bind (addWorkspaces_housed ?_ fun w hw => ?_) fun s₁ h₁ =>
    Ensures.bind workspaceFocus_workspaces fun s₂ h₂ => Ensures.ok ?_
  · exact outputInsert_perm.mem_iff.mpr List.mem_cons_self
  · obtain ⟨p, hp, hmem⟩ := h w hw
    -- the array of the new output is empty, the others are as they were
    have hne : p ≠ s.outs.outTop := ne_of_lt (hwf.outs.out_lt p hp)
    refine ⟨p, outputInsert_perm.mem_iff.mpr (List.mem_cons_of_mem _ hp), ?_⟩
    show w ∈ Function.update s.outs.outWorkspaces s.outs.outTop [] p
    rw [Function.update_of_ne hne]
    exact hmem
  · exact SameWorkspaces.housed ⟨h₂.live, h₂.outputs, h₂.arrays, h₂.nws⟩ h₁

/-- Clearing an output leaves its workspaces where they are. -/
theorem outputClear_workspaces : Ensures (s.outputClear o) fun s' => SameWorkspaces
    { s with outs.outputs := s.outs.outputs.erase o } s' := by
  refine Ensures.bind (P := SameWorkspaces s) (Ensures.ite
    (fun _ => keybindingCycleOutputs_workspaces) fun _ => Ensures.ok .refl) fun s₁ h₁ => ?_
  refine (Ensures.foldlM (fun s₂ i _ h₂ => clearWorkspace_keeps.mono fun _ h₃ => h₂.trans h₃)
    KeepsLayout.refl).mono fun s₂ hk => ?_
  have h₂ := hk.sameWorkspaces
  refine ⟨h₂.live.trans h₁.live, h₂.outputs.trans ?_, h₂.arrays.trans h₁.arrays,
    h₂.nws.trans h₁.nws⟩
  show s₁.outs.outputs.erase o = s.outs.outputs.erase o
  rw [h₁.outputs]

/-- **`output_destroy`** frees the workspaces of the output. -/
theorem outputDestroy_housed (hwf : WellFormed False s) (ho : o ∈ s.outs.outputs) (h : s.Housed) :
    Ensures (s.outputDestroy o) Housed := by
  refine Ensures.bind outputClear_workspaces fun s₁ h₁ => ?_
  refine Ensures.bind (freeLoop_live (o := o) fun s₂ i => Ensures.bind_any fun w hw =>
    Ensures.deref fun _ => workspaceFree_workspaces.mono fun _ h₃ => ⟨w, hw, h₃⟩) ?_
  rintro s₂ ⟨houts₂, harrays₂, hlive₂⟩
  have h₂ : s₂.Housed := by
    intro w hw
    obtain ⟨hold, hfreed⟩ := hlive₂ w hw
    rw [h₁.live] at hold
    obtain ⟨p, hp, hmem⟩ := h w hold
    -- the loop frees `nws` workspaces, which is all that the output has
    have hpo : p ≠ o := by
      rintro rfl
      obtain ⟨i, hi⟩ := List.mem_iff_getElem?.mp hmem
      have hlt := (List.getElem?_eq_some_iff.mp hi).1
      rw [hwf.outs.len p ho] at hlt
      refine hfreed i (List.mem_range.mpr ?_) ?_
      · rw [h₁.nws]
        exact hlt
      · rw [h₁.arrays]
        exact hi
    refine ⟨p, ?_, ?_⟩
    · rw [houts₂, h₁.outputs]
      exact (List.mem_erase_of_ne hpo).mpr hp
    · rw [harrays₂, h₁.arrays]
      exact hmem
  refine Ensures.ok ?_
  split
  · exact SameWorkspaces.housed ⟨rfl, rfl, rfl, rfl⟩ h₂
  · exact SameWorkspaces.housed ⟨rfl, rfl, rfl, rfl⟩ h₂

/-! ### Every input -/

theorem runAction_housed (hwf : WellFormed False s) (h : s.Housed) :
    Ensures (s.runAction a) Housed := by
  have hsame : ∀ m : Exec Server, Ensures m (SameWorkspaces s) → Ensures m Housed :=
    fun m hm => hm.mono fun _ h' => h'.housed h
  cases a with
  | workspaces nws => exact keybindingSetNws_housed hwf h nws.2.1
  | layoutFullscreen => exact hsame _ keybindingWorkspaceFullscreen_workspaces
  | splitHorizontal => exact hsame _ (Ensures.bind_any fun _ _ => keybindingSplitOutput_workspaces)
  | splitVertical => exact hsame _ (Ensures.bind_any fun _ _ => keybindingSplitOutput_workspaces)
  | cycleViews => exact hsame _ (sameWorkspaces_of_keeps keybindingCycleViews_keeps)
  | cycleTiles =>
    exact hsame _ (Ensures.ite (fun _ => keybindingCycleTiles_workspaces hwf)
      fun _ => keybindingFocusTile_workspaces hwf)
  | cycleOutput => exact hsame _ keybindingCycleOutputs_workspaces
  | switchWorkspace => exact hsame _ keybindingSwitchWs_workspaces
  | switchOutput => exact hsame _ keybindingSwitchOutput_workspaces
  | resizeTileHorizontal => exact hsame _ resizeTile_workspaces
  | resizeTileVertical => exact hsame _ resizeTile_workspaces
  | moveToTile =>
    exact hsame _ (Ensures.bind_any fun _ _ => keybindingMoveViewToTile_workspaces hwf)
  | moveToWorkspace =>
    exact hsame _ (Ensures.bind_any fun _ _ => keybindingMoveViewToWorkspace_workspaces hwf)
  | moveToOutput =>
    exact hsame _ (Ensures.bind_any fun _ _ => keybindingMoveViewToOutput_workspaces hwf)
  | moveViewToTile => exact hsame _ (keybindingMoveViewToTile_workspaces hwf)
  | moveViewToWorkspace => exact hsame _ (keybindingMoveViewToWorkspace_workspaces hwf)
  | moveViewToOutput => exact hsame _ (keybindingMoveViewToOutput_workspaces hwf)
  | merge =>
    exact hsame _ (Ensures.bind_any fun _ _ => Ensures.ifSome (fun _ => .refl)
      fun _ _ => mergeTile_workspaces)
  | swapDir => exact hsame _ (swapTile_workspaces hwf)
  | swap =>
    exact hsame _ (Ensures.bind_any fun _ _ => Ensures.bind_any fun _ _ => swapTiles_workspaces hwf)
  | focus => exact hsame _ (Ensures.bind_any fun _ _ => focusTile_workspaces)
  | moveViewToCycleOutput => exact hsame _ keybindingMoveViewToCycleOutput_workspaces

/-- **Every input** leaves no workspace over. -/
theorem step_housed (hwf : WellFormed False s) (h : s.Housed) : Ensures (step s i) Housed := by
  have hkeeps : ∀ m : Exec Server, Ensures m (KeepsLayout s) → Ensures m Housed :=
    fun m hm => hm.mono fun _ hk => hk.sameWorkspaces.housed h
  refine Ensures.ite (fun _ => Ensures.ok h) fun _ => ?_
  cases i with
  | command a => exact runAction_housed hwf h
  | outputNew name box cursor => exact handleNewOutput_housed (hwf.setCursorAt cursor) h
  | outputDestroy o cursor =>
    exact Ensures.deref fun ho => outputDestroy_housed (hwf.setCursorAt cursor)
      (of_decide_eq_true ho) h
  | layoutChange o box => exact Ensures.ok h
  | cursorMotion cursor =>
    refine processCursorMotion_sameLayout.mono fun s' h' => ?_
    exact h'.toKeepsLayout.sameWorkspaces.housed h
  | viewNew => exact hkeeps _ viewInit_keeps
  | viewMap => exact Ensures.deref fun _ => hkeeps _ viewMap_keeps
  | viewUnmap => exact Ensures.deref fun _ => hkeeps _ viewUnmap_keeps
  | viewDestroy => exact hkeeps _ viewDestroy_keeps

end Server

open Server

variable {s : Server}

/-- The workspaces in every reachable state. -/
theorem Reachable.housed (h : Reachable s) : s.Housed :=
  (Steps.invariant (I := fun s => WellFormed False s ∧ s.Housed) h ⟨.init, nofun⟩
    fun _ _ hs _ => (step_wellFormed (fun _ => rfl) hs.1).and (step_housed hs.1 hs.2)).2

/-- The place of a workspace that is allocated. -/
theorem Reachable.placed (h : Reachable s) {w : WsPtr} (hw : s.tiles.wsLive w = true) :
    ∃ o ∈ s.outs.outputs, ∃ i < s.outs.nws, s.outs.wsAt o i = .ok w := by
  have hwf := h.wellFormed
  obtain ⟨o, ho, hmem⟩ := h.housed w hw
  obtain ⟨i, hi⟩ := List.mem_iff_getElem?.mp hmem
  have hlt := (List.getElem?_eq_some_iff.mp hi).1
  rw [hwf.outs.len o ho] at hlt
  refine ⟨o, ho, i, hlt, ?_⟩
  rw [Outputs.wsAt, deref_eq_ok.mpr (hwf.outs.outLive o ho), ok_bind]
  exact nonNull_eq_ok.mpr hi

/-- Two outputs, one of which goes away again. -/
theorem exists_unplugged : ∃ s, Reachable s ∧ s.tiles.wsLive 0 = true ∧
    s.tiles.wsLive 1 = false := by
  obtain ⟨s, hs, htest⟩ := exists_of_returns
    (p := fun s : Server => s.tiles.wsLive 0 && !s.tiles.wsLive 1)
    (m := run step Server.init
      [.outputNew "HDMI-A-1" ⟨0, 0, 8, 6, by decide, by decide⟩ none,
        .outputNew "DP-1" ⟨8, 0, 8, 6, by decide, by decide⟩ none, .outputDestroy 1 none])
    (by decide +kernel)
  simp only [Bool.and_eq_true, Bool.not_eq_true'] at htest
  exact ⟨s, Steps.of_run hs fun _ _ _ => trivial, htest⟩

/-- **The workspaces that are allocated are those of the connected outputs**, each at its
number in the array of its output, in every reachable state. -/
theorem wsLive_iff (h : Reachable s) (w : WsPtr) : s.tiles.wsLive w = true ↔
    s.tiles.wsOutput w ∈ s.outs.outputs ∧ s.tiles.wsNum w < s.outs.nws ∧
      s.outs.wsAt (s.tiles.wsOutput w) (s.tiles.wsNum w) = .ok w := by
  have hwf := h.wellFormed
  constructor
  · intro hw
    obtain ⟨o, ho, i, hi, hwsAt⟩ := h.placed hw
    obtain ⟨-, rfl, rfl⟩ := hwf.outs.place o i w (getElem?_of_wsAt hwsAt)
    exact ⟨ho, hi, hwsAt⟩
  · rintro ⟨ho, hlt, hw⟩
    exact hwf.outs.wsLive _ ho _ w hlt (getElem?_of_wsAt hw)

theorem wsLive_iff_unplugged : ∃ s, Reachable s ∧ s.tiles.wsLive 0 = true ∧
    s.tiles.wsLive 1 = false ∧ ∀ w, s.tiles.wsLive w = true ↔
      s.tiles.wsOutput w ∈ s.outs.outputs ∧ s.tiles.wsNum w < s.outs.nws ∧
        s.outs.wsAt (s.tiles.wsOutput w) (s.tiles.wsNum w) = .ok w := by
  obtain ⟨s, hreach, hlive, hfreed⟩ := exists_unplugged
  exact ⟨s, hreach, hlive, hfreed, wsLive_iff hreach⟩

/-- Every tile that is allocated is on a connected output. -/
theorem Reachable.tile_placed (h : Reachable s) {t : TilePtr} (ht : s.tiles.tileLive t = true) :
    s.Placed t := by
  have hwf := h.wellFormed
  obtain ⟨o, ho, i, hi, hwsAt⟩ := h.placed (hwf.tiles.tile_ws t ht).1
  obtain ⟨-, rfl, rfl⟩ := hwf.outs.place o i _ (getElem?_of_wsAt hwsAt)
  exact ⟨ht, ho, hi, hwsAt⟩

/-- **`tile_from_id` finds every tile that is allocated**, and nothing else. -/
theorem tileFromId_finds (h : Reachable s) (id : ℕ) : ∃ found, s.tileFromId id = .ok found ∧
    (∀ t, found = some t → s.tiles.tileLive t = true ∧ s.tiles.tileId t = id) ∧
      ((∃ t, s.tiles.tileLive t = true ∧ s.tiles.tileId t = id) → found ≠ none) := by
  obtain ⟨found, hfound, hsome, hnone⟩ := tileFromId_spec h.wellFormed id
  refine ⟨found, hfound, fun t ht => ⟨(hsome t ht).1.live, (hsome t ht).2⟩, ?_⟩
  rintro ⟨t, ht, hid⟩ hn
  exact hnone hn t (h.tile_placed ht) hid

theorem tileFromId_finds_unplugged : ∃ s, Reachable s ∧ s.tiles.wsLive 1 = false ∧
    ∃ found, s.tileFromId 1 = .ok found ∧
      (∀ t, found = some t → s.tiles.tileLive t = true ∧ s.tiles.tileId t = 1) ∧
        ((∃ t, s.tiles.tileLive t = true ∧ s.tiles.tileId t = 1) → found ≠ none) := by
  obtain ⟨s, hreach, -, hfreed⟩ := exists_unplugged
  exact ⟨s, hreach, hfreed, tileFromId_finds hreach 1⟩

end Cagebreak
