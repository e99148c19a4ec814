/-
What the tile pointers of views lead to.

A tile pointer is set to a tile that is there, or to one that has just been made, and
the memory of a tile is never used again.  So whatever an input does, a mapped view
points where it pointed before, or at such a tile (`Repoints`): a freed tile that no
mapped view points at stays so (`Repoints.forgotten`).

* `step_repoints` — what one input does to the pointers of mapped views;
* `step_pointing` — to those of all views;
* `forgotten_of_steps` — a tile that is forgotten once is forgotten for ever.
-/
import Cagebreak.Shown

namespace Cagebreak

open Exec

/-- The command frees tiles. -/
def Action.FreesTiles : Action → Prop
  | .layoutFullscreen .. | .merge .. | .workspaces _ => True
  | _ => False

/-- The input frees tiles. -/
def Input.FreesTiles : Input → Prop
  | .command a => a.FreesTiles
  | .outputDestroy .. => True
  | _ => False

namespace Server

variable {F : Prop} {s s' s'' : Server} {m t : TilePtr} {v : ViewPtr} {w w' : WsPtr} {o : OutPtr}
  {view : Option ViewPtr} {managed : Bool} {a : Action} {i : Input}

/-- A mapped view points at the tile. -/
def PointsAt (s : Server) (v : ViewPtr) (t : TilePtr) : Prop :=
  s.views.viewMapped v = true ∧ s.disp.viewTile v = some t

/-- The tile is there, or has been made by the time of `s'`. -/
def Standing (s s' : Server) (t : TilePtr) : Prop :=
  s.tiles.tileLive t = true ∨ s.tiles.tileTop ≤ t ∧ t < s'.tiles.tileTop

/-- The same views are there, and mapped. -/
structure SameMapped (V V' : Views) : Prop where
  top : V'.viewTop = V.viewTop
  live : V'.viewLive = V.viewLive
  attrs : V'.viewAttrs = V.viewAttrs
  mapped : V'.viewMapped = V.viewMapped

/-- The view was there before, and of the same kind. -/
def OldView (V V' : Views) (v : ViewPtr) : Prop :=
  V.viewLive v = true ∧ V'.viewAttrs v = V.viewAttrs v

theorem SameMapped.oldView {V V' : Views} (h : SameMapped V V') (hv : V'.viewLive v = true) :
    OldView V V' v :=
  ⟨by rwa [h.live] at hv, by rw [h.attrs]⟩

/-- Tiles and views are only made, or freed, tiles only if `F` holds, and what views point
at now and did not before are tiles that were there or have been made. -/
structure Pointing (F : Prop) (s s' : Server) : Prop where
  top : s.tiles.tileTop ≤ s'.tiles.tileTop
  live : ∀ t, s'.tiles.tileLive t = true → s.Standing s' t
  kept : ¬ F → ∀ t, s.Standing s' t → s'.tiles.tileLive t = true
  made : s.views.viewTop ≤ s'.views.viewTop
  old : ∀ v, s'.views.viewLive v = true → OldView s.views s'.views v ∨
    ∀ t, s'.disp.viewTile v = some t → s.Standing s' t
  pointers : ∀ v t, s'.disp.viewTile v = some t → s.disp.viewTile v = some t ∨ s.Standing s' t

/-- The same, and what mapped views point at. -/
structure Repoints (F : Prop) (s s' : Server) : Prop extends Pointing F s s' where
  mapped : ∀ v, s'.views.viewMapped v = true → s.views.viewMapped v = true ∨ v < s'.views.viewTop
  views : ∀ v t, s'.PointsAt v t → s.PointsAt v t ∨ s.Standing s' t

theorem Standing.later (h : s.Standing s' t) (htop : s'.tiles.tileTop ≤ s''.tiles.tileTop) :
    s.Standing s'' t :=
  h.imp_right fun hnew => ⟨hnew.1, hnew.2.trans_le htop⟩

theorem Pointing.sooner (h : Pointing F s s') (htop : s'.tiles.tileTop ≤ s''.tiles.tileTop)
    (ht : s'.Standing s'' t) : s.Standing s'' t := by
  rcases ht with ht | ⟨hle, hlt⟩
  · exact (h.live t ht).later htop
  · exact .inr ⟨h.top.trans hle, hlt⟩

theorem Pointing.trans (h : Pointing F s s') (h' : Pointing F s' s'') : Pointing F s s'' := by
  refine ⟨h.top.trans h'.top, fun t ht => h.sooner h'.top (h'.live t ht), fun hF t ht => ?_,
    h.made.trans h'.made, fun v hv => ?_, fun v t hv => ?_⟩
  · refine h'.kept hF t ?_
    rcases ht with ht | ⟨hle, hlt⟩
    · exact .inl (h.kept hF t (.inl ht))
    · by_cases hold : t < s'.tiles.tileTop
      · exact .inl (h.kept hF t (.inr ⟨hle, hold⟩))
      · exact .inr ⟨not_lt.mp hold, hlt⟩
  · rcases h'.old v hv with ⟨hlive, hattrs⟩ | hnew
    · refine (h.old v hlive).imp (fun hold => ⟨hold.1, hattrs.trans hold.2⟩) fun hnew t ht => ?_
      rcases h'.pointers v t ht with hold | ht
      · exact (hnew t hold).later h'.top
      · exact h.sooner h'.top ht
    · exact .inr fun t ht => h.sooner h'.top (hnew t ht)
  · rcases h'.pointers v t hv with hv | ht
    · exact (h.pointers v t hv).imp_right fun ht => ht.later h'.top
    · exact .inr (h.sooner h'.top ht)

theorem Repoints.trans (h : Repoints F s s') (h' : Repoints F s' s'') : Repoints F s s'' := by
  refine ⟨h.toPointing.trans h'.toPointing, fun v hv => ?_, fun v t hv => ?_⟩
  · rcases h'.mapped v hv with hv | hv
    · exact (h.mapped v hv).imp_right fun hlt => hlt.trans_le h'.made
    · exact .inr hv
  · rcases h'.views v t hv with hv | ht
    · exact (h.views v t hv).imp_right fun ht => ht.later h'.top
    · exact .inr (h.sooner h'.top ht)

theorem Repoints.freeing (hF : F) (h : Repoints True s s') : Repoints F s s' := by
  rwa [eq_true hF]

/-- Sequencing operations that set tile pointers. -/
theorem Repoints.bind {m : Exec Server} {f : Server → Exec Server}
    (hm : Ensures m (Repoints F s)) (hf : ∀ s₁, Ensures (f s₁) (Repoints F s₁)) :
    Ensures (m >>= f) (Repoints F s) :=
  hm.bind fun s₁ h₁ => (hf s₁).mono fun _ h₂ => h₁.trans h₂

/-- Setting something before an operation. -/
theorem Repoints.before {n : Exec Server} (hn : Ensures n (Repoints F s'))
    (h : Repoints F s s') : Ensures n (Repoints F s) :=
  hn.mono fun _ h' => h.trans h'

/-- No view is mapped. -/
theorem Pointing.unmapped (h : Pointing F s s')
    (hmapped : ∀ v, s'.views.viewMapped v = true → s.views.viewMapped v = true) :
    Repoints F s s' :=
  ⟨h, fun v hv => .inl (hmapped v hv), fun v t hv =>
    (h.pointers v t hv.2).imp_left fun hold => ⟨hmapped v hv.1, hold⟩⟩

/-- The same tiles. -/
theorem Pointing.of_same (htop : s'.tiles.tileTop = s.tiles.tileTop)
    (hlive : s'.tiles.tileLive = s.tiles.tileLive) (hmade : s.views.viewTop ≤ s'.views.viewTop)
    (hold : ∀ v, s'.views.viewLive v = true →
      OldView s.views s'.views v ∨ s'.disp.viewTile v = none)
    (hview : ∀ v t, s'.disp.viewTile v = some t →
      s.disp.viewTile v = some t ∨ s.tiles.tileLive t = true) : Pointing F s s' := by
  refine ⟨htop.ge, fun t ht => .inl ?_, fun _ t ht => ?_, hmade, fun v hv =>
    (hold v hv).imp_right fun hnone t ht => ?_, fun v t hv => (hview v t hv).imp_right .inl⟩
  · rw [← hlive]
    exact ht
  · rw [hlive]
    refine ht.resolve_right fun hnew => ?_
    rw [htop] at hnew
    exact absurd hnew.2 (not_lt.mpr hnew.1)
  · rw [hnone] at ht
    exact nomatch ht

theorem Repoints.refl : Repoints F s s :=
  (Pointing.of_same rfl rfl le_rfl (fun _ hv => .inl ⟨hv, rfl⟩) fun _ _ => .inl).unmapped
    fun _ => id

/-- Tiles are freed. -/
theorem Repoints.free (htop : s'.tiles.tileTop = s.tiles.tileTop)
    (hlive : ∀ t, s'.tiles.tileLive t = true → s.tiles.tileLive t = true)
    (hviews : SameMapped s.views s'.views) (hview : s'.disp.viewTile = s.disp.viewTile) :
    Repoints True s s' := by
  refine Pointing.unmapped ⟨htop.ge, fun t ht => .inl (hlive t ht), fun hF => absurd trivial hF,
    hviews.top.ge, fun v hv => .inl (hviews.oldView hv), fun v t hv => .inl ?_⟩ fun v hv => ?_
  · rw [← hview]
    exact hv
  · rw [← hviews.mapped]
    exact hv

/-- No tile pointer is set. -/
theorem Repoints.unchanged (htop : s'.tiles.tileTop = s.tiles.tileTop)
    (hlive : s'.tiles.tileLive = s.tiles.tileLive) (hviews : SameMapped s.views s'.views)
    (hview : s'.disp.viewTile = s.disp.viewTile) : Repoints F s s' := by
  refine (Pointing.of_same htop hlive hviews.top.ge (fun v hv => .inl (hviews.oldView hv))
    fun v t hv => .inl ?_).unmapped fun v hv => ?_
  · rw [← hview]
    exact hv
  · rw [← hviews.mapped]
    exact hv

/-- A view is freed. -/
theorem Repoints.freeView : Repoints F s
    { s with views.viewLive := Function.update s.views.viewLive v false } := by
  refine Pointing.unmapped (.of_same rfl rfl le_rfl (fun u hu => ?_) fun _ _ => .inl) fun _ => id
  by_cases huv : u = v
  · simp [huv] at hu
  · exact .inl ⟨by simpa [huv] using hu, rfl⟩

/-- A tile is made. -/
theorem Repoints.newTile (htop : s'.tiles.tileTop = s.tiles.tileTop + 1)
    (hlive : s'.tiles.tileLive = Function.update s.tiles.tileLive s.tiles.tileTop true)
    (hviews : SameMapped s.views s'.views) (hview : s'.disp.viewTile = s.disp.viewTile) :
    Repoints F s s' := by
  refine Pointing.unmapped ⟨htop ▸ Nat.le_succ _, fun t ht => ?_, fun _ t ht => ?_, hviews.top.ge,
    fun v hv => .inl (hviews.oldView hv), fun v t hv => .inl ?_⟩ fun v hv => ?_
  · rw [hlive] at ht
    by_cases hnew : t = s.tiles.tileTop
    · exact .inr ⟨hnew.ge, by rw [hnew, htop]; exact Nat.lt_succ_self _⟩
    · rw [Function.update_of_ne hnew] at ht
      exact .inl ht
  · rw [hlive]
    by_cases hnew : t = s.tiles.tileTop
    · rw [hnew, Function.update_self]
    · rw [Function.update_of_ne hnew]
      refine ht.resolve_right fun hlt => hnew ?_
      rw [htop] at hlt
      exact le_antisymm (Nat.lt_succ_iff.mp hlt.2) hlt.1
  · rw [← hview]
    exact hv
  · rw [← hviews.mapped]
    exact hv

/-- The tile has been freed, and no mapped view points at it. -/
structure Forgotten (s : Server) (m : TilePtr) : Prop where
  known : m < s.tiles.tileTop
  freed : s.tiles.tileLive m = false
  views : ∀ v, ¬ s.PointsAt v m

theorem Repoints.forgotten (h : Repoints F s s') (hm : s.Forgotten m) : s'.Forgotten m := by
  have hnot : ¬ s.Standing s' m := by
    rintro (hlive | ⟨htop, -⟩)
    · exact Bool.noConfusion (hm.freed.symm.trans hlive)
    · exact absurd hm.known (Nat.not_lt.mpr htop)
  refine ⟨hm.known.trans_le h.top, ?_, fun v hv => ?_⟩
  · exact Bool.eq_false_iff.mpr fun ht => hnot (h.live m ht)
  · exact (h.views v m hv).elim (hm.views v) hnot

/-! ### Showing and focusing -/

/-- Views are pointed at tiles that are there. -/
theorem Repoints.setPointers (htiles : s'.tiles = s.tiles) (hviews : SameMapped s.views s'.views)
    (hview : ∀ v t, s'.disp.viewTile v = some t →
      s.disp.viewTile v = some t ∨ s.tiles.tileLive t = true) : Repoints F s s' := by
  refine (Pointing.of_same (by rw [htiles]) (by rw [htiles]) hviews.top.ge
    (fun v hv => .inl (hviews.oldView hv)) hview).unmapped fun v hv => ?_
  rw [← hviews.mapped]
  exact hv

theorem viewMaximize_repoints : Ensures (s.viewMaximize v t) (Repoints F s) := by
  refine viewMaximize_spec.mono ?_
  rintro s' ⟨ht, sc, rfl⟩
  refine .setPointers rfl ⟨rfl, rfl, rfl, rfl⟩ fun u t' hu => ?_
  by_cases huv : u = v
  · subst huv
    obtain rfl : t = t' := by simpa using hu
    exact .inr ht
  · exact .inl (by simpa [huv] using hu)

/-- What a view points at once another one is put into a tile. -/
theorem assign_pointer {D : Display} (hv : (D.assign t view).viewTile v = some m) :
    D.viewTile v = some m ∨ view = some v ∧ m = t := by
  by_cases hview : view = some v
  · rw [hview, Display.assign_viewTile_self] at hv
    exact .inr ⟨hview, (Option.some.inj hv).symm⟩
  · by_cases hold : D.tileView t = some v
    · rw [Display.assign_viewTile_old hview hold] at hv
      exact nomatch hv
    · rw [Display.assign_viewTile_of_ne hview hold] at hv
      exact .inl hv

/-- A view is put into a tile that is there. -/
theorem Repoints.assign (ht : s.tiles.tileLive t = true) (htiles : s'.tiles = s.tiles)
    (hviews : SameMapped s.views s'.views)
    (hview : s'.disp.viewTile = (s.disp.assign t view).viewTile) : Repoints F s s' := by
  refine .setPointers htiles hviews fun v m hv => ?_
  rw [hview] at hv
  refine (assign_pointer hv).imp_right ?_
  rintro ⟨-, rfl⟩
  exact ht

theorem workspaceTileUpdateView_repoints :
    Ensures (s.workspaceTileUpdateView t view) (Repoints F s) := by
  refine workspaceTileUpdateView_spec.mono ?_
  rintro s' ⟨ht, sc, rfl⟩
  exact .assign ht rfl ⟨rfl, rfl, rfl, rfl⟩ rfl

theorem seatSetFocus_repoints : Ensures (s.seatSetFocus view) (Repoints F s) := by
  cases view with
  | none =>
    refine Ensures.bind_any fun f _ => Repoints.bind workspaceTileUpdateView_repoints fun s₁ => ?_
    refine Ensures.bind_any fun _ _ => processCursorMotion_spec.mono ?_
    rintro s' ⟨c, e, rfl, -⟩
    exact .unchanged rfl rfl ⟨rfl, rfl, rfl, rfl⟩ rfl
  | some v =>
    refine Ensures.deref fun _ => Ensures.ite (fun _ => ?_) fun _ => Ensures.ite (fun _ => ?_)
      fun _ => Ensures.ok .refl
    · refine Ensures.bind_any fun w _ => Ensures.bind_any fun f _ =>
        Repoints.bind workspaceTileUpdateView_repoints fun s₁ => ?_
      refine Ensures.bind wlListRemove_spec ?_
      rintro V₁ ⟨_, _, -, -, rfl⟩
      refine Ensures.bind wlListInsert_spec ?_
      rintro V₂ ⟨_, -, rfl⟩
      refine Ensures.bind_any fun _ _ => seatEnter_spec.mono ?_
      rintro s' ⟨c, e, rfl, -⟩
      exact .unchanged rfl rfl ⟨rfl, rfl, rfl, rfl⟩ rfl
    · refine seatEnter_spec.mono ?_
      rintro s' ⟨c, e, rfl, -⟩
      exact .unchanged rfl rfl ⟨rfl, rfl, rfl, rfl⟩ rfl

theorem emit_repoints {e : Event} : Repoints F s (s.emit e) :=
    .unchanged rfl rfl ⟨rfl, rfl, rfl, rfl⟩ rfl

theorem refocus_repoints : Ensures s.refocus (Repoints F s) :=
  Ensures.bind_any fun _ _ => seatSetFocus_repoints

theorem setOutput_repoints : Ensures (s.setOutput o) (Repoints F s) :=
  Repoints.before refocus_repoints (.unchanged rfl rfl ⟨rfl, rfl, rfl, rfl⟩ rfl)

theorem unlinkView_repoints : Ensures (s.unlinkView v) (Repoints F s) := by
  refine Ensures.bind wlListRemove_spec ?_
  rintro V ⟨_, _, -, -, rfl⟩
  exact Ensures.ok (.unchanged rfl rfl ⟨rfl, rfl, rfl, rfl⟩ rfl)

theorem linkView_repoints : Ensures (s.linkView managed w v) (Repoints F s) := by
  refine Ensures.bind wlListInsert_spec ?_
  rintro V ⟨_, -, rfl⟩
  exact Ensures.ok (.unchanged rfl rfl ⟨rfl, rfl, rfl, rfl⟩ rfl)

theorem workspaceFocus_repoints {ws : ℕ} : Ensures (s.workspaceFocus o ws) (Repoints F s) :=
  Ensures.ite (fun _ => Ensures.ok .refl) fun _ => Ensures.bind_any fun _ _ =>
    Ensures.bind_any fun _ _ => Ensures.deref fun _ =>
      Ensures.ok (.unchanged rfl rfl ⟨rfl, rfl, rfl, rfl⟩ rfl)

theorem workspaceFocusTile_repoints : Ensures (s.workspaceFocusTile w t) (Repoints F s) :=
  Ensures.deref fun _ => Ensures.ok (.unchanged rfl rfl ⟨rfl, rfl, rfl, rfl⟩ rfl)

/-! ### Commands on tiles and views -/

theorem keybindingCycleViews_repoints {tile : Option TilePtr} {viewId : ℕ} {reverse ipc : Bool} :
    Ensures (s.keybindingCycleViews tile viewId reverse ipc) (Repoints F s) := by
  refine Ensures.bind_any fun t _ => Ensures.deref fun _ => Ensures.bind_any fun next _ =>
    Ensures.ifSome (fun _ => .refl) fun v _ => ?_
  refine Repoints.bind workspaceTileUpdateView_repoints fun s₁ => Ensures.bind_any fun f _ => ?_
  refine Repoints.bind (Ensures.ite (fun _ => seatSetFocus_repoints) fun _ => Ensures.ok .refl)
    fun s₂ => Ensures.ite (fun _ => emitCycleViews_spec.mono ?_) fun _ => Ensures.ok .refl
  rintro s' ⟨e, rfl⟩
  exact emit_repoints

theorem keybindingCycleOutputs_repoints {reverse triggerEvent : Bool} :
    Ensures (s.keybindingCycleOutputs reverse triggerEvent) (Repoints F s) := by
  refine Ensures.bind_any fun old _ => Ensures.nonNull fun o _ => Repoints.bind setOutput_repoints
    fun s₁ => Ensures.ok ?_
  split
  · exact emit_repoints
  · exact .refl

theorem keybindingSwitchOutput_repoints {num : ℕ} :
    Ensures (s.keybindingSwitchOutput num) (Repoints F s) :=
  Ensures.bind_any fun _ _ => Ensures.ifSome (fun _ => .refl) fun _ _ =>
    Repoints.bind setOutput_repoints fun _ => Ensures.ok emit_repoints

theorem keybindingSwitchWs_repoints {ws : ℕ} : Ensures (s.keybindingSwitchWs ws) (Repoints F s) :=
  Ensures.ite (fun _ => Ensures.ok .refl) fun _ => Ensures.bind_any fun _ _ =>
    Repoints.bind workspaceFocus_repoints fun _ => Ensures.bind_any fun _ _ =>
      Ensures.bind_any fun _ _ => Repoints.bind seatSetFocus_repoints fun _ =>
        Ensures.ok emit_repoints

theorem keybindingFocusTile_repoints {tileId : ℕ} :
    Ensures (s.keybindingFocusTile tileId) (Repoints F s) := by
  refine Ensures.bind_any fun o _ => Ensures.bind_any fun w _ => Ensures.bind_any fun old _ =>
    Ensures.bind_any fun tile _ => Ensures.ifSome (fun _ => .refl) fun t _ =>
    Ensures.bind_any fun ot _ => ?_
  refine Repoints.bind (Ensures.ite (fun _ => Ensures.ok .refl) fun _ => setOutput_repoints)
    fun s₁ => Ensures.bind_any fun oc _ => ?_
  refine Repoints.bind (Ensures.ite (fun _ => Ensures.ok .refl) fun _ =>
    keybindingSwitchWs_repoints)
    fun s₂ => Repoints.bind workspaceFocusTile_repoints fun s₃ => ?_
  exact Repoints.bind seatSetFocus_repoints fun s₄ => Ensures.ok emit_repoints

theorem focusTile_repoints {dir : Direction} : Ensures (s.focusTile dir t) (Repoints F s) :=
  Ensures.bind_any fun _ _ => Ensures.ifSome (fun _ => .refl) fun _ _ =>
    Repoints.bind workspaceFocusTile_repoints fun _ => seatSetFocus_repoints

theorem maximizeShown_repoints :
    Ensures (Exec.ifSome view s fun v => s.viewMaximize v t) (Repoints F s) :=
  Ensures.ifSome (fun _ => .refl) fun _ _ => viewMaximize_repoints

theorem swapTiles_repoints {tile swapTile : Option TilePtr} {follow : Bool} :
    Ensures (s.swapTiles tile swapTile follow) (Repoints F s) := by
  unfold swapTiles
  split
  · refine Ensures.ite (fun _ => Ensures.ok .refl) fun _ => Ensures.deref fun _ => ?_
    refine Repoints.bind workspaceTileUpdateView_repoints fun s₁ => ?_
    refine Repoints.bind workspaceTileUpdateView_repoints fun s₂ => ?_
    refine Repoints.bind workspaceTileUpdateView_repoints fun s₃ => ?_
    refine Repoints.bind (Ensures.ite (fun _ => keybindingFocusTile_repoints)
      fun _ => refocus_repoints) fun s₄ => Ensures.bind_any fun place _ => ?_
    obtain ⟨ws, output, outputId⟩ := place
    exact Ensures.ok emit_repoints
  · exact Ensures.ok .refl

theorem mergeTile_repoints {dir : Direction} : Ensures (s.mergeTile dir t) (Repoints True s) := by
  refine Ensures.bind_any fun neighbour _ => Ensures.ifSome (fun _ => .refl) fun m _ =>
    Ensures.ite (fun _ => Ensures.ok .refl) fun _ => ?_
  refine Repoints.bind workspaceTileUpdateView_repoints fun s₁ => ?_
  refine Ensures.nonNull fun p _ => Ensures.nonNull fun n _ => ?_
  refine Repoints.bind (Repoints.before maximizeShown_repoints ?_) fun s₂ =>
    Ensures.bind_any fun place _ => ?_
  · refine .free rfl (fun u hu => ?_) ⟨rfl, rfl, rfl, rfl⟩ rfl
    by_cases hum : u = m
    · simp [hum] at hu
    · simpa [hum] using hu
  · obtain ⟨ws, output, outputId⟩ := place
    exact Ensures.ok emit_repoints

theorem keybindingSplitOutput_repoints {vertical : Bool} {percentage : Percentage} :
    Ensures (s.keybindingSplitOutput o vertical percentage) (Repoints F s) := by
  refine Ensures.bind_any fun w _ => Ensures.bind_any fun f _ => Ensures.deref fun _ =>
    Ensures.ite (fun _ => Ensures.ok .refl) fun _ => Ensures.bind_any fun nextView _ =>
    Ensures.nonNull fun c _ => ?_
  refine Repoints.bind (Repoints.before workspaceTileUpdateView_repoints
    (.newTile rfl rfl ⟨rfl, rfl, rfl, rfl⟩ rfl)) fun s₂ => ?_
  refine Repoints.bind workspaceFocusTile_repoints fun s₃ => ?_
  refine Repoints.bind maximizeShown_repoints fun s₄ => ?_
  refine Repoints.bind maximizeShown_repoints fun s₅ => Ensures.bind_any fun place _ => ?_
  obtain ⟨ws, output, outputId⟩ := place
  exact Ensures.ok emit_repoints

theorem resize_repoints {axis : Axis} {orig tile : TilePtr} {parent : Option TilePtr} {n : ℕ}
    {coordOffset dimOffset : ℤ} :
    Ensures (resize axis orig n s tile parent coordOffset dimOffset) (Repoints F s) := by
  induction n generalizing s tile parent coordOffset dimOffset with
  | zero => exact Ensures.error
  | succ n ih =>
    refine Ensures.ite (fun _ => Ensures.ok .refl) fun _ => Ensures.bind_any fun its _ => ?_
    refine Repoints.bind (Ensures.foldlM (fun s₁ it _ h₁ => ?_) .refl) fun s₁ => ?_
    · refine Ensures.ite (fun _ => Ensures.ok h₁) fun _ => ?_
      cases handedOn s₁.tiles axis tile it coordOffset dimOffset with
      | none => exact Ensures.ok h₁
      | some cd => exact ih.mono fun _ h₂ => h₁.trans h₂
    · refine Repoints.bind (Repoints.before maximizeShown_repoints ?_) fun s₂ =>
        Ensures.bind_any fun place _ => ?_
      · exact .unchanged rfl rfl ⟨rfl, rfl, rfl, rfl⟩ rfl
      · obtain ⟨ws, output, outputId⟩ := place
        exact Ensures.ok emit_repoints

theorem resizeAlong_repoints {axis : Axis} {pixs : ℤ} :
    Ensures (s.resizeAlong axis o t pixs) (Repoints F s) :=
  Ensures.deref fun _ => Ensures.ite (fun _ => Ensures.bind_any fun _ _ =>
    Ensures.ite (fun _ => resize_repoints) fun _ => Ensures.ok .refl) fun _ => Ensures.ok .refl

theorem resizeTile_repoints {hpixs vpixs : ℤ} {tileId : ℕ} :
    Ensures (s.resizeTile hpixs vpixs tileId) (Repoints F s) :=
  Ensures.bind_any fun _ _ => Ensures.bind_any fun _ _ => Ensures.bind_any fun _ _ =>
    Ensures.ifSome (fun _ => .refl) fun _ _ => Repoints.bind resizeAlong_repoints fun _ =>
      resizeAlong_repoints

/-! ### Moving views -/

theorem takeView_repoints : Ensures (s.takeView v) (Repoints F s) := by
  unfold takeView
  cases s.disp.viewTile v with
  | none => exact unlinkView_repoints
  | some old =>
    refine Repoints.bind workspaceTileUpdateView_repoints fun s₁ => ?_
    refine Repoints.bind unlinkView_repoints fun s₂ => ?_
    refine Repoints.bind keybindingCycleViews_repoints fun s₃ => Ensures.bind_any fun f _ => ?_
    exact Ensures.ite (fun _ => seatSetFocus_repoints) fun _ => Ensures.ok .refl

/-- A view is pointed at a tile that is there, whatever is shown. -/
theorem Repoints.setViewTile (ht : s.tiles.tileLive t = true) (htiles : s'.tiles = s.tiles)
    (hviews : SameMapped s.views s'.views)
    (hview : s'.disp.viewTile = Function.update s.disp.viewTile v (some t)) : Repoints F s s' := by
  refine .setPointers htiles hviews fun u t' hu => ?_
  rw [hview] at hu
  by_cases huv : u = v
  · subst huv
    rw [Function.update_self] at hu
    exact .inr (Option.some.inj hu ▸ ht)
  · rw [Function.update_of_ne huv] at hu
    exact .inl hu

theorem putView_repoints : Ensures (s.putView v t) (Repoints F s) := by
  refine Ensures.deref fun ht => ?_
  have h₀ : Repoints F s (s.setViewWorkspace v (s.tiles.tileWorkspace t)) :=
    .unchanged rfl rfl ⟨rfl, rfl, rfl, rfl⟩ rfl
  refine Ensures.bind ((linkView_repoints (F := F)).and linkView_keeps) ?_
  rintro s₁ ⟨h₁, hk₁⟩
  have ht₁ : s₁.tiles.tileLive t = true := by
    rw [hk₁.tiles]
    exact ht
  have h₂ : Repoints F s₁ ((s₁.setViewTile v (some t)).setTileView t (some v)) :=
    .setViewTile ht₁ rfl ⟨rfl, rfl, rfl, rfl⟩ rfl
  refine Ensures.bind_any fun f _ => ?_
  have hto := (h₀.trans h₁).trans h₂
  exact Ensures.ite (fun _ => Repoints.before seatSetFocus_repoints hto) fun _ => Ensures.ok hto

theorem emptyTile_repoints : Ensures (s.emptyTile t) (Repoints F s) := by
  refine Ensures.deref fun _ => Ensures.ifSome (fun _ => .refl) fun u _ => Ensures.deref fun _ =>
    Ensures.ok (.setPointers rfl ⟨rfl, rfl, rfl, rfl⟩ fun v t' hv => .inl ?_)
  by_cases hvu : v = u
  · subst hvu
    simp [setViewTile, setTileView] at hv
  · simpa [setViewTile, setTileView, hvu] using hv

theorem keybindingMoveViewToTile_repoints {viewId tileId : ℕ} {follow : Bool} :
    Ensures (s.keybindingMoveViewToTile viewId tileId follow) (Repoints F s) := by
  refine Ensures.bind_any fun view _ => Ensures.bind_any fun tile _ =>
    Ensures.bind_any fun old _ => ?_
  obtain ⟨oldOutput, oldWs⟩ := old
  refine Ensures.ifSome (fun _ => .refl) fun t _ => ?_
  have hmove : Ensures (view.elim (s.emptyTile t) fun v => do
      let s ← s.takeView v
      s.putView v t) (Repoints F s) := by
    cases view with
    | none => exact emptyTile_repoints
    | some v => exact Repoints.bind takeView_repoints fun s₁ => putView_repoints
  refine Repoints.bind hmove fun s₁ => ?_
  refine Repoints.bind (Ensures.ite (fun _ => keybindingFocusTile_repoints) fun _ =>
    Ensures.ifSome (fun _ => .refl) fun u _ => workspaceTileUpdateView_repoints) fun s₂ => ?_
  exact Ensures.bind_any fun oc _ => Ensures.bind_any fun oldId _ => Ensures.ok emit_repoints

theorem keybindingMoveViewToOutput_repoints {viewId outputNum : ℕ} {follow : Bool} :
    Ensures (s.keybindingMoveViewToOutput viewId outputNum follow) (Repoints F s) :=
  Ensures.ifSome (fun _ => .refl) fun _ _ => Ensures.bind_any fun _ _ => Ensures.bind_any fun _ _ =>
    keybindingMoveViewToTile_repoints

theorem keybindingMoveViewToWorkspace_repoints {viewId ws : ℕ} {follow : Bool} :
    Ensures (s.keybindingMoveViewToWorkspace viewId ws follow) (Repoints F s) :=
  Ensures.ite (fun _ => Ensures.ok .refl) fun _ => Ensures.bind_any fun _ _ =>
    Ensures.bind_any fun _ _ => Ensures.bind_any fun _ _ => keybindingMoveViewToTile_repoints

theorem leaveView_repoints : Ensures (s.leaveView t v) (Repoints F s) := by
  refine Repoints.bind unlinkView_repoints fun s₁ => ?_
  refine Repoints.bind (Repoints.before keybindingCycleViews_repoints
    (.unchanged rfl rfl ⟨rfl, rfl, rfl, rfl⟩ rfl)) fun s₂ => Ensures.bind_any fun f _ => ?_
  exact Ensures.ite (fun _ => seatSetFocus_repoints) fun _ => Ensures.ok .refl

theorem arriveView_repoints : Ensures (s.arriveView v) (Repoints F s) := by
  refine Ensures.bind_any fun w _ => Repoints.bind linkView_repoints fun s₁ => ?_
  refine Ensures.bind_any fun f _ => Repoints.bind workspaceTileUpdateView_repoints fun s₂ => ?_
  exact Repoints.before seatSetFocus_repoints (.unchanged rfl rfl ⟨rfl, rfl, rfl, rfl⟩ rfl)

theorem keybindingMoveViewToCycleOutput_repoints {reverse : Bool} :
    Ensures (s.keybindingMoveViewToCycleOutput reverse) (Repoints F s) := by
  refine Ensures.ite (fun _ => Ensures.ok .refl) fun _ => Ensures.bind_any fun old _ =>
    Ensures.bind_any fun f _ => ?_
  refine Repoints.bind (Ensures.ifSome (fun _ => .refl) fun _ _ => leaveView_repoints) fun s₁ => ?_
  refine Repoints.bind keybindingCycleOutputs_repoints fun s₂ => ?_
  refine Repoints.bind (Ensures.ifSome (fun _ => .refl) fun _ _ => arriveView_repoints) fun s₃ => ?_
  exact Ensures.bind_any fun new _ => Ensures.bind_any fun wOld _ => Ensures.bind_any fun fOld _ =>
    Ensures.bind_any fun fNew _ => Ensures.ok emit_repoints

/-! ### Workspaces and outputs -/

theorem freeTilesLoop_repoints {n : ℕ} : Ensures (freeTilesLoop w n s) (Repoints True s) := by
  induction n generalizing s with
  | zero => exact Ensures.error
  | succ n ih =>
    unfold freeTilesLoop
    split
    · exact Ensures.ok .refl
    · next t _ =>
      refine Ensures.deref fun _ => Repoints.before ih
        (.free rfl (fun u hu => ?_) ⟨rfl, rfl, rfl, rfl⟩ rfl)
      by_cases hut : u = t
      · simp [hut] at hu
      · simpa [hut] using hu

theorem workspaceFreeTiles_repoints : Ensures (s.workspaceFreeTiles w) (Repoints True s) :=
  Ensures.bind_any fun _ _ => Ensures.deref fun _ => Ensures.nonNull fun _ _ =>
    Repoints.before freeTilesLoop_repoints (.unchanged rfl rfl ⟨rfl, rfl, rfl, rfl⟩ rfl)

theorem workspaceFree_repoints : Ensures (s.workspaceFree w) (Repoints True s) :=
  Repoints.bind workspaceFreeTiles_repoints fun _ =>
    Ensures.ok (.unchanged rfl rfl ⟨rfl, rfl, rfl, rfl⟩ rfl)

theorem fullScreenWorkspaceTiles_repoints :
    Ensures (s.fullScreenWorkspaceTiles w) (Repoints F s) :=
  Ensures.deref fun _ => Repoints.before workspaceTileUpdateView_repoints
    (.newTile rfl rfl ⟨rfl, rfl, rfl, rfl⟩ rfl)

theorem newWorkspace_repoints {num : ℕ} :
    Ensures (s.newWorkspace o num) fun p => Repoints F s p.2 := by
  refine Ensures.bind (P := Repoints F s) (Repoints.before fullScreenWorkspaceTiles_repoints ?_)
    fun s₁ h₁ => Ensures.ok ?_
  · exact .unchanged rfl rfl ⟨rfl, rfl, rfl, rfl⟩ rfl
  · exact h₁.trans (.unchanged rfl rfl ⟨rfl, rfl, rfl, rfl⟩ rfl)

/-- A list of views is pointed at a tile that is there. -/
theorem pointViewsAt_repoints {l : List ViewPtr} (ht : s.tiles.tileLive t = true) :
    Repoints F s (s.pointViewsAt l t) := by
  unfold pointViewsAt
  induction l generalizing s with
  | nil => exact .refl
  | cons v l ih =>
    have hset : Repoints F s (s.setViewTile v (some t)) :=
      .setViewTile ht rfl ⟨rfl, rfl, rfl, rfl⟩ rfl
    exact hset.trans (ih ht)

theorem outputMakeWorkspaceFullscreen_repoints {ws : ℕ} :
    Ensures (s.outputMakeWorkspaceFullscreen o ws) (Repoints True s) := by
  refine Ensures.ite (fun _ => Ensures.ok .refl) fun _ => Ensures.bind_any fun w _ =>
    Ensures.bind_any fun f _ => Ensures.deref fun _ => Ensures.bind_any fun current _ => ?_
  refine Repoints.bind workspaceFreeTiles_repoints fun s₁ => ?_
  refine Repoints.bind fullScreenWorkspaceTiles_repoints fun s₂ => ?_
  refine Ensures.bind_any fun f' _ => Ensures.bind_any fun l _ => ?_
  -- the tile is there, as something is put into it afterwards
  refine Repoints.bind ?_ fun s₄ => Ensures.ite (fun _ => seatSetFocus_repoints)
    fun _ => Ensures.ok .refl
  refine ((workspaceTileUpdateView_repoints (F := True)).and workspaceTileUpdateView_spec).mono ?_
  rintro s₄ ⟨h₄, hlive, -⟩
  rw [pointViewsAt_keeps.tiles] at hlive
  exact (pointViewsAt_repoints hlive).trans h₄

theorem keybindingWorkspaceFullscreen_repoints {screen workspace : ℕ} :
    Ensures (s.keybindingWorkspaceFullscreen screen workspace) (Repoints True s) :=
  Ensures.bind_any fun _ _ => Ensures.ifSome (fun _ => .refl) fun _ _ =>
    Ensures.ite (fun _ => Ensures.ok .refl) fun _ =>
      Repoints.bind outputMakeWorkspaceFullscreen_repoints fun _ => Ensures.bind_any fun _ _ =>
        Ensures.bind_any fun _ _ => Ensures.ok emit_repoints

theorem moveViews_repoints : Ensures (s.moveViews managed w w') (Repoints F s) := by
  refine forEachViewSafe_ensures (fun s₁ v h₁ => ?_) .refl
  refine Ensures.mono ?_ fun _ h => h₁.trans h
  exact Repoints.bind unlinkView_repoints fun s₂ => Repoints.bind linkView_repoints fun s₃ =>
    Ensures.ok (.unchanged rfl rfl ⟨rfl, rfl, rfl, rfl⟩ rfl)

/-- One more workspace for an output. -/
theorem addWorkspace_repoints {k : ℕ} :
    Ensures (addWorkspace o s k) (Repoints F s) := by
  refine addWorkspace_ensures ((newWorkspace_repoints (F := F)).mono fun p hp => ?_)
  exact hp.trans (.unchanged rfl rfl ⟨rfl, rfl, rfl, rfl⟩ rfl)

theorem outputSetNws_repoints {oldNws nws : ℕ} :
    Ensures (outputSetNws oldNws nws s o) (Repoints True s) := by
  refine Repoints.bind (Ensures.foldlM (fun s₁ k _ h₁ => ?_) .refl) fun s₁ => ?_
  · refine Ensures.bind_any fun w _ => Ensures.bind_any fun last _ => Ensures.deref fun _ => ?_
    refine Ensures.mono ?_ fun _ h => h₁.trans h
    exact Repoints.bind moveViews_repoints fun s₂ => Repoints.bind moveViews_repoints fun s₃ =>
      workspaceFree_repoints
  have hset : Repoints True s₁ (s₁.setWorkspaces o ((s₁.outs.outWorkspaces o).take nws)) :=
    .unchanged rfl rfl ⟨rfl, rfl, rfl, rfl⟩ rfl
  refine Repoints.bind (Ensures.foldlM (fun s₃ k _ h₃ => ?_) hset) fun s₃ => ?_
  · exact addWorkspace_repoints.mono fun _ h => h₃.trans h
  · refine Ensures.ite (fun _ => ?_) fun _ => Ensures.ok .refl
    exact Repoints.before workspaceFocus_repoints (.unchanged rfl rfl ⟨rfl, rfl, rfl, rfl⟩ rfl)

theorem keybindingSetNws_repoints {nws : ℕ} :
    Ensures (s.keybindingSetNws nws) (Repoints True s) := by
  have hset : Repoints True s { s with outs.nws := nws } :=
    .unchanged rfl rfl ⟨rfl, rfl, rfl, rfl⟩ rfl
  refine Repoints.bind (Ensures.foldlM (fun s₁ o _ h₁ => ?_) hset) fun s₁ => ?_
  · exact outputSetNws_repoints.mono fun _ h => h₁.trans h
  · exact Repoints.bind refocus_repoints fun s₂ => Ensures.ok emit_repoints

theorem handleNewOutput_repoints {name : String} {box : LayoutBox} :
    Ensures (s.handleNewOutput name box) (Repoints F s) := by
  refine Ensures.bind (P := Repoints F s) (Ensures.foldlM (fun s₁ k _ h₁ => ?_) ?_) fun s₁ h₁ => ?_
  · exact addWorkspace_repoints.mono fun _ h => h₁.trans h
  · exact .unchanged rfl rfl ⟨rfl, rfl, rfl, rfl⟩ rfl
  · refine Ensures.bind (workspaceFocus_repoints (F := F)) fun s₂ h₂ => Ensures.ok ?_
    exact (h₁.trans h₂).trans (.unchanged rfl rfl ⟨rfl, rfl, rfl, rfl⟩ rfl)

/-- The focused tile of each workspace is there. -/
def FocusLive (T : Tiles) : Prop := ∀ w f, T.focusedTile w = .ok f → T.tileLive f = true

theorem rehomeViews_repoints (hf : FocusLive s.tiles) :
    Ensures (s.rehomeViews managed w w') (Repoints F s) := by
  refine (forEachViewSafe_ensures (I := fun s₁ => Repoints F s s₁ ∧ s₁.tiles = s.tiles)
    (fun s₁ v h₁ => ?_) ⟨.refl, rfl⟩).mono fun _ h => h.1
  refine Ensures.bind ((unlinkView_repoints (F := F)).and unlinkView_sameLayout) ?_
  rintro s₂ ⟨h₂, hk₂⟩
  have htiles₂ : s₂.tiles = s.tiles := hk₂.tiles.trans h₁.2
  refine Ensures.ite (fun _ => Ensures.ok ⟨(h₁.1.trans h₂).trans .freeView, htiles₂⟩) fun _ => ?_
  refine Ensures.bind ((linkView_repoints (F := F)).and linkView_keeps) ?_
  rintro s₃ ⟨h₃, hk₃⟩
  have htiles₃ : s₃.tiles = s.tiles := hk₃.tiles.trans htiles₂
  refine Ensures.bind_any fun f hfoc => ?_
  have hlive : s₃.tiles.tileLive f = true := by
    rw [htiles₃]
    refine hf w' f ?_
    rw [← htiles₃]
    exact hfoc
  have h₄ : Repoints F s₃ ((s₃.setViewWorkspace v w').setViewTile v (some f)) :=
    .setViewTile hlive rfl ⟨rfl, rfl, rfl, rfl⟩ rfl
  have hto := ((h₁.1.trans h₂).trans h₃).trans h₄
  refine Ensures.ite (fun _ => ?_) fun _ => Ensures.ok ⟨hto, htiles₃⟩
  exact (seatSetFocus_repoints.and seatSetFocus_keeps).mono fun _ h =>
    ⟨hto.trans h.1, h.2.tiles.trans htiles₃⟩

theorem outputClear_repoints (hf : FocusLive s.tiles) :
    Ensures (s.outputClear o) (Repoints F s) := by
  refine Ensures.bind (P := fun s₁ => Repoints F s s₁ ∧ s₁.tiles = s.tiles)
    (Ensures.ite (fun _ => keybindingCycleOutputs_repoints.and ?_) fun _ =>
      Ensures.ok ⟨.refl, rfl⟩) ?_
  · exact Ensures.bind_any fun old _ => Ensures.nonNull fun _ _ => Ensures.bind setOutput_tiles
      fun s₁ h₁ => Ensures.ok (by split <;> exact h₁)
  rintro s₁ ⟨h₁, htiles₁⟩
  have hset : Repoints F s₁ { s₁ with outs.outputs := s₁.outs.outputs.erase o } :=
    .unchanged rfl rfl ⟨rfl, rfl, rfl, rfl⟩ rfl
  refine (Ensures.foldlM (I := fun s₂ => Repoints F s s₂ ∧ s₂.tiles = s.tiles) (fun s₂ k _ h₂ => ?_)
    ⟨h₁.trans hset, htiles₁⟩).mono fun _ h => h.1
  refine Ensures.bind_any fun w _ => Ensures.bind_any fun l _ => ?_
  refine Ensures.bind (P := fun s₃ => Repoints F s s₃ ∧ s₃.tiles = s.tiles)
    (Ensures.foldlM (fun s₃ t _ h₃ => ?_) h₂) ?_
  · exact (workspaceTileUpdateView_repoints.and workspaceTileUpdateView_keeps).mono fun _ h =>
      ⟨h₃.1.trans h.1, h.2.tiles.trans h₃.2⟩
  rintro s₃ ⟨h₃, htiles₃⟩
  have hf₃ : FocusLive s₃.tiles := by rwa [htiles₃]
  refine Ensures.bind_any fun wNew _ =>
    Ensures.bind ((rehomeViews_repoints (F := F) hf₃).and rehomeViews_keeps) ?_
  rintro s₄ ⟨h₄, hk₄⟩
  have hf₄ : FocusLive s₄.tiles := by rwa [hk₄.tiles]
  exact ((rehomeViews_repoints hf₄).and rehomeViews_keeps).mono fun _ h =>
    ⟨(h₃.trans h₄).trans h.1, (h.2.tiles.trans hk₄.tiles).trans htiles₃⟩

theorem outputDestroy_repoints (hf : FocusLive s.tiles) :
    Ensures (s.outputDestroy o) (Repoints True s) := by
  refine Repoints.bind (outputClear_repoints hf) fun s₁ => ?_
  refine Repoints.bind (Ensures.foldlM (fun s₂ k _ h₂ => ?_) .refl) fun s₂ => Ensures.ok ?_
  · exact Ensures.bind_any fun w _ => Ensures.deref fun _ =>
      workspaceFree_repoints.mono fun _ h => h₂.trans h
  · split
    · exact .unchanged rfl rfl ⟨rfl, rfl, rfl, rfl⟩ rfl
    · exact .unchanged rfl rfl ⟨rfl, rfl, rfl, rfl⟩ rfl

/-! ### Views that come and go -/

theorem viewInit_repoints {attrs : ViewAttrs} : Ensures (s.viewInit attrs) (Repoints F s) := by
  refine Ensures.bind_any fun w _ => Ensures.deref fun _ => Ensures.ok ?_
  refine Pointing.unmapped (.of_same rfl rfl (Nat.le_succ _) (fun v hv => ?_) fun v t hv =>
    .inl ?_) fun v hv => ?_
  · by_cases hvt : v = s.views.viewTop
    · exact .inr (by simp [hvt])
    · exact .inl ⟨by simpa [hvt] using hv, Function.update_of_ne hvt _ _⟩
  · by_cases hvt : v = s.views.viewTop
    · simp [hvt] at hv
    · simpa [hvt] using hv
  · by_cases hvt : v = s.views.viewTop
    · simp [hvt] at hv
    · simpa [hvt] using hv

/-- The view is managed, or the tile it points at, if there is one, is there: it points
nowhere else once it has been mapped. -/
def MapsAnchored (s : Server) (v : ViewPtr) : Prop :=
  s.views.managed v = true ∨ ∀ t, s.disp.viewTile v = some t → s.tiles.tileLive t = true

/-- Tiles and pointers are those of `s`, but the view is mapped. -/
structure MappedIn (s : Server) (v : ViewPtr) (s' : Server) : Prop where
  tiles : s'.tiles = s.tiles
  disp : s'.disp = s.disp
  made : s'.views.viewTop = s.views.viewTop
  live : s'.views.viewLive = s.views.viewLive
  attrs : s'.views.viewAttrs = s.views.viewAttrs
  mapped : ∀ u, s'.views.viewMapped u = true → s.views.viewMapped u = true ∨ u = v

/-- **`view_map`** maps the view and then focuses it. -/
theorem viewMap_mappedIn {x y : ℤ} : Ensures (s.viewMap v x y) fun s' =>
    s.views.viewLive v = true ∧
      ∃ s₁ s₂ e, MappedIn s v s₁ ∧ s₁.seatSetFocus (some v) = .ok s₂ ∧ s' = s₂.emit e := by
  refine Ensures.deref fun hlive => Ensures.bind_any fun w _ => Ensures.deref fun _ => ?_
  refine Ensures.bind (P := MappedIn s v) ?_ fun s₁ h₁ => Ensures.bind_any fun cur _ => ?_
  · refine Ensures.bind wlListInsert_spec ?_
    rintro V ⟨c, -, rfl⟩
    refine Ensures.ok ⟨rfl, rfl, rfl, rfl, rfl, fun u hu => ?_⟩
    by_cases huv : u = v
    · exact .inr huv
    · exact .inl (by simpa [setViewWorkspace, huv] using hu)
  -- an unmanaged surface keeps its own position
  have hplaced : ∀ sc : Scene,
      MappedIn s v (if s₁.views.managed v then s₁ else { s₁ with scene := sc }) := by
    intro sc
    split
    · exact h₁
    · exact ⟨h₁.tiles, h₁.disp, h₁.made, h₁.live, h₁.attrs, h₁.mapped⟩
  exact Ensures.bind_any fun s₂ hs₂ => Ensures.bind_any fun tileId _ =>
    Ensures.ok ⟨hlive, _, s₂, _, hplaced _, hs₂, rfl⟩

theorem MappedIn.pointing (h : MappedIn s v s') : Pointing F s s' := by
  refine .of_same (by rw [h.tiles]) (by rw [h.tiles]) h.made.ge (fun u hu => ?_)
    fun u t hu => .inl ?_
  · rw [h.live] at hu
    exact .inl ⟨hu, by rw [h.attrs]⟩
  · rwa [h.disp] at hu

theorem MappedIn.known (h : MappedIn s v s') (hv : v < s.views.viewTop) :
    Ensures (s'.seatSetFocus (some v)) fun s'' => s.views.viewTop ≤ s''.views.viewTop ∧
      ∀ u, s''.views.viewMapped u = true → s.views.viewMapped u = true ∨ u < s''.views.viewTop := by
  refine seatSetFocus_sameLayout.mono fun s'' h'' => ?_
  have htop : s''.views.viewTop = s.views.viewTop := by rw [h''.views, ← h.made]
  refine ⟨htop.ge, fun u hu => ?_⟩
  rw [h''.viewMapped] at hu
  refine (h.mapped u hu).imp_right ?_
  rintro rfl
  rwa [htop]

/-- The view that has been mapped gets the focus. -/
theorem MappedIn.seatSetFocus (h : MappedIn s v s') (hknown : v < s.views.viewTop)
    (hv : s.MapsAnchored v) : Ensures (s'.seatSetFocus (some v)) (Repoints F s) := by
  suffices hviews : Ensures (s'.seatSetFocus (some v)) fun s'' => ∀ u t, s''.PointsAt u t →
      s.PointsAt u t ∨ s.tiles.tileLive t = true by
    refine ((h.known hknown).and (hviews.and (seatSetFocus_repoints (F := F)))).mono ?_
    rintro s'' ⟨⟨-, hmapped⟩, hpointers, hre⟩
    exact ⟨h.pointing.trans hre.toPointing, hmapped, fun u t hu =>
      (hpointers u t hu).imp_right .inl⟩
  by_cases hm : s'.views.managed v = true
  · refine (seatSetFocus_managed_assigned hm).mono ?_
    rintro s₂ ⟨w, f, s₁, V₁, V₂, c, e, -, -, ha, hV₁, hV₂, rfl⟩ u t ⟨hmapped, hpointer⟩
    obtain ⟨_, _, -, -, rfl⟩ := wlListRemove_spec _ hV₁
    obtain ⟨_, -, rfl⟩ := wlListInsert_spec _ hV₂
    replace hpointer : s₁.disp.viewTile u = some t := hpointer
    rw [ha.eq] at hpointer
    have hlive : s.tiles.tileLive f = true := h.tiles ▸ ha.live
    rcases assign_pointer hpointer with hold | ⟨-, rfl⟩
    · rcases h.mapped u hmapped with hmap | rfl
      · exact .inl ⟨hmap, h.disp ▸ hold⟩
      · -- the view points at the focused tile now
        have hself : (s'.disp.assign f (some u)).viewTile u = some f := Display.assign_viewTile_self
        exact .inr (Option.some.inj (hself.symm.trans hpointer) ▸ hlive)
    · exact .inr hlive
  · refine (seatSetFocus_unmanaged_spec (by simpa using hm)).mono ?_
    rintro s₂ ⟨c, e, rfl, -⟩ u t hu
    have hpointer : s.disp.viewTile u = some t := h.disp ▸ hu.2
    rcases h.mapped u hu.1 with hmap | rfl
    · exact .inl ⟨hmap, hpointer⟩
    · rw [Views.managed, h.attrs] at hm
      exact .inr (hv.resolve_left hm t hpointer)

theorem viewMap_repoints (hvi : s.ViewsInv) (hv : s.MapsAnchored v) {x y : ℤ} :
    Ensures (s.viewMap v x y) (Repoints F s) := by
  refine viewMap_mappedIn.mono ?_
  rintro s' ⟨hlive, s₁, s₂, e, h₁, hs₂, rfl⟩
  exact (h₁.seatSetFocus (hvi.lists.live v hlive) hv s₂ hs₂).trans emit_repoints

theorem viewWithdraw_repoints {kb : Bool} : Ensures (s.viewWithdraw v kb) (Repoints F s) := by
  refine Ensures.bind_any fun prev _ => ?_
  refine Repoints.bind (Ensures.ite (fun _ => seatSetFocus_repoints) fun _ =>
    Ensures.ite (fun _ => seatSetFocus_repoints) fun _ => Ensures.ok .refl) fun s₁ => ?_
  exact Ensures.bind_any fun tile _ => Ensures.ifSome (fun _ => .refl) fun t _ =>
    workspaceTileUpdateView_repoints

theorem viewUnmap_repoints {kb : Bool} : Ensures (s.viewUnmap v kb) (Repoints F s) := by
  refine Ensures.bind_any fun w _ => Ensures.deref fun _ => Ensures.ite (fun _ => ?_)
    fun _ => Ensures.ok .refl
  refine Ensures.bind_any fun tileId _ => ?_
  refine Repoints.bind (Ensures.ite (fun _ => viewWithdraw_repoints) fun _ =>
    Ensures.ite (fun _ => seatSetFocus_repoints) fun _ => Ensures.ok .refl) fun s₁ => ?_
  refine Repoints.bind unlinkView_repoints fun s₂ => Ensures.ok ?_
  refine Pointing.unmapped (.of_same rfl rfl le_rfl (fun _ hv => .inl ⟨hv, rfl⟩) fun _ _ => .inl)
    fun u hu => ?_
  by_cases huv : u = v
  · simp [huv, emit] at hu
  · simpa [huv, emit] using hu

theorem viewDestroy_repoints {kb : Bool} : Ensures (s.viewDestroy v kb) (Repoints F s) :=
  Ensures.deref fun _ => Repoints.bind (Ensures.ite (fun _ => viewUnmap_repoints)
    fun _ => Ensures.ok .refl) fun _ => Ensures.bind_any fun _ _ => Ensures.bind_any fun _ _ =>
    Ensures.ok .freeView

/-! ### Every input -/

theorem runAction_repoints (hF : a.FreesTiles → F) : Ensures (s.runAction a) (Repoints F s) := by
  cases a with
  | layoutFullscreen =>
    exact keybindingWorkspaceFullscreen_repoints.mono fun _ => .freeing (hF trivial)
  | splitHorizontal => exact Ensures.bind_any fun _ _ => keybindingSplitOutput_repoints
  | splitVertical => exact Ensures.bind_any fun _ _ => keybindingSplitOutput_repoints
  | cycleViews => exact keybindingCycleViews_repoints
  | cycleTiles =>
    refine Ensures.ite (fun _ => ?_) fun _ => keybindingFocusTile_repoints
    exact Ensures.bind_any fun _ _ => Ensures.deref fun _ => Ensures.nonNull fun _ _ =>
      Ensures.deref fun _ => keybindingFocusTile_repoints
  | cycleOutput => exact keybindingCycleOutputs_repoints
  | switchWorkspace => exact keybindingSwitchWs_repoints
  | switchOutput => exact keybindingSwitchOutput_repoints
  | resizeTileHorizontal => exact resizeTile_repoints
  | resizeTileVertical => exact resizeTile_repoints
  | moveToTile => exact Ensures.bind_any fun _ _ => keybindingMoveViewToTile_repoints
  | moveToWorkspace => exact Ensures.bind_any fun _ _ => keybindingMoveViewToWorkspace_repoints
  | moveToOutput => exact Ensures.bind_any fun _ _ => keybindingMoveViewToOutput_repoints
  | moveViewToTile => exact keybindingMoveViewToTile_repoints
  | moveViewToWorkspace => exact keybindingMoveViewToWorkspace_repoints
  | moveViewToOutput => exact keybindingMoveViewToOutput_repoints
  | merge =>
    exact Ensures.bind_any fun _ _ => Ensures.ifSome (fun _ => .refl) fun _ _ =>
      mergeTile_repoints.mono fun _ => .freeing (hF trivial)
  | swapDir =>
    exact Ensures.bind_any fun _ _ => Ensures.ifSome (fun _ => .refl) fun _ _ =>
      Ensures.bind_any fun _ _ => swapTiles_repoints
  | swap => exact Ensures.bind_any fun _ _ => Ensures.bind_any fun _ _ => swapTiles_repoints
  | focus => exact Ensures.bind_any fun _ _ => focusTile_repoints
  | moveViewToCycleOutput => exact keybindingMoveViewToCycleOutput_repoints
  | workspaces => exact keybindingSetNws_repoints.mono fun _ => .freeing (hF trivial)

/-- A view that is mapped again does not point at a freed tile, unless it is managed. -/
def RemapsAnchored (s : Server) (i : Input) : Prop :=
  ∀ v x y, i = .viewMap v x y → s.MapsAnchored v

/-- **What an input does to tile pointers.** -/
theorem step_repoints (h : WellFormed False s) (hvi : s.ViewsInv) (hi : s.RemapsAnchored i)
    (hF : i.FreesTiles → F) : Ensures (step s i) (Repoints F s) := by
  have hf : FocusLive s.tiles := fun w f hwf => (h.tiles.focused_mem (by simp) hwf).2.1
  refine Ensures.ite (fun _ => Ensures.ok .refl) fun _ => ?_
  cases i with
  | command a => exact runAction_repoints hF
  | outputNew =>
    exact Repoints.before handleNewOutput_repoints (.unchanged rfl rfl ⟨rfl, rfl, rfl, rfl⟩ rfl)
  | outputDestroy o cursor =>
    refine Ensures.deref fun _ => ?_
    refine Ensures.mono ?_ fun _ => .freeing (hF trivial)
    exact Repoints.before (outputDestroy_repoints (s := { s with cursorAt := cursor }) hf)
      (.unchanged rfl rfl ⟨rfl, rfl, rfl, rfl⟩ rfl)
  | layoutChange => exact Ensures.ok (.unchanged rfl rfl ⟨rfl, rfl, rfl, rfl⟩ rfl)
  | cursorMotion =>
    refine processCursorMotion_spec.mono ?_
    rintro s' ⟨c, e, rfl, -⟩
    exact .unchanged rfl rfl ⟨rfl, rfl, rfl, rfl⟩ rfl
  | viewNew => exact viewInit_repoints
  | viewMap v x y => exact Ensures.deref fun _ => viewMap_repoints hvi (hi v x y rfl)
  | viewUnmap => exact Ensures.deref fun _ => viewUnmap_repoints
  | viewDestroy => exact viewDestroy_repoints

/-- **A tile that is forgotten** once is forgotten in every later state. -/
theorem forgotten_of_steps (h : WellFormed False s) (hvi : s.ViewsInv)
    (hs : Steps step (fun s i => s.RemapsAnchored i) s s') (hm : s.Forgotten m) :
    s'.Forgotten m := by
  refine (hs.invariant (I := fun s => WellFormed False s ∧ s.ViewsInv ∧ s.Forgotten m)
    ⟨h, hvi, hm⟩ ?_).2.2
  rintro s₁ i ⟨hwf, hvi₁, hm₁⟩ hi
  exact (step_wellFormed (fun _ => rfl) hwf).and ((step_viewsInv hvi₁).and
    ((step_repoints hwf hvi₁ hi fun _ => trivial).mono fun _ h₁ => h₁.forgotten hm₁))

/-- Mapped views have been made, whatever is mapped again. -/
theorem step_known (h : WellFormed False s) (hvi : s.ViewsInv) : Ensures (step s i) fun s' =>
    s.views.viewTop ≤ s'.views.viewTop ∧
      ∀ v, s'.views.viewMapped v = true → s.views.viewMapped v = true ∨ v < s'.views.viewTop := by
  by_cases hi : ∃ v x y, i = .viewMap v x y
  · obtain ⟨v, x, y, rfl⟩ := hi
    refine Ensures.ite (fun _ => Ensures.ok ⟨le_rfl, fun _ => .inl⟩) fun _ =>
      Ensures.deref fun _ => ?_
    refine viewMap_mappedIn.mono ?_
    rintro s' ⟨hlive, s₁, s₂, e, h₁, hs₂, rfl⟩
    exact h₁.known (hvi.lists.live v hlive) s₂ hs₂
  · refine (step_repoints h hvi (fun v x y e => absurd ⟨v, x, y, e⟩ hi) fun _ => trivial).mono ?_
    exact fun _ h₁ => ⟨h₁.made, h₁.mapped⟩

/-- **What an input does to the tile pointers of all views.** -/
theorem step_pointing (h : WellFormed False s) (hvi : s.ViewsInv) (hF : i.FreesTiles → F) :
    Ensures (step s i) (Pointing F s) := by
  by_cases hi : ∃ v x y, i = .viewMap v x y
  · obtain ⟨v, x, y, rfl⟩ := hi
    refine Ensures.ite (fun _ => Ensures.ok Repoints.refl.toPointing) fun _ =>
      Ensures.deref fun _ => ?_
    refine viewMap_mappedIn.mono ?_
    rintro s' ⟨-, s₁, s₂, e, h₁, hs₂, rfl⟩
    exact h₁.pointing.trans ((seatSetFocus_repoints s₂ hs₂).trans emit_repoints).toPointing
  · exact (step_repoints h hvi (fun v x y e => absurd ⟨v, x, y, e⟩ hi) hF).mono fun _ h₁ =>
      h₁.toPointing

end Server

theorem Reachable.mapped_known {s : Server} (h : Reachable s) {v : ViewPtr}
    (hv : s.views.viewMapped v = true) : v < s.views.viewTop := by
  refine (h.invariant (I := fun s => WellFormed False s ∧ s.ViewsInv ∧
    ∀ v, s.views.viewMapped v = true → v < s.views.viewTop) ⟨.init, .init, nofun⟩ ?_).2.2 v hv
  rintro s₁ i ⟨hwf, hvi, hknown⟩ -
  refine (step_wellFormed (fun _ => rfl) hwf).and ((Server.step_viewsInv hvi).and
    ((Server.step_known hwf hvi).mono ?_))
  rintro s₂ ⟨hmade, hmapped⟩ u hu
  exact (hmapped u hu).elim (fun hold => (hknown u hold).trans_le hmade) id

end Cagebreak
