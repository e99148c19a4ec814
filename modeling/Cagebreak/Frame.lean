/-
What the operations on views leave alone.

`SameLayout s s'`: the tiles, workspaces and outputs of `s'` are those of `s`,
its views have the same identity, and the cursor tile has not been lost.  All
operations that only show, hide and focus views have this property.

* `workspaceTileUpdateView_spec`, `seatSetFocus_managed_spec` — what the two basic
  operations do to the display, exactly;
* `keybindingCycleViews_sameLayout` — cycling keeps the layout;
* `KeepsLayout` — what is left of `SameLayout` when views also come, go and
  change their workspace.
-/
import Cagebreak.Layout

namespace Cagebreak

open Exec

/-! ### The display -/

namespace Display

/-- `workspace_tile_update_view` on the pointers between tiles and views. -/
def assign (D : Display) (t : TilePtr) (view : Option ViewPtr) : Display where
  tileView := Function.update D.tileView t view
  viewTile :=
    let cleared := match D.tileView t with
      | none => D.viewTile
      | some old => Function.update D.viewTile old none
    match view with
    | none => cleared
    | some v => Function.update cleared v (some t)
  focusedView := D.focusedView

variable {D : Display} {t t' : TilePtr} {v : ViewPtr} {view : Option ViewPtr}

@[simp] theorem assign_focusedView : (D.assign t view).focusedView = D.focusedView := rfl

@[simp] theorem assign_tileView :
    (D.assign t view).tileView = Function.update D.tileView t view := rfl

theorem assign_viewTile_none (h : D.tileView t = none) :
    (D.assign t none).viewTile = D.viewTile := by
  simp [assign, h]

theorem assign_viewTile_some {old : ViewPtr} (h : D.tileView t = some old) :
    (D.assign t none).viewTile = Function.update D.viewTile old none := by
  simp [assign, h]

theorem assign_viewTile_self : (D.assign t (some v)).viewTile v = some t := by
  simp [assign]

/-- A view that is neither put in nor taken out keeps its tile. -/
theorem assign_viewTile_of_ne (hv : view ≠ some v) (ht : D.tileView t ≠ some v) :
    (D.assign t view).viewTile v = D.viewTile v := by
  have hclear : (match D.tileView t with
      | none => D.viewTile
      | some old => Function.update D.viewTile old none) v = D.viewTile v := by
    cases h : D.tileView t with
    | none => rfl
    | some old =>
      have : v ≠ old := fun e => ht (by rw [h, e])
      simp [this]
  cases view with
  | none => exact hclear
  | some u =>
    have : v ≠ u := fun e => hv (by rw [e])
    simpa [assign, this] using hclear

/-- The view taken out of a tile points nowhere, unless it is put back. -/
theorem assign_viewTile_old (hv : view ≠ some v) (ht : D.tileView t = some v) :
    (D.assign t view).viewTile v = none := by
  cases view with
  | none => simp [assign, ht]
  | some u =>
    have : v ≠ u := fun e => hv (by rw [e])
    simp [assign, ht, this]

end Display

namespace Server

variable {s s' s'' : Server} {t : TilePtr} {v : ViewPtr} {w : WsPtr} {view : Option ViewPtr}

/-! ### States with the same layout -/

/-- `s'` has the tiles, workspaces and outputs of `s`, and its cursor tile is
still there if that of `s` is. -/
structure KeepsLayout (s s' : Server) : Prop where
  tiles : s'.tiles = s.tiles
  outs : s'.outs = s.outs
  cursor : ∀ t, s'.cursorTile = some t → s.cursorTile = some t ∨ s.tiles.tileLive t = true

theorem KeepsLayout.refl : KeepsLayout s s := ⟨rfl, rfl, fun _ h => .inl h⟩

theorem KeepsLayout.trans (h : KeepsLayout s s') (h' : KeepsLayout s' s'') :
    KeepsLayout s s'' where
  tiles := h'.tiles.trans h.tiles
  outs := h'.outs.trans h.outs
  cursor t ht := by
    rcases h'.cursor t ht with h1 | h1
    · exact h.cursor t h1
    · exact .inr (by rwa [h.tiles] at h1)

/-- `s'` has the layout of `s`, and the same views. -/
structure SameLayout (s s' : Server) : Prop extends KeepsLayout s s' where
  views : s'.views = { s.views with links := s'.views.links }

theorem SameLayout.refl : SameLayout s s := ⟨.refl, rfl⟩

theorem SameLayout.trans (h : SameLayout s s') (h' : SameLayout s' s'') : SameLayout s s'' :=
  ⟨h.toKeepsLayout.trans h'.toKeepsLayout, by rw [h'.views, h.views]⟩

theorem SameLayout.viewLive (h : SameLayout s s') : s'.views.viewLive = s.views.viewLive := by
  rw [h.views]

theorem SameLayout.viewMapped (h : SameLayout s s') :
    s'.views.viewMapped = s.views.viewMapped := by
  rw [h.views]

theorem SameLayout.viewWorkspace (h : SameLayout s s') :
    s'.views.viewWorkspace = s.views.viewWorkspace := by
  rw [h.views]

theorem SameLayout.managed (h : SameLayout s s') : s'.views.managed = s.views.managed := by
  rw [h.views]
  rfl

theorem KeepsLayout.curTile (h : KeepsLayout s s') : s'.curTile = s.curTile := by
  rw [Server.curTile, Server.curTile, h.tiles, h.outs]

/-- Only what is shown, the lists of views, the cursor tile and the events differ. -/
theorem SameLayout.of_shown {sc : Scene} {D : Display} {L : DLinks Node} {e : List Event} :
    SameLayout s { s with scene := sc, disp := D, views.links := L, events := e } :=
  ⟨⟨rfl, rfl, fun _ h => .inl h⟩, rfl⟩

/-! ### The basic operations -/

theorem viewMaximize_spec : Ensures (s.viewMaximize v t) fun s' =>
    s.tiles.tileLive t = true ∧ ∃ sc, s' = { s with
      scene := sc
      disp := { s.disp with viewTile := Function.update s.disp.viewTile v (some t) } } := by
  refine Ensures.deref fun ht => Ensures.bind_any fun w _ => Ensures.deref fun _ => ?_
  exact Ensures.ok ⟨ht, _, rfl⟩

/-- **What `workspace_tile_update_view` does.** -/
theorem workspaceTileUpdateView_spec : Ensures (s.workspaceTileUpdateView t view) fun s' =>
    s.tiles.tileLive t = true ∧
      ∃ sc, s' = { s with scene := sc, disp := s.disp.assign t view } := by
  refine Ensures.deref fun ht => ?_
  refine Ensures.bind (P := fun s₁ => ∃ sc, s₁ = { s with
      scene := sc
      disp := { s.disp with viewTile := match s.disp.tileView t with
        | none => s.disp.viewTile
        | some old => Function.update s.disp.viewTile old none } }) ?_ ?_
  · refine Ensures.ifSome (fun h => ?_) fun old h => Ensures.deref fun _ => Ensures.ok ?_
    · rw [h]
      exact ⟨_, rfl⟩
    · rw [h]
      exact ⟨_, rfl⟩
  · rintro s₁ ⟨sc, rfl⟩
    refine Ensures.ifSome (fun h => ?_) fun v h => Ensures.bind viewMaximize_spec ?_
    · rw [h]
      exact ⟨ht, _, rfl⟩
    · rintro s₂ ⟨-, sc', rfl⟩
      rw [h]
      exact Ensures.ok ⟨ht, _, rfl⟩

theorem findTile_live {T : Tiles} {p : TilePtr → Exec Bool} :
    Ensures (T.findTile w p) fun o => ∀ t, o = some t → T.tileLive t = true ∧ p t = .ok true := by
  refine Ensures.bind_any fun f _ => Ensures.bind_any fun b hb => ?_
  have htest : ∀ t b, (deref (T.tileLive t) >>= fun _ => p t) = .ok b →
      T.tileLive t = true ∧ p t = .ok b := by
    intro t b h
    obtain ⟨_, h1, h2⟩ := bind_eq_ok.mp h
    exact ⟨deref_eq_ok.mp h1, h2⟩
  cases b with
  | true =>
    refine Ensures.ok fun t ht => ?_
    obtain rfl := Option.some_inj.mp ht
    exact htest f true hb
  | false =>
    intro o ho t ht
    subst ht
    exact htest t true (DLinks.findNode_some ho).1

/-- The cursor tile only changes to a tile that is still there. -/
theorem processCursorMotion_spec : Ensures s.processCursorMotion fun s' =>
    ∃ c e, s' = { s with cursorTile := c, events := e } ∧
      ∀ t, c = some t → s.cursorTile = some t ∨ s.tiles.tileLive t = true := by
  refine Ensures.ifSome (fun _ => ⟨_, _, rfl, fun _ h => .inl h⟩) ?_
  rintro ⟨o, x, y⟩ -
  refine Ensures.deref fun _ => Ensures.bind_any fun w _ => Ensures.bind_any fun f hf =>
    Ensures.bind_any fun found hfound => ?_
  have hlive : s.tiles.tileLive (found.getD f) = true := by
    cases found with
    | some t => exact (findTile_live _ hfound t rfl).1
    | none =>
      -- the loop has looked at the focused tile first
      simp only [Tiles.findTile, hf, ok_bind] at hfound
      obtain ⟨b, hb, -⟩ := bind_eq_ok.mp hfound
      obtain ⟨_, hb, -⟩ := bind_eq_ok.mp hb
      exact deref_eq_ok.mp hb
  refine Ensures.bind (P := fun s₁ => ∃ e, s₁ = { s with events := e }) ?_ ?_
  · refine Ensures.ifSome (fun _ => ⟨_, rfl⟩) fun c _ => ?_
    exact Ensures.ite (fun _ => Ensures.ok ⟨_, rfl⟩) fun _ => Ensures.bind_any fun oc _ =>
      Ensures.ok ⟨_, rfl⟩
  · rintro s₁ ⟨e, rfl⟩
    refine Ensures.ok ⟨_, _, rfl, fun t ht => .inr ?_⟩
    rwa [← Option.some_inj.mp ht]

theorem processCursorMotion_sameLayout : Ensures s.processCursorMotion (SameLayout s) := by
  refine processCursorMotion_spec.mono ?_
  rintro s' ⟨c, e, rfl, hc⟩
  exact ⟨⟨rfl, rfl, hc⟩, rfl⟩

theorem workspaceTileUpdateView_sameLayout :
    Ensures (s.workspaceTileUpdateView t view) (SameLayout s) := by
  refine workspaceTileUpdateView_spec.mono ?_
  rintro s' ⟨-, sc, rfl⟩
  exact .of_shown

theorem viewMaximize_sameLayout : Ensures (s.viewMaximize v t) (SameLayout s) := by
  refine viewMaximize_spec.mono ?_
  rintro s' ⟨-, sc, rfl⟩
  exact .of_shown

theorem wlListRemove_spec {V : Views} {n : Node} : Ensures (V.wlListRemove n) fun V' =>
    ∃ a c, V.links.prev n = some a ∧ V.links.next n = some c ∧
      V' = { V with links := V.links.unlink a n c } :=
  Ensures.nonNull fun a ha => Ensures.nonNull fun c hc => Ensures.ok ⟨a, c, ha, hc, rfl⟩

theorem wlListInsert_spec {V : Views} {a n : Node} : Ensures (V.wlListInsert a n) fun V' =>
    ∃ c, V.links.next a = some c ∧ V' = { V with links := V.links.insert a n c } :=
  Ensures.nonNull fun c hc => Ensures.ok ⟨c, hc, rfl⟩

theorem seatEnter_spec : Ensures (s.seatEnter v) fun s' =>
    ∃ c e, s' = { s with cursorTile := c, events := e } ∧
      ∀ t, c = some t → s.cursorTile = some t ∨ s.tiles.tileLive t = true := by
  refine Ensures.bind processCursorMotion_spec ?_
  rintro s₁ ⟨c, e, rfl, hc⟩
  exact Ensures.bind_any fun w _ => Ensures.deref fun _ => Ensures.ok ⟨c, e, rfl, hc⟩

/-- Focusing the background empties the focused tile. -/
theorem seatSetFocus_none_spec : Ensures (s.seatSetFocus none) fun s' =>
    ∃ f sc c e, s.curTile = .ok f ∧ s' = { s with
      scene := sc
      disp := { s.disp.assign f none with focusedView := none }
      cursorTile := c
      events := e } ∧
      ∀ t, c = some t → s.cursorTile = some t ∨ s.tiles.tileLive t = true := by
  refine Ensures.bind_any fun f hf => Ensures.bind workspaceTileUpdateView_spec ?_
  rintro s₁ ⟨-, sc, rfl⟩
  refine Ensures.bind_any fun _ _ => processCursorMotion_spec.mono ?_
  rintro s₂ ⟨c, e, rfl, hc⟩
  exact ⟨f, sc, c, e, hf, rfl, hc⟩

/-- Focusing a managed view puts it into the focused tile and moves the head of
the current list of views behind it. -/
theorem seatSetFocus_managed_spec (hv : s.views.managed v = true) :
    Ensures (s.seatSetFocus (some v)) fun s' =>
    ∃ w f V₁ V₂ sc c e, s.outs.curWs = .ok w ∧ s.tiles.focusedTile w = .ok f ∧
      s.views.wlListRemove (.head true w) = .ok V₁ ∧
      V₁.wlListInsert (.view v) (.head true w) = .ok V₂ ∧ s' = { s with
        scene := sc
        disp := { s.disp.assign f (some v) with focusedView := some v }
        views := V₂
        cursorTile := c
        events := e } ∧
      ∀ t, c = some t → s.cursorTile = some t ∨ s.tiles.tileLive t = true := by
  refine Ensures.deref fun _ => ?_
  rw [if_pos hv]
  refine Ensures.bind_any fun w hw => Ensures.bind_any fun f hf =>
    Ensures.bind workspaceTileUpdateView_spec ?_
  rintro s₁ ⟨-, sc, rfl⟩
  refine Ensures.bind_any fun V₁ h₁ => Ensures.bind_any fun V₂ h₂ => Ensures.bind_any fun _ _ =>
    seatEnter_spec.mono ?_
  rintro s₂ ⟨c, e, rfl, hc⟩
  exact ⟨w, f, V₁, V₂, sc, c, e, hw, hf, h₁, h₂, rfl, hc⟩

theorem seatSetFocus_unmanaged_spec (hv : s.views.managed v = false) :
    Ensures (s.seatSetFocus (some v)) fun s' =>
    ∃ c e, s' = { s with cursorTile := c, events := e } ∧
      ∀ t, c = some t → s.cursorTile = some t ∨ s.tiles.tileLive t = true := by
  refine Ensures.deref fun _ => ?_
  rw [if_neg (by simp [hv])]
  exact Ensures.ite (fun _ => seatEnter_spec) fun _ => Ensures.ok ⟨_, _, rfl, fun _ h => .inl h⟩

theorem seatSetFocus_sameLayout : Ensures (s.seatSetFocus view) (SameLayout s) := by
  cases view with
  | none =>
    refine seatSetFocus_none_spec.mono ?_
    rintro s' ⟨f, sc, c, e, -, rfl, hc⟩
    exact ⟨⟨rfl, rfl, hc⟩, rfl⟩
  | some v =>
    cases hv : s.views.managed v with
    | false =>
      refine (seatSetFocus_unmanaged_spec hv).mono ?_
      rintro s' ⟨c, e, rfl, hc⟩
      exact ⟨⟨rfl, rfl, hc⟩, rfl⟩
    | true =>
      refine (seatSetFocus_managed_spec hv).mono ?_
      rintro s' ⟨w, f, V₁, V₂, sc, c, e, -, -, h₁, h₂, rfl, hc⟩
      obtain ⟨a, b, -, -, rfl⟩ := wlListRemove_spec _ h₁
      obtain ⟨d, -, rfl⟩ := wlListInsert_spec _ h₂
      exact ⟨⟨rfl, rfl, hc⟩, rfl⟩

theorem refocus_sameLayout : Ensures s.refocus (SameLayout s) :=
  Ensures.bind_any fun _ _ => seatSetFocus_sameLayout

theorem emit_sameLayout {e : Event} : SameLayout s (s.emit e) :=
  ⟨⟨rfl, rfl, fun _ h => .inl h⟩, rfl⟩

/-- Sequencing operations that keep the layout. -/
theorem SameLayout.bind {m : Exec Server} {f : Server → Exec Server}
    (hm : Ensures m (SameLayout s)) (hf : ∀ s₁, SameLayout s s₁ → Ensures (f s₁) (SameLayout s₁)) :
    Ensures (m >>= f) (SameLayout s) :=
  hm.bind fun s₁ h₁ => (hf s₁ h₁).mono fun _ h₂ => h₁.trans h₂

theorem emitCycleViews_spec {current : Option ViewPtr} :
    Ensures (s.emitCycleViews w current v) fun s' => ∃ e, s' = s.emit e := by
  refine Ensures.bind_any fun p _ => ?_
  obtain ⟨oldId, oldPid⟩ := p
  exact Ensures.nonNull fun vt _ => Ensures.deref fun _ => Ensures.ok ⟨_, rfl⟩

theorem keybindingCycleViews_sameLayout {tile : Option TilePtr} {viewId : ℕ}
    {reverse ipc : Bool} :
    Ensures (s.keybindingCycleViews tile viewId reverse ipc) (SameLayout s) := by
  refine Ensures.bind_any fun t _ => Ensures.deref fun _ => Ensures.bind_any fun next _ =>
    Ensures.ifSome (fun _ => .refl) fun v _ => ?_
  refine SameLayout.bind workspaceTileUpdateView_sameLayout fun s₁ _ => ?_
  refine Ensures.bind_any fun f _ => ?_
  refine SameLayout.bind (Ensures.ite (fun _ => seatSetFocus_sameLayout)
    fun _ => Ensures.ok .refl) fun s₂ _ => ?_
  refine Ensures.ite (fun _ => emitCycleViews_spec.mono ?_) fun _ => Ensures.ok .refl
  rintro s₃ ⟨e, rfl⟩
  exact emit_sameLayout

theorem unlinkView_sameLayout : Ensures (s.unlinkView v) (SameLayout s) := by
  refine Ensures.bind wlListRemove_spec ?_
  rintro V ⟨a, c, -, -, rfl⟩
  exact Ensures.ok .of_shown

/-! ### Operations that keep the layout -/

/-- Sequencing after an operation that keeps the layout. -/
theorem KeepsLayout.bind {m : Exec Server} {f : Server → Exec Server}
    (hm : Ensures m (KeepsLayout s))
    (hf : ∀ s₁, KeepsLayout s s₁ → Ensures (f s₁) (KeepsLayout s₁)) :
    Ensures (m >>= f) (KeepsLayout s) :=
  hm.bind fun s₁ h₁ => (hf s₁ h₁).mono fun _ h₂ => h₁.trans h₂

theorem SameLayout.keeps {m : Exec Server} (hm : Ensures m (SameLayout s)) :
    Ensures m (KeepsLayout s) :=
  hm.mono fun _ h => h.toKeepsLayout

/-- Changes to views, display and scene keep the layout. -/
theorem keepsLayout_of_eq (ht : s'.tiles = s.tiles) (ho : s'.outs = s.outs)
    (hc : s'.cursorTile = s.cursorTile) : KeepsLayout s s' :=
  ⟨ht, ho, fun _ h => .inl (hc ▸ h)⟩

theorem linkView_keeps {managed : Bool} : Ensures (s.linkView managed w v) (KeepsLayout s) :=
  Ensures.bind_any fun _ _ => Ensures.ok (keepsLayout_of_eq rfl rfl rfl)

theorem seatSetFocus_keeps : Ensures (s.seatSetFocus view) (KeepsLayout s) :=
  SameLayout.keeps seatSetFocus_sameLayout

theorem workspaceTileUpdateView_keeps :
    Ensures (s.workspaceTileUpdateView t view) (KeepsLayout s) :=
  SameLayout.keeps workspaceTileUpdateView_sameLayout

theorem viewInit_keeps {attrs : ViewAttrs} : Ensures (s.viewInit attrs) (KeepsLayout s) :=
  Ensures.bind_any fun _ _ => Ensures.deref fun _ => Ensures.ok (keepsLayout_of_eq rfl rfl rfl)

theorem viewMap_keeps {x y : ℤ} : Ensures (s.viewMap v x y) (KeepsLayout s) := by
  refine Ensures.deref fun _ => Ensures.bind_any fun w _ => Ensures.deref fun _ => ?_
  refine Ensures.bind linkView_keeps fun s₁ h₁ => Ensures.bind_any fun cur _ => ?_
  refine Ensures.bind seatSetFocus_keeps fun s₂ h₂ => Ensures.bind_any fun tileId _ => ?_
  have h₀ : KeepsLayout s
      ({ s with views.viewMapped := Function.update s.views.viewMapped v true }.setViewWorkspace
        v w) := keepsLayout_of_eq rfl rfl rfl
  refine Ensures.ok ((h₀.trans h₁).trans (KeepsLayout.trans ?_
    (h₂.trans emit_sameLayout.toKeepsLayout)))
  by_cases hm : s₁.views.managed v = true
  · rw [if_pos hm]
    exact .refl
  · rw [if_neg hm]
    exact keepsLayout_of_eq rfl rfl rfl

theorem viewWithdraw_keeps {kb : Bool} : Ensures (s.viewWithdraw v kb) (KeepsLayout s) := by
  refine Ensures.bind_any fun prev _ => ?_
  refine KeepsLayout.bind (Ensures.ite (fun _ => seatSetFocus_keeps) fun _ =>
    Ensures.ite (fun _ => seatSetFocus_keeps) fun _ => Ensures.ok .refl) fun s₁ _ => ?_
  exact Ensures.bind_any fun tile _ =>
    Ensures.ifSome (fun _ => .refl) fun t _ => workspaceTileUpdateView_keeps

theorem viewUnmap_keeps {kb : Bool} : Ensures (s.viewUnmap v kb) (KeepsLayout s) := by
  refine Ensures.bind_any fun w _ => Ensures.deref fun _ => Ensures.ite (fun _ => ?_)
    fun _ => Ensures.ok .refl
  refine Ensures.bind_any fun tileId _ => ?_
  refine KeepsLayout.bind (Ensures.ite (fun _ => viewWithdraw_keeps) fun _ =>
    Ensures.ite (fun _ => seatSetFocus_keeps) fun _ => Ensures.ok .refl) fun s₁ _ => ?_
  refine KeepsLayout.bind (SameLayout.keeps unlinkView_sameLayout) fun s₂ _ => ?_
  exact Ensures.ok (keepsLayout_of_eq rfl rfl rfl)

theorem viewDestroy_keeps {kb : Bool} : Ensures (s.viewDestroy v kb) (KeepsLayout s) := by
  refine Ensures.deref fun _ => KeepsLayout.bind (Ensures.ite (fun _ => viewUnmap_keeps)
    fun _ => Ensures.ok .refl) fun s₁ _ => ?_
  exact Ensures.bind_any fun f _ => Ensures.bind_any fun _ _ =>
    Ensures.ok (keepsLayout_of_eq rfl rfl rfl)

/-! ### Moving views -/

theorem keybindingCycleViews_keeps {tile : Option TilePtr} {viewId : ℕ} {reverse ipc : Bool} :
    Ensures (s.keybindingCycleViews tile viewId reverse ipc) (KeepsLayout s) :=
  SameLayout.keeps keybindingCycleViews_sameLayout

theorem takeView_keeps : Ensures (s.takeView v) (KeepsLayout s) := by
  unfold takeView
  cases s.disp.viewTile v with
  | none => exact SameLayout.keeps unlinkView_sameLayout
  | some old =>
    refine KeepsLayout.bind workspaceTileUpdateView_keeps fun s₁ _ => ?_
    refine KeepsLayout.bind (SameLayout.keeps unlinkView_sameLayout) fun s₂ _ => ?_
    refine KeepsLayout.bind keybindingCycleViews_keeps fun s₃ _ => ?_
    exact Ensures.bind_any fun f _ =>
      Ensures.ite (fun _ => seatSetFocus_keeps) fun _ => Ensures.ok .refl

theorem putView_keeps : Ensures (s.putView v t) (KeepsLayout s) := by
  refine Ensures.deref fun _ => Ensures.bind linkView_keeps fun s₁ h₁ =>
    Ensures.bind_any fun f _ => ?_
  have h₀ : KeepsLayout s (s.setViewWorkspace v (s.tiles.tileWorkspace t)) :=
    keepsLayout_of_eq rfl rfl rfl
  have h₂ : KeepsLayout s ((s₁.setViewTile v (some t)).setTileView t (some v)) :=
    (h₀.trans h₁).trans (keepsLayout_of_eq rfl rfl rfl)
  exact Ensures.ite (fun _ => seatSetFocus_keeps.mono fun _ h => h₂.trans h)
    fun _ => Ensures.ok h₂

theorem emptyTile_keeps : Ensures (s.emptyTile t) (KeepsLayout s) :=
  Ensures.deref fun _ => Ensures.ifSome (fun _ => .refl) fun _ _ => Ensures.deref fun _ =>
    Ensures.ok (keepsLayout_of_eq rfl rfl rfl)

theorem leaveView_keeps : Ensures (s.leaveView t v) (KeepsLayout s) := by
  refine KeepsLayout.bind (SameLayout.keeps unlinkView_sameLayout) fun s₁ _ => ?_
  refine Ensures.bind keybindingCycleViews_keeps fun s₂ h₂ => Ensures.bind_any fun f _ => ?_
  have h₁ : KeepsLayout s₁ (s₁.setTileView t none) := keepsLayout_of_eq rfl rfl rfl
  exact Ensures.ite (fun _ => seatSetFocus_keeps.mono fun _ h => (h₁.trans h₂).trans h)
    fun _ => Ensures.ok (h₁.trans h₂)

theorem arriveView_keeps : Ensures (s.arriveView v) (KeepsLayout s) := by
  refine Ensures.bind_any fun w _ => KeepsLayout.bind linkView_keeps fun s₁ _ => ?_
  refine Ensures.bind_any fun f _ => KeepsLayout.bind workspaceTileUpdateView_keeps fun s₂ _ => ?_
  have h₂ : KeepsLayout s₂ (s₂.setViewWorkspace v w) := keepsLayout_of_eq rfl rfl rfl
  exact seatSetFocus_keeps.mono fun _ h => h₂.trans h

/-- A loop over views keeps what its body keeps. -/
theorem forEachViewSafe_ensures {h : Node} {body : Server → ViewPtr → Exec Server}
    {I : Server → Prop} (hbody : ∀ s v, I s → Ensures (body s v) I) {n : ℕ} {cur : Option Node}
    (hs : I s) : Ensures (forEachViewSafe h body n cur s) I := by
  induction n generalizing cur s with
  | zero => exact Ensures.error
  | succ n ih =>
    cases cur with
    | none => exact Ensures.error
    | some x =>
      refine Ensures.ite (fun _ => Ensures.ok hs) fun _ => Ensures.bind_any fun v _ => ?_
      exact Ensures.bind (hbody s v hs) fun s₁ h₁ => ih h₁

theorem moveViews_keeps {managed : Bool} {w' : WsPtr} :
    Ensures (s.moveViews managed w w') (KeepsLayout s) := by
  refine forEachViewSafe_ensures (fun s₁ v h₁ => ?_) .refl
  refine Ensures.mono ?_ fun _ h => h₁.trans h
  refine KeepsLayout.bind (SameLayout.keeps unlinkView_sameLayout) fun s₂ _ => ?_
  exact KeepsLayout.bind linkView_keeps fun s₃ _ => Ensures.ok (keepsLayout_of_eq rfl rfl rfl)

theorem rehomeViews_keeps {managed : Bool} {w' : WsPtr} :
    Ensures (s.rehomeViews managed w w') (KeepsLayout s) := by
  refine forEachViewSafe_ensures (fun s₁ v h₁ => ?_) .refl
  refine Ensures.mono ?_ fun _ h => h₁.trans h
  refine KeepsLayout.bind (SameLayout.keeps unlinkView_sameLayout) fun s₂ _ => ?_
  refine Ensures.ite (fun _ => Ensures.ok (keepsLayout_of_eq rfl rfl rfl)) fun _ => ?_
  refine KeepsLayout.bind linkView_keeps fun s₃ _ => Ensures.bind_any fun f _ => ?_
  have h₃ : KeepsLayout s₃ ((s₃.setViewWorkspace v w').setViewTile v (some f)) :=
    keepsLayout_of_eq rfl rfl rfl
  exact Ensures.ite (fun _ => seatSetFocus_keeps.mono fun _ h => h₃.trans h)
    fun _ => Ensures.ok h₃

end Server

end Cagebreak
