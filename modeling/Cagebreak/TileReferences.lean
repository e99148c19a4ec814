/-
References between tiles and views.

A view that is hidden goes on pointing at the tile it was in, also when that tile is
freed, and `view_is_visible` reads the tile.  `KeepsNamed` says of an input that it
takes all managed views along which point at tiles that it frees.

* `step_anchored` — such an input leaves no managed view pointing at a freed tile;
* `viewTile_agrees` — tiles and views refer to each other in every run of inputs that
  show no view twice and leave none behind.
-/
import Cagebreak.Merge
import Cagebreak.ShownRuns

namespace Cagebreak

open Exec

namespace Server

open Views

variable {s s' s'' : Server} {t f : TilePtr} {u v : ViewPtr} {w w' : WsPtr} {o : OutPtr}
  {W : WsPtr → Prop} {managed : Bool} {a : Action} {i : Input} {fit lit : ViewPtr → Prop}

/-- A managed view points at the tile. -/
structure Names (s : Server) (v : ViewPtr) (t : TilePtr) : Prop where
  live : s.views.viewLive v = true
  managed : s.views.managed v = true
  tile : s.disp.viewTile v = some t

/-- The tiles that managed views point at have not been freed. -/
def AllAnchored (s : Server) : Prop := ∀ v t, s.Names v t → s.tiles.tileLive t = true

/-! ### What is asked of an input -/

/-- The command takes the managed views along that point at tiles which it frees. -/
def CommandKeepsNamed (s : Server) : Action → Prop
  | .merge dir tileId => ∀ t m v, s.Absorbs dir tileId t m → s.Names v m → s.Shows m v
  | .layoutFullscreen screen workspace => ∀ cur o, s.outs.currOutput = some cur →
    (if screen ≠ 0 then s.outs.outputFromNum screen else some cur) = some o →
    let ws := if screen ≠ 0 then workspace else s.outs.outCurr cur
    ∀ w v t, ws < s.outs.nws → s.outs.wsAt o ws = .ok w → s.Names v t →
      s.tiles.tileWorkspace t = w →
      s.InListOf w v ∨ ∃ f, s.tiles.focusedTile w = .ok f ∧ s.disp.tileView f = some v
  | .workspaces nws => ∀ o ∈ s.outs.outputs, ∀ (i w : ℕ) v t, nws ≤ i →
    s.outs.wsAt o i = .ok w → s.Names v t → s.tiles.tileWorkspace t ≠ w
  | _ => True

/-- What an input takes along, `CommandKeepsNamed` for a command.  A view that points at
a tile of an output that goes away is in that tile or in a list of the output. -/
def KeepsNamed (s : Server) : Input → Prop
  | .command a => s.CommandKeepsNamed a
  | .outputDestroy o _ => ∀ v t, s.Names v t → s.Owns o (s.tiles.tileWorkspace t) →
    s.Shows t v ∨ ∃ m w, s.Owns o w ∧ s.views.links.Connected (.head m w) (.view v)
  | _ => True

/-! ### Tiles that are not freed -/

/-- If no tile is freed, the tile a view points at is there. -/
theorem Pointing.anchored (h : Pointing False s s') (hv : s.Anchored v) : s'.Anchored v := by
  intro t ht
  refine h.kept id t ?_
  rcases h.pointers v t ht with hold | hnew
  · exact .inl (hv t hold)
  · exact hnew

theorem Pointing.allAnchored (h : Pointing False s s') (hs : s.AllAnchored) : s'.AllAnchored := by
  intro v t hv
  refine h.kept id t ?_
  rcases h.old v hv.live with ⟨hlive, hattrs⟩ | hnew
  · rcases h.pointers v t hv.tile with hold | hnew
    · refine .inl (hs v t ⟨hlive, ?_, hold⟩)
      rw [Views.managed, ← hattrs]
      exact hv.managed
    · exact hnew
  · exact hnew t hv.tile

/-- The views are there that have been there, and point where they pointed.  No tile
outside of `W` is freed. -/
structure Spared (W : WsPtr → Prop) (s s' : Server) : Prop where
  live : s'.views.viewLive = s.views.viewLive
  attrs : s'.views.viewAttrs = s.views.viewAttrs
  viewTile : s'.disp.viewTile = s.disp.viewTile
  tile : ∀ t, s.tiles.tileLive t = true → ¬ W (s.tiles.tileWorkspace t) →
    s'.tiles.tileLive t = true ∧ s'.tiles.tileWorkspace t = s.tiles.tileWorkspace t

theorem Spared.refl : Spared W s s := ⟨rfl, rfl, rfl, fun _ ht _ => ⟨ht, rfl⟩⟩

theorem Spared.trans (h : Spared W s s') (h' : Spared W s' s'') : Spared W s s'' := by
  refine ⟨h'.live.trans h.live, h'.attrs.trans h.attrs, h'.viewTile.trans h.viewTile,
    fun t ht hw => ?_⟩
  obtain ⟨ht', hw'⟩ := h.tile t ht hw
  obtain ⟨ht'', hw''⟩ := h'.tile t ht' (by rwa [hw'])
  exact ⟨ht'', hw''.trans hw'⟩

theorem Spared.names (h : Spared W s s') (hv : s'.Names v t) : s.Names v t := by
  refine ⟨?_, ?_, ?_⟩
  · rw [← h.live]
    exact hv.live
  · rw [Views.managed, ← h.attrs]
    exact hv.managed
  · rw [← h.viewTile]
    exact hv.tile

theorem Spared.allAnchored (h : Spared W s s') (hs : s.AllAnchored)
    (hw : ∀ v t, s.Names v t → ¬ W (s.tiles.tileWorkspace t)) : s'.AllAnchored := by
  intro v t hv
  have hold := h.names hv
  exact (h.tile t (hs v t hold) (hw v t hold)).1

/-- The same tiles and views. -/
theorem Spared.of_eq (htile : s'.tiles.tileLive = s.tiles.tileLive)
    (hws : s'.tiles.tileWorkspace = s.tiles.tileWorkspace)
    (hlive : s'.views.viewLive = s.views.viewLive)
    (hattrs : s'.views.viewAttrs = s.views.viewAttrs)
    (hview : s'.disp.viewTile = s.disp.viewTile) : Spared W s s' := by
  refine ⟨hlive, hattrs, hview, fun t ht _ => ?_⟩
  rw [htile, hws]
  exact ⟨ht, rfl⟩

theorem workspaceFreeTiles_spared (hti : s.tiles.TilesInv False none) (hw : W w) :
    Ensures (s.workspaceFreeTiles w) (Spared W s) := by
  refine (workspaceFreeTiles_spec hti).mono ?_
  rintro s' ⟨-, c, T', rfl, hfreed, -⟩
  refine ⟨rfl, rfl, rfl, fun t ht hnot => ⟨(hfreed.tileLive t).mpr ⟨ht, ?_⟩, ?_⟩⟩
  · rintro rfl
    exact hnot hw
  · exact congrFun hfreed.tileWorkspace t

theorem workspaceFree_spared (hti : s.tiles.TilesInv False none) (hw : W w) :
    Ensures (s.workspaceFree w) (Spared W s) :=
  Ensures.bind (workspaceFreeTiles_spared hti hw) fun _ h₁ =>
    Ensures.ok (h₁.trans (.of_eq rfl rfl rfl rfl rfl))

/-! ### Fewer workspaces, or more -/

theorem unlinkView_spared : Ensures (s.unlinkView v) (Spared W s) := by
  refine Ensures.bind wlListRemove_spec ?_
  rintro V ⟨_, _, -, -, rfl⟩
  exact Ensures.ok (.of_eq rfl rfl rfl rfl rfl)

theorem linkView_spared : Ensures (s.linkView managed w v) (Spared W s) := by
  refine Ensures.bind wlListInsert_spec ?_
  rintro V ⟨_, -, rfl⟩
  exact Ensures.ok (.of_eq rfl rfl rfl rfl rfl)

theorem moveViews_spared : Ensures (s.moveViews managed w w') (Spared W s) := by
  refine forEachViewSafe_ensures (fun s₁ v h₁ => ?_) .refl
  refine Ensures.bind (unlinkView_spared (W := W)) fun s₂ h₂ =>
    Ensures.bind (linkView_spared (W := W)) fun s₃ h₃ => ?_
  exact Ensures.ok (((h₁.trans h₂).trans h₃).trans (.of_eq rfl rfl rfl rfl rfl))

/-- A new tile is none of those that were there. -/
theorem fullScreenWorkspaceTiles_spared
    (hlt : ∀ t : ℕ, s.tiles.tileLive t = true → t < s.tiles.tileTop) :
    Ensures (s.fullScreenWorkspaceTiles w) fun s' => Spared W s s' ∧
      (∀ t : ℕ, s'.tiles.tileLive t = true → t < s'.tiles.tileTop) ∧ s'.outs = s.outs ∧
      s'.views = s.views := by
  refine Ensures.deref fun _ => workspaceTileUpdateView_spec.mono ?_
  rintro s' ⟨-, sc, rfl⟩
  refine ⟨⟨rfl, rfl, ?_, fun t ht _ => ?_⟩, fun t ht => ?_, rfl, rfl⟩
  · exact Display.assign_viewTile_none (Function.update_self _ _ _)
  · have hne : t ≠ s.tiles.tileTop := fun e => lt_irrefl _ (e ▸ hlt t ht)
    refine ⟨?_, Function.update_of_ne hne _ _⟩
    exact (Function.update_of_ne hne _ _).trans ht
  · show t < s.tiles.tileTop + 1
    replace ht : Function.update s.tiles.tileLive s.tiles.tileTop true t = true := ht
    by_cases hne : t = s.tiles.tileTop
    · omega
    · rw [Function.update_of_ne hne] at ht
      exact Nat.lt_succ_of_lt (hlt t ht)

theorem newWorkspace_spared {num : ℕ}
    (hlt : ∀ t : ℕ, s.tiles.tileLive t = true → t < s.tiles.tileTop) :
    Ensures (s.newWorkspace o num) fun p => Spared W s p.2 ∧
      (∀ t : ℕ, p.2.tiles.tileLive t = true → t < p.2.tiles.tileTop) ∧ p.2.outs = s.outs := by
  have hmade : Spared W s { s with tiles := { s.tiles with
      wsTop := s.tiles.wsTop + 1
      wsLive := Function.update s.tiles.wsLive s.tiles.wsTop true
      wsOutput := Function.update s.tiles.wsOutput s.tiles.wsTop o
      wsNum := Function.update s.tiles.wsNum s.tiles.wsTop num } } := .of_eq rfl rfl rfl rfl rfl
  refine Ensures.bind (fullScreenWorkspaceTiles_spared (W := W) (by exact hlt)) ?_
  rintro s₁ ⟨h₁, hlt₁, houts₁, -⟩
  exact Ensures.ok ⟨(hmade.trans h₁).trans (.of_eq rfl rfl rfl rfl rfl), hlt₁, houts₁⟩

theorem addWorkspaces_spared {l : List ℕ}
    (hlt : ∀ t : ℕ, s.tiles.tileLive t = true → t < s.tiles.tileTop) :
    Ensures (l.foldlM (addWorkspace o) s) fun s' => Spared W s s' ∧
        ∀ o', o' ≠ o → s'.outs.outWorkspaces o' = s.outs.outWorkspaces o' := by
  refine Ensures.mono (P := fun s' => Spared W s s' ∧
    (∀ t : ℕ, s'.tiles.tileLive t = true → t < s'.tiles.tileTop) ∧
    ∀ o', o' ≠ o → s'.outs.outWorkspaces o' = s.outs.outWorkspaces o') ?_
    fun _ h' => ⟨h'.1, h'.2.2⟩
  refine Ensures.foldlM (fun s₁ i _ h₁ => ?_) ⟨.refl, hlt, fun _ _ => rfl⟩
  obtain ⟨h₁, hlt₁, hother₁⟩ := h₁
  refine addWorkspace_ensures ((newWorkspace_spared (W := W) hlt₁).mono fun p hp => ?_)
  obtain ⟨w, s₂⟩ := p
  obtain ⟨h₂, hlt₂, houts₂⟩ := hp
  refine ⟨(h₁.trans h₂).trans (.of_eq rfl rfl rfl rfl rfl), hlt₂, fun o' ho' => ?_⟩
  rw [← hother₁ o' ho', ← show s₂.outs = s₁.outs from houts₂]
  exact Function.update_of_ne ho' _ _

/-- The workspaces of one output that go are in `W`. -/
theorem outputSetNws_spared {len : OutPtr → ℕ} {oldNws nws : ℕ} (hwf : LayoutInv False none len s)
    (hnws : s.outs.nws = nws) (hdrop : ∀ i w, nws ≤ i → s.outs.wsAt o i = .ok w → W w) :
    Ensures (outputSetNws oldNws nws s o) fun s' => Spared W s s' ∧
      ∀ o', o' ≠ o → s'.outs.outWorkspaces o' = s.outs.outWorkspaces o' := by
  -- what is dropped is in `W`; its views move, but go on pointing at their tiles
  refine Ensures.bind (P := fun s₁ => LayoutInv False none len s₁ ∧ s₁.outs = s.outs ∧
    Spared W s s₁) (Ensures.foldlM (fun s₁ i hi h₁ => ?_) ⟨hwf, rfl, .refl⟩) ?_
  · obtain ⟨hwf₁, houts₁, h₁⟩ := h₁
    refine Ensures.bind_any fun w hw => Ensures.bind_any fun last _ => Ensures.deref fun _ => ?_
    refine Ensures.bind ((moveViews_spared (W := W)).and moveViews_keeps) ?_
    rintro s₂ ⟨h₂, hk₂⟩
    refine Ensures.bind ((moveViews_spared (W := W)).and moveViews_keeps) ?_
    rintro s₃ ⟨h₃, hk₃⟩
    have hk := hk₂.trans hk₃
    have hi' := (List.mem_range'_1.mp hi).1
    have hwf₃ : LayoutInv False none len s₃ := hk.inv hwf₁
    have hW : W w := by
      refine hdrop i w hi' ?_
      rw [← houts₁]
      exact hw
    have hw₃ : s₃.outs.wsAt o i = .ok w := by
      rw [hk.outs]
      exact hw
    refine ((workspaceFree_spared hwf₃.tiles hW).and (workspaceFree_last hwf₃ hw₃ ?_)).mono ?_
    · rw [hk.outs, houts₁, hnws]
      exact hi'
    · rintro s₄ ⟨h₄, hwf₄, houts₄⟩
      exact ⟨hwf₄, houts₄.trans (hk.outs.trans houts₁), ((h₁.trans h₂).trans h₃).trans h₄⟩
  rintro s₁ ⟨hwf₁, houts₁, h₁⟩
  have hset : Spared W s (s₁.setWorkspaces o ((s₁.outs.outWorkspaces o).take nws)) :=
    h₁.trans (.of_eq rfl rfl rfl rfl rfl)
  refine Ensures.bind (addWorkspaces_spared (W := W) (by exact hwf₁.tiles.tile_lt)) ?_
  rintro s₂ ⟨h₂, hother₂⟩
  have hall : Spared W s s₂ ∧ ∀ o', o' ≠ o →
      s₂.outs.outWorkspaces o' = s.outs.outWorkspaces o' := by
    refine ⟨hset.trans h₂, fun o' ho' => (hother₂ o' ho').trans ?_⟩
    rw [← houts₁]
    exact Function.update_of_ne ho' _ _
  refine Ensures.ite (fun _ => workspaceFocus_spec.mono ?_) fun _ => Ensures.ok hall
  rintro s₃ (⟨rfl, -⟩ | ⟨rfl, -⟩)
  · exact ⟨hall.1.trans (.of_eq rfl rfl rfl rfl rfl), hall.2⟩
  · exact ⟨hall.1.trans (.of_eq rfl rfl rfl rfl rfl), hall.2⟩

/-- **`keybinding_set_nws`** takes no tile from a view that points at a tile of another
workspace. -/
theorem keybindingSetNws_anchored (hwf : WellFormed False s) (hs : s.AllAnchored) {nws : ℕ}
    (hnamed : ∀ o ∈ s.outs.outputs, ∀ (i w : ℕ) v t, nws ≤ i → s.outs.wsAt o i = .ok w →
      s.Names v t → s.tiles.tileWorkspace t ≠ w) :
    Ensures (s.keybindingSetNws nws) AllAnchored := by
  -- outputs that are still to come have their old arrays, so what they drop is in `W`
  set W : WsPtr → Prop := fun w => ∃ o ∈ s.outs.outputs, ∃ i, nws ≤ i ∧ s.outs.wsAt o i = .ok w
    with hW
  set I : List OutPtr → Server → Prop := fun l s₁ => Spared W s s₁ ∧
    ∀ o ∈ l, o ∈ s.outs.outputs ∧ s₁.outs.outWorkspaces o = s.outs.outWorkspaces o with hI
  refine Ensures.bind (setNws_loop (I := I) (fun o l s₁ hol hnws hwf₁ h₁ => ?_) _ _
    hwf.outs.nodup (fun _ ho => ho) (WellFormed.setNws hwf nws) rfl
    ⟨.of_eq rfl rfl rfl rfl rfl, fun o ho => ⟨ho, rfl⟩⟩) ?_
  · obtain ⟨hsp₁, harr₁⟩ := h₁
    obtain ⟨ho, heq⟩ := harr₁ o List.mem_cons_self
    refine (outputSetNws_spared (W := W) hwf₁ hnws fun i w hi hw => ⟨o, ho, i, hi, ?_⟩).mono ?_
    · rw [Outputs.wsAt, hwf.outs.outLive o ho, ← heq, getElem?_of_wsAt hw]
      rfl
    · rintro s₂ ⟨h₂, hother₂⟩
      refine ⟨hsp₁.trans h₂, fun o' ho' => ?_⟩
      have hne : o' ≠ o := fun e => hol (e ▸ ho')
      obtain ⟨hmem, heq'⟩ := harr₁ o' (List.mem_cons_of_mem _ ho')
      exact ⟨hmem, (hother₂ o' hne).trans heq'⟩
  · rintro s₁ ⟨-, -, hsp₁, -⟩
    have h₁ : s₁.AllAnchored := by
      refine hsp₁.allAnchored hs fun v t hv => ?_
      rintro ⟨o, ho, i, hi, hw⟩
      exact hnamed o ho i _ v t hi hw hv rfl
    exact Ensures.bind refocus_repoints fun s₂ h₂ => Ensures.ok
      (emit_repoints.toPointing.allAnchored (h₂.toPointing.allAnchored h₁))

/-! ### Full screen workspaces and merged tiles -/

/-- A loop over a list of views that comes to an end sees all of them. -/
theorem InListOf.mem_of_viewsOf {l : List ViewPtr} (hv : s.InListOf w v)
    (h : s.views.links.Mutual) (hl : s.viewsOf (.head true w) = .ok l) : v ∈ l := by
  obtain ⟨ns, hns, hmap⟩ := bind_eq_ok.mp hl
  have hmem : Node.view v ∈ ns :=
    (List.mem_cons.mp (hv.mem_of_collect h hns)).resolve_left nofun
  -- the nodes of the list are mapped to their views one by one
  clear hl hns
  induction ns generalizing l with
  | nil => exact absurd hmem List.not_mem_nil
  | cons n ns ih =>
    rw [List.mapM_cons] at hmap
    obtain ⟨u, hu, hmap⟩ := bind_eq_ok.mp hmap
    obtain ⟨us, hus, hmap⟩ := bind_eq_ok.mp hmap
    obtain rfl := Except.ok.inj hmap
    rcases List.mem_cons.mp hmem with rfl | hmem
    · obtain rfl : v = u := Except.ok.inj hu
      exact List.mem_cons_self
    · exact List.mem_cons_of_mem _ (ih hus hmem)

theorem pointViewsAt_viewTile {l : List ViewPtr} :
    (s.pointViewsAt l t).disp.viewTile v = if v ∈ l then some t else s.disp.viewTile v := by
  unfold pointViewsAt
  induction l generalizing s with
  | nil => rfl
  | cons u l ih =>
    rw [List.foldl_cons, ih]
    show (if v ∈ l then some t else Function.update s.disp.viewTile u (some t) v) = _
    by_cases hl : v ∈ l
    · simp [hl]
    · by_cases huv : v = u
      · simp [huv]
      · simp [hl, huv]

/-- **`output_make_workspace_fullscreen`** points at the new tile what is in the list of
the workspace, and what the focused tile has shown. -/
theorem outputMakeWorkspaceFullscreen_anchored (hwf : WellFormed False s)
    (hlinks : s.views.links.Mutual) (hs : s.AllAnchored) {ws : ℕ}
    (hnamed : ∀ w v t, ws < s.outs.nws → s.outs.wsAt o ws = .ok w → s.Names v t →
      s.tiles.tileWorkspace t = w →
      s.InListOf w v ∨ ∃ f, s.tiles.focusedTile w = .ok f ∧ s.disp.tileView f = some v) :
    Ensures (s.outputMakeWorkspaceFullscreen o ws) AllAnchored := by
  refine Ensures.ite (fun _ => Ensures.ok hs) fun hws => Ensures.bind_any fun w hw =>
    Ensures.bind_any fun f hf => Ensures.deref fun _ => Ensures.bind_any fun current hcur => ?_
  refine Ensures.bind ((workspaceFreeTiles_spared (W := (· = w)) hwf.tiles rfl).and
    ((workspaceFreeTiles_inv hwf).and (workspaceFreeTiles_spec hwf.tiles))) ?_
  rintro s₁ ⟨hsp₁, ⟨hwf₁, -⟩, -, c, T', heq₁, -⟩
  have hviews₁ : s₁.views = s.views := by rw [heq₁]
  refine Ensures.bind (fullScreenWorkspaceTiles_spared (W := (· = w)) hwf₁.tiles.tile_lt) ?_
  rintro s₂ ⟨hsp₂, -, -, hviews₂⟩
  have hsp := hsp₁.trans hsp₂
  have hviews : s₂.views = s.views := hviews₂.trans hviews₁
  refine Ensures.bind_any fun f' _ => Ensures.bind_any fun l hl => ?_
  refine Ensures.bind (P := AllAnchored) (workspaceTileUpdateView_spec.mono ?_) fun s₄ h₄ =>
    Ensures.ite (fun _ => ?_) fun _ => Ensures.ok h₄
  · rintro s₄ ⟨hlive, sc, rfl⟩ v t hv
    have htiles : (s₂.pointViewsAt l f').tiles = s₂.tiles := pointViewsAt_keeps.tiles
    show (s₂.pointViewsAt l f').tiles.tileLive t = true
    rcases assign_pointer hv.tile with hold | ⟨-, rfl⟩
    · rw [pointViewsAt_viewTile] at hold
      by_cases hvl : v ∈ l
      · rw [if_pos hvl] at hold
        exact Option.some.inj hold ▸ hlive
      · rw [if_neg hvl] at hold
        have hv₀ : s.Names v t := by
          refine hsp.names ⟨?_, ?_, hold⟩
          · rw [← pointViewsAt_views (s := s₂) (t := f') (l := l)]
            exact hv.live
          · rw [← pointViewsAt_views (s := s₂) (t := f') (l := l)]
            exact hv.managed
        rw [htiles]
        by_cases htw : s.tiles.tileWorkspace t = w
        · -- the view is not in the list, so it was in the focused tile
          rcases hnamed w v t (not_le.mp hws) hw hv₀ htw with hlist | ⟨f₀, hf₀, hshown⟩
          · refine absurd (InListOf.mem_of_viewsOf (s := s₂) ?_ (by rwa [hviews]) hl) hvl
            rw [InListOf, hviews]
            exact hlist
          · obtain rfl := Except.ok.inj (hf.symm.trans hf₀)
            rw [hshown] at hcur
            obtain rfl := Except.ok.inj hcur
            have hself := hv.tile.symm.trans Display.assign_viewTile_self
            rw [htiles] at hlive
            exact Option.some.inj hself ▸ hlive
        · exact (hsp.tile t (hs v t hv₀) htw).1
    · exact hlive
  · exact seatSetFocus_repoints.mono fun _ h₅ => h₅.toPointing.allAnchored h₄

/-- What `merge_tile` frees is named by what it has shown, at most. -/
theorem merge_anchored (hwf : WellFormed False s) (hrun : s.terminated = false)
    (hs : s.AllAnchored) {dir : Direction} {tileId : ℕ}
    (hnamed : ∀ t m v, s.Absorbs dir tileId t m → s.Names v m → s.Shows m v) :
    Ensures (s.runAction (.merge dir tileId)) AllAnchored := by
  refine Ensures.bind_any fun tile ht => Ensures.ifSome (fun _ => hs) fun t hsome => ?_
  subst hsome
  by_cases habs : ∃ m, s.Absorbs dir tileId t m
  · obtain ⟨m, hm⟩ := habs
    refine (mergeTile_absorbed hm).mono fun s' h v t' hv => ?_
    rw [h.freed]
    have htile := h.viewTile v
    rw [hv.tile] at htile
    -- the view of the tile that stays points at it again, that of the other one at none
    by_cases htv : s.disp.tileView t = some v
    · rw [if_pos htv] at htile
      obtain rfl := Option.some.inj htile
      rw [Function.update_of_ne hm.ne.symm]
      exact addressedTile_live hwf ht
    · rw [if_neg htv] at htile
      by_cases hmv : s.disp.tileView m = some v
      · rw [if_pos hmv] at htile
        exact nomatch htile
      · rw [if_neg hmv] at htile
        have hold : s.Names v t' := by
          refine ⟨?_, ?_, htile.symm⟩
          · rw [← h.views]
            exact hv.live
          · rw [← h.views]
            exact hv.managed
        have hne : t' ≠ m := by
          rintro rfl
          exact hmv (hnamed t t' v hm hold).2
        rw [Function.update_of_ne hne]
        exact hs v t' hold
  · -- nothing is merged
    refine Ensures.bind_any fun n hn => Ensures.ifSome (fun _ => hs) fun m hm =>
      Ensures.ite (fun _ => Ensures.ok hs) fun hnot => ?_
    subst hm
    rw [not_or, not_or, not_not, not_not] at hnot
    exact absurd ⟨m, hrun, ht, hn, hnot.1, hnot.2.1, hnot.2.2⟩ habs

/-! ### Outputs -/

/-- **`output_destroy`** points the views of the lists at other tiles, and those that are
shown at none. -/
theorem outputDestroy_anchored (hwf : WellFormed False s) (h : s.Sound fit lit)
    (hvi : s.ViewsInv) (hs : s.AllAnchored) (ho : o ∈ s.outs.outputs)
    (hd : Detached (s.Owns o) s)
    (hnamed : ∀ v t, s.Names v t → s.Owns o (s.tiles.tileWorkspace t) →
      s.Shows t v ∨ ∃ m w, s.Owns o w ∧ s.views.links.Connected (.head m w) (.view v)) :
    Ensures (s.outputDestroy o) AllAnchored := by
  have hf : FocusLive s.tiles := fun w f hw => (hwf.tiles.focused_mem (by simp) hw).2.1
  refine Ensures.bind ((outputClear_wellFormed hwf).and ((outputClear_sound hwf h ho hd).and
    ((outputClear_repoints (F := False) hf).and (outputClear_kept hvi)))) ?_
  rintro s₁ ⟨⟨hwf₁, hmem₁⟩, hc₁, hre₁, hkept₁⟩
  have hs₁ := hre₁.toPointing.allAnchored hs
  -- the views left point at tiles of other outputs
  have hother : ∀ v t, s₁.Names v t → ¬ s₁.Owns o (s₁.tiles.tileWorkspace t) := by
    rintro v t hv ⟨i, hi⟩
    rw [hc₁.wsAt, hc₁.tiles] at hi
    have hm : s.views.managed v = true := by
      rw [Views.managed, ← hkept₁.same.attrs]
      exact hv.managed
    have htied : Tied (s.Owns o) s v := fun hlive t ht hw => hnamed v t ⟨hlive, hm, ht⟩ hw
    have hvacated : ∀ w, s.Owns o w → Vacated s₁ w := by
      rintro w ⟨j, hj⟩
      refine hc₁.vacated j w ?_ hj
      rw [← hwf.outs.len o ho]
      exact (List.getElem?_eq_some_iff.mp (getElem?_of_wsAt hj)).1
    rcases hc₁.tied v htied hv.live t hv.tile ⟨i, by rwa [hc₁.tiles]⟩ with hshows | ⟨m, w, hw, hc⟩
    · refine (hvacated _ ⟨i, hi⟩).quiet t v hshows ?_
      rw [hc₁.tiles]
    · exact (hvacated w hw).empty m v hc
  -- only workspaces of the output are freed
  refine Ensures.bind (P := fun s₂ => Spared (s₁.Owns o) s₁ s₂ ∧
    LayoutInv False none (fun _ => s₁.outs.nws) s₂ ∧ s₂.outs = s₁.outs)
    (Ensures.foldlM (fun s₂ i _ h₂ => ?_) ⟨.refl, hwf₁, rfl⟩) fun s₂ h₂ => Ensures.ok ?_
  · obtain ⟨hsp₂, hwf₂, houts₂⟩ := h₂
    refine Ensures.bind_any fun w hw => Ensures.deref fun _ => ?_
    have hown : s₁.Owns o w := ⟨i, houts₂ ▸ hw⟩
    refine ((workspaceFree_spared hwf₂.tiles hown).and (workspaceFree_inv hwf₂ ?_)).mono
      fun s₃ h₃ => ⟨hsp₂.trans h₃.1, h₃.2.1, h₃.2.2.trans houts₂⟩
    intro o' ho' j _ hw'
    have h1 := (hwf₂.outs.place o i w (getElem?_of_wsAt hw)).2.1
    have h2 := (hwf₂.outs.place o' j w hw').2.1
    rw [houts₂] at ho'
    exact hmem₁ (h1.symm.trans h2 ▸ ho')
  · refine Spared.allAnchored (h₂.1.trans ?_) hs₁ hother
    split
    · exact .of_eq rfl rfl rfl rfl rfl
    · exact .of_eq rfl rfl rfl rfl rfl

/-! ### Every input -/

theorem runAction_anchored (hwf : WellFormed False s)
    (hlinks : s.views.links.Mutual) (hrun : s.terminated = false) (hs : s.AllAnchored)
    (ha : s.CommandKeepsNamed a) : Ensures (s.runAction a) AllAnchored := by
  by_cases hfrees : a.FreesTiles
  · cases a with
    | layoutFullscreen screen workspace =>
      refine Ensures.bind_any fun cur hcur => Ensures.ifSome (fun _ => hs) fun o ho =>
        Ensures.ite (fun _ => Ensures.ok hs) fun _ => ?_
      refine Ensures.bind (outputMakeWorkspaceFullscreen_anchored hwf hlinks hs
        (ha cur o (nonNull_eq_ok.mp hcur) ho)) fun s₁ h₁ => ?_
      exact Ensures.bind_any fun _ _ => Ensures.bind_any fun _ _ => Ensures.ok
        (emit_repoints.toPointing.allAnchored h₁)
    | merge dir tileId => exact merge_anchored hwf hrun hs ha
    | workspaces nws => exact keybindingSetNws_anchored hwf hs ha
    | _ => exact absurd hfrees id
  · exact (runAction_repoints (F := False) hfrees).mono fun _ h₁ => h₁.toPointing.allAnchored hs

/-- **Such an input** leaves no managed view pointing at a tile that it frees. -/
theorem step_anchored (hwf : WellFormed False s) (hvi : s.ViewsInv) (h : s.Sound fit lit)
    (hs : s.AllAnchored) (hshown : ∀ o c, i = .outputDestroy o c → Detached (s.Owns o) s)
    (hnamed : s.KeepsNamed i) : Ensures (step s i) AllAnchored := by
  by_cases hfrees : i.FreesTiles
  · refine Ensures.ite (fun _ => Ensures.ok hs) fun hrun => ?_
    cases i with
    | command a =>
      exact runAction_anchored hwf h.links.paired (by simpa using hrun) hs hnamed
    | outputDestroy o cursor =>
      refine Ensures.deref fun ho => outputDestroy_anchored (hwf.setCursorAt cursor)
        (h.congr rfl rfl rfl rfl) (hvi.setCursorAt cursor) (fun v t hv => ?_)
        (of_decide_eq_true ho) ?_ fun v t hv hw => ?_
      · exact hs v t ⟨hv.live, hv.managed, hv.tile⟩
      · have hd := hshown o cursor rfl
        exact ⟨hd.heads, hd.shown⟩
      · exact hnamed v t ⟨hv.live, hv.managed, hv.tile⟩ hw
    | _ => exact absurd hfrees id
  · exact (step_pointing hwf hvi hfrees).mono fun _ h₁ => h₁.allAnchored hs

end Server

open Server

variable {s : Server}

/-- Tiles and views refer to each other, and `view_is_visible` tells of every managed
view whether some tile shows it. -/
structure Server.ReferencesAgree (s : Server) : Prop extends PointersAgree s where
  answers : ∀ v, s.views.viewLive v = true → s.views.managed v = true →
    ∃ b, s.viewIsVisible v = .ok b

theorem Server.PointersAgree.referencesAgree (hp : s.PointersAgree) (hs : s.AllAnchored) :
    s.ReferencesAgree := by
  refine ⟨hp, fun v hlive hm => ?_⟩
  have hv : s.Anchored v := fun t ht => hs v t ⟨hlive, hm, ht⟩
  rw [viewIsVisible, deref_eq_ok.mpr hlive, ok_bind, if_pos hm, viewGetTile,
    deref_eq_ok.mpr hlive, ok_bind]
  cases ht : s.disp.viewTile v with
  | none => exact ⟨false, rfl⟩
  | some t =>
    rw [ifSome_some, deref_eq_ok.mpr (hv t ht), ok_bind]
    exact ⟨_, rfl⟩

/-- **Tiles and the views they show refer to each other** in every run whose inputs show
no view twice, and leave none behind in a tile that they free. -/
theorem viewTile_agrees
    (h : Steps step (fun s i => s.KeepsShown False False i ∧ s.KeepsNamed i) Server.init s) :
    s.ReferencesAgree := by
  have hall : WellFormed False s ∧ s.ViewsInv ∧
      s.Sound (fun _ => False) (fun _ => False) ∧ s.AllAnchored := by
    refine h.invariant (I := fun s => WellFormed False s ∧ s.ViewsInv ∧
      s.Sound (fun _ => False) (fun _ => False) ∧ s.AllAnchored)
      ⟨.init, .init, .init, fun v t hv => nomatch hv.tile⟩ ?_
    rintro s i ⟨hwf, hvi, hs, ha⟩ ⟨hshown, hnamed⟩
    refine (step_wellFormed (fun _ => rfl) hwf).and ((step_viewsInv hvi).and
      ((step_sound hwf hvi hs hshown).and (step_anchored hwf hvi hs ha ?_ hnamed)))
    rintro o c rfl
    exact hshown
  obtain ⟨-, -, hs, ha⟩ := hall
  exact hs.pointersAgree.referencesAgree ha

theorem viewTile_agrees_shown : ∃ s, Steps step
    (fun s i => s.KeepsShown False False i ∧ s.KeepsNamed i) Server.init s ∧ s.Shows 0 0 ∧
      s.ReferencesAgree := by
  have hnamed : ∀ i ∈ exchanges, ∀ s : Server, s.KeepsNamed i := by
    simp [exchanges, KeepsNamed, CommandKeepsNamed]
  have hok : ∀ i ∈ exchanges, ∀ s : Server, s.KeepsShown False False i ∧ s.KeepsNamed i :=
    fun i hi s => ⟨keepsShown_exchanges i hi s, hnamed i hi s⟩
  obtain ⟨s, hs, hshown, -⟩ := exists_shown hok
  exact ⟨s, hs, hshown, viewTile_agrees hs⟩

/-- A view is exchanged with an empty tile of another workspace, and its workspace is
made full screen: two tiles show it. -/
theorem viewTile_disagrees : ¬ ∀ s, Reachable s → s.ReferencesAgree := by
  intro h
  obtain ⟨s, hs, htest⟩ := exists_of_returns (p := fun s : Server => s.tiles.tileLive 1 &&
      s.tiles.tileLive 2 && decide (s.disp.tileView 1 = some 0) &&
        decide (s.disp.tileView 2 = some 0))
    (m := run step Server.init
      [.outputNew "HDMI-A-1" ⟨0, 0, 8, 6, by decide, by decide⟩ none,
        .command (.workspaces ⟨2, by decide, by decide⟩), .viewNew ⟨false, false, false, 0⟩,
        .viewMap 0 0 0, .command (.swap 1 2 false), .command (.layoutFullscreen 0 0)])
    (by decide +kernel)
  simp only [Bool.and_eq_true, decide_eq_true_eq] at htest
  obtain ⟨⟨⟨hlive, hlive'⟩, hview⟩, hview'⟩ := htest
  have hone := (h s (Steps.of_run hs fun _ _ _ => trivial)).once 1 2 0 ⟨hlive, hview⟩
    ⟨hlive', hview'⟩
  exact absurd hone (by decide)

end Cagebreak
