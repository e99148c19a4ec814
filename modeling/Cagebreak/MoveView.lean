/-
Moving a view to a tile.

`keybinding_move_view_to_tile` empties the tile that the view points at, which need not
be one that shows it, and lets it go on to a hidden view; then the view comes into the
other tile.  The lists keep their views but for the one that moves (`Homed`), and
whatever gets the focus on the way leaves every view in its tile (`Refiled`).

* `takeView_exactly`, `putView_gives` — the two halves of the command;
* `moveView_iff` — which tiles show what once the view has moved.
-/
import Cagebreak.Unmap
import Mathlib.Data.List.Find

namespace Cagebreak

open Exec

namespace Server

open Views

variable {s s' s'' : Server} {w : WsPtr} {f o t : TilePtr} {u v : ViewPtr}
  {view : Option ViewPtr} {L : Bool → WsPtr → List ViewPtr} {l : List ViewPtr}
  {viewId tileId : ℕ} {follow : Bool}

/-! ### The order of the lists -/

/-- These are the lists of the workspaces that are there, and what a tile shows is in
that of its workspace. -/
structure Homed (s : Server) (L : Bool → WsPtr → List ViewPtr) : Prop where
  lists : s.views.ListsAre (fun w => s.tiles.wsLive w = true) L
  shown : ∀ t v, s.Shows t v → v ∈ L true (s.tiles.tileWorkspace t)

/-- Every tile shows what it has shown, and the lists have another order at most. -/
structure Refiled (s s' : Server) : Prop where
  showing : Showing s s'
  views : s'.views = { s.views with links := s'.views.links }
  homed : ∀ L, s.Homed L → ∃ L', s'.Homed L' ∧ ∀ managed w, (L' managed w).Perm (L managed w)

theorem Homed.showing (h : s.Homed L) (hs : Showing s s') {L' : Bool → WsPtr → List ViewPtr}
    (hlists : s'.views.ListsAre (fun w => s.tiles.wsLive w = true) L')
    (hperm : ∀ managed w, (L' managed w).Perm (L managed w)) : s'.Homed L' := by
  constructor
  · rw [hs.tiles]
    exact hlists
  · intro t v hv
    rw [hs.tiles]
    exact (hperm _ _).mem_iff.mpr (h.shown t v (hs.shows_iff.mp hv))

theorem Refiled.of_views (hs : Showing s s') (hviews : s'.views = s.views) : Refiled s s' := by
  refine ⟨hs, by rw [hviews], fun L hL => ⟨L, hL.showing hs ?_ fun _ _ => .refl _,
    fun _ _ => .refl _⟩⟩
  rw [hviews]
  exact hL.lists

theorem Refiled.refl : Refiled s s := .of_views .refl rfl

theorem Refiled.trans (h : Refiled s s') (h' : Refiled s' s'') : Refiled s s'' := by
  refine ⟨h.showing.trans h'.showing, by rw [h'.views, h.views], fun L hL => ?_⟩
  obtain ⟨L', hL', hperm⟩ := h.homed L hL
  obtain ⟨L'', hL'', hperm'⟩ := h'.homed L' hL'
  exact ⟨L'', hL'', fun managed w => (hperm' managed w).trans (hperm managed w)⟩

/-- Focusing what the focused tile shows. -/
theorem focusShown_refiled (hwf : WellFormed False s) (hb : s.Backed) (ht : s.curTile = .ok t) :
    Ensures (s.seatSetFocus (s.disp.tileView t)) (Refiled s) := by
  intro s' hs'
  have hshowing := (focusShown_showing hb ht s' hs').1
  cases hv : s.disp.tileView t with
  | none =>
    rw [hv] at hs'
    obtain ⟨f, s₁, c, e, -, ha, rfl⟩ := seatSetFocus_none_assigned s' hs'
    refine .of_views hshowing ?_
    rw [ha.eq]
  | some v =>
    rw [hv] at hs'
    obtain ⟨w, f, s₁, V₁, V₂, c, e, hw, hf, -, hV₁, hV₂, rfl⟩ :=
      seatSetFocus_managed_assigned (hb.managed t v hv) s' hs'
    obtain rfl : t = f := by
      rw [curTile, hw, ok_bind, hf] at ht
      exact (Except.ok.inj ht).symm
    obtain ⟨hwlive, hlive, hws⟩ := hwf.tiles.focused_mem (by simp) hf
    refine ⟨hshowing, ?_, fun L hL => ?_⟩
    · obtain ⟨_, _, -, -, rfl⟩ := wlListRemove_spec _ hV₁
      obtain ⟨_, -, rfl⟩ := wlListInsert_spec _ hV₂
      rfl
    -- what has got the focus is in the list whose head is moved
    have hmem : v ∈ L true w := by
      rw [← hws]
      exact hL.shown t v ⟨hlive, hv⟩
    obtain ⟨L', hL', hperm⟩ := hL.lists.moveHead hwlive hmem hV₁ hV₂
    exact ⟨L', hL.showing hshowing hL' hperm, hperm⟩

theorem setOutput_refiled (hwf : WellFormed False s) (hb : s.Backed) {o : OutPtr} :
    Ensures (s.setOutput o) (Refiled s) := by
  have hset : Refiled s { s with outs.currOutput := some o } := .of_views ⟨rfl, rfl, rfl⟩ rfl
  refine Ensures.bind_any fun f hf => (focusShown_refiled ?_ (hset.showing.backed hb) hf).mono
    fun _ h => hset.trans h
  exact LayoutInv.setCurrent hwf (some o) s.outs.outCurr

theorem keybindingSwitchWs_refiled (hwf : WellFormed False s) (hb : s.Backed) {ws : ℕ} :
    Ensures (s.keybindingSwitchWs ws) (Refiled s) := by
  refine Ensures.ite (fun _ => Ensures.ok .refl) fun hws => Ensures.bind_any fun o ho => ?_
  refine Ensures.bind workspaceFocus_spec fun s₁ h₁ => ?_
  rcases h₁ with ⟨-, hle⟩ | ⟨rfl, -⟩
  · exact absurd hle hws
  have hset : Refiled s { s with outs.outCurr := Function.update s.outs.outCurr o ws } :=
    .of_views ⟨rfl, rfl, rfl⟩ rfl
  refine Ensures.bind_any fun w hw => Ensures.bind_any fun f hf => ?_
  have hcur : ({ s with outs.outCurr := Function.update s.outs.outCurr o ws } : Server).curTile =
      .ok f := by
    refine curTile_eq_ok.mpr ⟨o, w, nonNull_eq_ok.mp ho, ?_, hf⟩
    show Outputs.wsAt _ o (Function.update s.outs.outCurr o ws o) = .ok w
    rw [Function.update_self]
    exact hw
  refine Ensures.bind (focusShown_refiled ?_ (hset.showing.backed hb) hcur) fun s₂ h₂ =>
    Ensures.ok ?_
  · exact LayoutInv.setCurrent hwf s.outs.currOutput _
  · exact (hset.trans h₂).trans (.of_views ⟨rfl, rfl, rfl⟩ rfl)

/-- **`keybinding_focus_tile`** leaves the views in their tiles and in their lists. -/
theorem keybindingFocusTile_refiled (h : s.Valid) (hb : s.Backed) {id : ℕ} :
    Ensures (s.keybindingFocusTile id) (Refiled s) := by
  refine (keybindingFocusTile_cases h.layout).mono ?_
  rintro s' (⟨-, rfl⟩ | ⟨t, s₁, s₂, s₃, s₄, e, htile, hs₁, hs₂, -, hs₃, hcur, hs₄, rfl⟩)
  · exact .refl
  · obtain ⟨hplaced, -⟩ := tileFromId_placed h.layout _ htile t rfl
    have h₁ : Refiled s s₁ ∧ StaysValid s s₁ := by
      rcases hs₁ with rfl | hs₁
      · exact ⟨.refl, h.stays⟩
      · exact ⟨setOutput_refiled h.layout hb s₁ hs₁,
          (setOutput_gives h hplaced.output).ensures s₁ hs₁⟩
    have hb₁ := h₁.1.showing.backed hb
    have h₂ : Refiled s s₂ ∧ StaysValid s s₂ := by
      rcases hs₂ with rfl | hs₂
      · exact h₁
      · exact ⟨h₁.1.trans (keybindingSwitchWs_refiled h₁.2.valid.layout hb₁ s₂ hs₂),
          h₁.2.trans ((keybindingSwitchWs_gives h₁.2.valid).ensures s₂ hs₂)⟩
    have hwf₃ : WellFormed False s₃ := by
      have hinv := workspaceFocusTile_inv h₂.2.valid.layout
        (fun _ => by rw [h₂.1.showing.tiles]) s₃ hs₃
      obtain ⟨-, rfl⟩ := workspaceFocusTile_spec s₃ hs₃
      exact hinv
    have h₃ : Refiled s s₃ := by
      obtain ⟨-, rfl⟩ := workspaceFocusTile_spec s₃ hs₃
      exact h₂.1.trans (.of_views ⟨rfl, rfl, rfl⟩ rfl)
    have h₄ := focusShown_refiled hwf₃ (h₃.showing.backed hb) hcur s₄ hs₄
    exact (h₃.trans h₄).trans (.of_views ⟨rfl, rfl, rfl⟩ rfl)

/-! ### Out of the tile and the list -/

/-- The pointers that are followed to move a view are in order, and these are the lists. -/
structure InOrder (s : Server) (L : Bool → WsPtr → List ViewPtr) : Prop where
  valid : s.Valid
  views : s.ViewsInv
  agree : s.PointersAgree
  homed : s.Homed L
  usable : ∀ w, s.tiles.wsLive w = true → ∀ u ∈ L true w, s.Usable u

theorem InOrder.backed (h : s.InOrder L) : s.Backed :=
  ⟨h.agree.tile, fun t v hv => (h.views.shown t v hv).managed⟩

/-- The first hidden view from the end of the list on. -/
def nextHidden (s : Server) (l : List ViewPtr) : Option ViewPtr :=
  l.reverse.find? fun u => !s.isShown u

/-- The tile shows nothing. -/
def emptied (s : Server) (t : TilePtr) : Server := { s with disp := s.disp.assign t none }

theorem isShown_congr (hdisp : s'.disp = s.disp) (htiles : s'.tiles = s.tiles) :
    s'.isShown = s.isShown := by
  funext v
  rw [isShown, isShown, hdisp, htiles]

theorem searchable_congr (hdisp : s'.disp = s.disp) (htiles : s'.tiles = s.tiles) :
    s'.Searchable l ↔ s.Searchable l := by
  simp only [Searchable, Anchored, isShown_congr hdisp htiles, hdisp, htiles]

/-- A view comes into a tile, which no other tile shows. -/
theorem Assigned.backed (ha : Assigned s t view s') (h : s.Backed)
    (hview : ∀ v, view = some v → s.views.managed v = true ∧ s.OnlyAt v t) : s'.Backed := by
  have hviews : s'.views = s.views := by rw [ha.eq]
  have hdisp : s'.disp = s.disp.assign t view := by rw [ha.eq]
  constructor
  · intro t' v hv
    rw [hdisp]
    rcases ha.shows_iff.mp hv with ⟨rfl, rfl⟩ | ⟨hne, hold⟩
    · exact Display.assign_viewTile_self
    · -- the tile has shown another view, and gets another one
      have hback := h.tile t' v hold
      rw [Display.assign_viewTile_of_ne, hback]
      · exact fun e => hne ((hview v e).2 t' hold)
      · exact fun e => hne (Option.some.inj (hback.symm.trans (h.tile t v ⟨ha.live, e⟩)))
  · intro t' v hv
    rw [hviews]
    rw [hdisp, Display.assign_tileView] at hv
    by_cases htt : t' = t
    · rw [htt, Function.update_self] at hv
      exact (hview v hv).1
    · rw [Function.update_of_ne htt] at hv
      exact h.managed t' v hv

/-- What is left once a view is in no list and no tile; the tiles show `T`. -/
structure Taken (s : Server) (L : Bool → WsPtr → List ViewPtr) (v : ViewPtr)
    (T : TilePtr → Option ViewPtr) (s' : Server) : Prop where
  valid : s'.Valid
  kept : Kept s s'
  keeps : KeepsLayout s s'
  usable : ∀ u, u ≠ v → s.Usable u → s'.Usable u
  views : s'.views = { s.views with links := s'.views.links }
  backed : s'.Backed
  hidden : ∀ t, ¬ s'.Shows t v
  homed : ∃ L', s'.Homed L' ∧ ∀ managed w, (L' managed w).Perm ((L managed w).filter (· ≠ v))
  tileView : s'.disp.tileView = T

/-- A hidden view is unlinked. -/
theorem unlinkView_taken (h : s.InOrder L) (hw : s.tiles.wsLive w = true) (hv : v ∈ L true w)
    (hhidden : ∀ t, ¬ s.Shows t v) : Gives (s.unlinkView v) fun s' =>
      Taken s L v s.disp.tileView s' ∧ s' = { s with views := s'.views } ∧
        s'.Homed fun managed w => (L managed w).filter (· ≠ v) := by
  have hself := h.usable w hw v hv
  obtain ⟨⟨x, hx⟩, y, hy⟩ := hself.linked
  have hremove : s.views.wlListRemove (.view v) =
      .ok { s.views with links := s.views.links.unlink x (.view v) y } := by
    rw [wlListRemove, hx, hy]
    rfl
  have hs' : s.unlinkView v = .ok { s with views.links := s.views.links.unlink x (.view v) y } := by
    rw [unlinkView, hremove]
    rfl
  set s' : Server := { s with views.links := s.views.links.unlink x (.view v) y } with hdef
  have hkept := unlinkView_kept h.views s' hs'
  have hkeeps := (SameLayout.keeps unlinkView_sameLayout) s' hs'
  have husable : ∀ u, u ≠ v → s.Usable u → s'.Usable u := by
    intro u huv hu
    exact hu.congr rfl rfl rfl (hu.linked.unlink fun e => huv (Node.view.inj e))
  have hne : ∀ t u, s.Shows t u → u ≠ v := by
    rintro t u hu rfl
    exact hhidden t hu
  have hvalid : s'.Valid := by
    refine ⟨hkeeps.wellFormed h.valid.layout, h.valid.current, h.valid.output, h.valid.homes,
      h.valid.cursorAt, fun w' hw' => (h.valid.heads w' hw').unlink (by simp), fun t u hu => ?_,
      h.valid.focused⟩
    exact husable u (hne t u hu) (h.valid.shown t u hu)
  have hhomed : s'.Homed fun managed w => (L managed w).filter (· ≠ v) := by
    refine ⟨h.homed.lists.unlink hw hv hremove, fun t u hu => ?_⟩
    exact List.mem_filter.mpr ⟨h.homed.shown t u hu, decide_eq_true (hne t u hu)⟩
  refine ⟨s', hs', ⟨hvalid, hkept, hkeeps, husable, rfl, ?_, hhidden,
    ⟨_, hhomed, fun _ _ => .refl _⟩,
    rfl⟩, rfl, hhomed⟩
  exact ⟨h.backed.tile, h.backed.managed⟩

/-- A tile that shows nothing goes on to the first hidden view that the search finds. -/
theorem cycleOn_exactly (h : s.InOrder L) (ho : s.tiles.tileLive o = true)
    (hempty : s.disp.tileView o = none) :
    Exactly (s.Searchable (L true (s.tiles.tileWorkspace o)).reverse)
      (s.keybindingCycleViews (some o) 0 false false) fun s' =>
        StaysValid s s' ∧ s'.Backed ∧ Refiled { s with
          disp := s.disp.assign o (s.nextHidden (L true (s.tiles.tileWorkspace o))) } s' := by
  have hw := (h.valid.layout.tiles.tile_ws o ho).1
  have hlist := h.homed.lists true _ hw
  set l := L true (s.tiles.tileWorkspace o) with hl
  have hlisted : ∀ u ∈ l, s.Usable u ∧ s.views.Manages u := fun u hu =>
    ⟨h.usable _ hw u hu, (hlist.alike h.views.lists hu).manages⟩
  -- only the search can be undefined
  have hsearch : Exactly (s.Searchable l.reverse)
      (s.cycleTarget (s.tiles.tileWorkspace o) 0 false) fun found => found = s.nextHidden l := by
    show Exactly _ (s.findView s.views.links.prev (.head true (s.tiles.tileWorkspace o))
      s.isHidden) _
    rw [findView_prev hlist h.views.lists]
    refine findM?_isHidden h.valid.layout h.agree fun u hu => ?_
    obtain ⟨hu, hm⟩ := hlisted u (List.mem_reverse.mp hu)
    exact ⟨hu.live, hm.managed⟩
  rw [keybindingCycleViews]
  show Exactly _ (deref (s.tiles.tileLive o) >>= fun _ => _) _
  rw [deref_eq_ok.mpr ho, ok_bind]
  refine (hsearch.bind (e := True) ?_).congr (and_iff_left trivial).symm
  rintro found rfl
  refine Exactly.of_gives (Gives.ifSome (fun hnone => ?_) fun x hx => ?_)
  · -- an empty tile stays as it is
    have hself : s.disp.assign o none = s.disp := by
      rw [← hempty]
      refine Display.assign_self fun u hu => ?_
      exact nomatch hempty.symm.trans hu
    rw [hnone, hself]
    exact ⟨h.valid.stays, h.backed, .refl⟩
  · have hmem : x ∈ l := List.mem_reverse.mp (List.mem_of_find?_eq_some hx)
    have hhidden : s.isShown x = false := by
      have hfound := List.find?_some hx
      simpa using hfound
    obtain ⟨hxu, hxm⟩ := hlisted x hmem
    rw [hx]
    refine Gives.bind (workspaceTileUpdateView_gives h.valid ho fun u hu =>
      Option.some.inj hu ▸ hxu) ?_
    rintro s₁ ⟨ha, h₁⟩
    have hb₁ : s₁.Backed := by
      refine ha.backed h.backed ?_
      rintro u ⟨⟩
      refine ⟨hxm.managed, fun t ht => ?_⟩
      have := (isShown_iff h.valid.layout).mpr ⟨t, ht⟩
      rw [hhidden] at this
      cases this
    have hre₁ : Refiled { s with disp := s.disp.assign o (some x) } s₁ :=
      .of_views ⟨by rw [ha.eq], by rw [ha.eq], by rw [ha.eq]⟩ (by rw [ha.eq])
    have hshown₁ : s₁.disp.tileView o = some x := by
      rw [ha.eq]
      exact Function.update_self _ _ _
    obtain ⟨-, -, f, -, -, -, hf, -⟩ := h₁.valid.curTile
    rw [hf, ok_bind]
    refine Gives.bind (P := fun s₂ => StaysValid s s₂ ∧ s₂.Backed ∧
      Refiled { s with disp := s.disp.assign o (some x) } s₂) (Gives.ite (fun hof => ?_) fun _ =>
        Gives.ok ⟨h₁, hb₁, hre₁⟩) fun s₂ h₂ => Gives.ok h₂
    subst hof
    rw [← hshown₁]
    refine ((seatSetFocus_gives h₁.valid fun u hu => ?_).and
      (focusShown_refiled h₁.valid.layout hb₁ hf)).mono ?_
    · rw [hshown₁] at hu
      exact h₁.usable u (Option.some.inj hu ▸ hxu)
    · rintro s₂ ⟨h₂, hre₂⟩
      rw [hshown₁]
      exact ⟨h₁.trans h₂, hre₂.showing.backed hb₁, hre₁.trans hre₂⟩

/-- What the tiles show once the view is out of its list and of the tile it points at. -/
def tilesWithout (s : Server) (L : Bool → WsPtr → List ViewPtr) (v : ViewPtr) :
    TilePtr → Option ViewPtr :=
  match s.disp.viewTile v with
  | none => s.disp.tileView
  | some o => Function.update s.disp.tileView o
      ((s.emptied o).nextHidden ((L true (s.tiles.tileWorkspace o)).filter (· ≠ v)))

/-- The tile that the view points at is there, and so is any that a view of its list
points at which is asked once the tile is empty. -/
def Detachable (s : Server) (L : Bool → WsPtr → List ViewPtr) (v : ViewPtr) : Prop :=
  ∀ o, s.disp.viewTile v = some o → s.tiles.tileLive o = true ∧
    (s.emptied o).Searchable ((L true (s.tiles.tileWorkspace o)).filter (· ≠ v)).reverse

/-- The list of an empty tile is searched after the view has been taken out of it. -/
theorem refill_exactly (h : s.InOrder L) (hw : s.tiles.wsLive w = true) (hv : v ∈ L true w)
    (ho : s.tiles.tileLive o = true) (hempty : s.disp.tileView o = none)
    (hhidden : ∀ t, ¬ s.Shows t v) :
    Exactly (s.Searchable ((L true (s.tiles.tileWorkspace o)).filter (· ≠ v)).reverse) (do
      let s ← s.unlinkView v
      let s ← s.keybindingCycleViews (some o) 0 false false
      let f ← s.curTile
      if s.disp.tileView o = none ∧ o = f then s.seatSetFocus none else .ok s)
      (Taken s L v (Function.update s.disp.tileView o
        (s.nextHidden ((L true (s.tiles.tileWorkspace o)).filter (· ≠ v))))) := by
  obtain ⟨s₁, hs₁, ht₁, heq₁, hhomed₁⟩ := unlinkView_taken h hw hv hhidden
  have hdisp₁ : s₁.disp = s.disp := by rw [heq₁]
  have htiles₁ : s₁.tiles = s.tiles := by rw [heq₁]
  have horder₁ : s₁.InOrder fun managed w => (L managed w).filter (· ≠ v) := by
    refine ⟨ht₁.valid, ht₁.kept.inv, .of_tile ht₁.backed.tile, hhomed₁, fun w' hw' u hu => ?_⟩
    rw [htiles₁] at hw'
    obtain ⟨hu, huv⟩ := List.mem_filter.mp hu
    exact ht₁.usable u (of_decide_eq_true huv) (h.usable w' hw' u hu)
  have hcycle := cycleOn_exactly horder₁ (htiles₁ ▸ ho) (by rw [hdisp₁]; exact hempty)
  rw [searchable_congr hdisp₁ htiles₁, htiles₁, hdisp₁] at hcycle
  have hnext : s₁.nextHidden = s.nextHidden := by
    funext l
    rw [nextHidden, nextHidden, isShown_congr hdisp₁ htiles₁]
  rw [hnext] at hcycle
  set l := (L true (s.tiles.tileWorkspace o)).filter (· ≠ v) with hl
  set x := s.nextHidden l with hx
  rw [hs₁, ok_bind]
  refine ((hcycle.and
    ((keybindingCycleViews_kept horder₁.views).and keybindingCycleViews_keeps)).bind
    (e := True) ?_).congr (and_iff_left trivial).symm
  rintro s₂ ⟨⟨h₂, hb₂, hre₂⟩, hk₂, hlay₂⟩
  refine Exactly.of_gives ?_
  obtain ⟨-, -, f, -, -, -, hf, -⟩ := h₂.valid.curTile
  rw [hf, ok_bind]
  -- the focus may be taken from an empty tile
  refine Gives.mono (P := fun s₃ => StaysValid s₂ s₃ ∧ Kept s₂ s₃ ∧ KeepsLayout s₂ s₃ ∧
    Refiled s₂ s₃) (Gives.ite (fun hof => ?_) fun _ => Gives.ok
      ⟨h₂.valid.stays, hk₂.inv.kept, .refl, .refl⟩) ?_
  · obtain ⟨hnone, rfl⟩ := hof
    have hfocus := focusShown_refiled h₂.valid.layout hb₂ hf
    rw [hnone] at hfocus
    have hview : ∀ (P : ViewPtr → Prop) u, (none : Option ViewPtr) = some u → P u := nofun
    exact (seatSetFocus_gives h₂.valid (hview _)).and
      ((seatSetFocus_kept hk₂.inv (hview _)).and (seatSetFocus_keeps.and hfocus))
  · rintro s₃ ⟨h₃, hk₃, hlay₃, hre₃⟩
    have hre := hre₂.trans hre₃
    have hxmem : ∀ u, x = some u → u ∈ l := fun u hu =>
      List.mem_reverse.mp (List.mem_of_find?_eq_some hu)
    refine ⟨h₃.valid, ht₁.kept.trans (hk₂.trans hk₃), ht₁.keeps.trans (hlay₂.trans hlay₃),
      fun u huv hu => h₃.usable u (h₂.usable u (ht₁.usable u huv hu)), ?_,
      hre₃.showing.backed hb₂, fun t ht => ?_, ?_, hre.showing.tileView⟩
    · rw [hre.views, ht₁.views]
    · obtain ⟨hlive, hv'⟩ := hre.showing.shows_iff.mp ht
      replace hv' : Function.update s.disp.tileView o x t = some v := hv'
      by_cases hto : t = o
      · rw [hto, Function.update_self] at hv'
        simpa [hl] using hxmem v hv'
      · rw [Function.update_of_ne hto] at hv'
        exact hhidden t ⟨hlive, hv'⟩
    · refine hre.homed _ ⟨?_, fun t u hu => ?_⟩
      · have hlists := hhomed₁.lists
        rw [htiles₁] at hlists
        exact hlists
      · obtain ⟨hlive, hu⟩ := hu
        replace hu : Function.update s.disp.tileView o x t = some u := hu
        by_cases hto : t = o
        · rw [hto, Function.update_self] at hu
          rw [hto]
          exact hxmem u hu
        · rw [Function.update_of_ne hto] at hu
          have hold : s₁.Shows t u := by
            rw [Shows, htiles₁, hdisp₁]
            exact ⟨hlive, hu⟩
          have hmem := hhomed₁.shown t u hold
          rw [htiles₁] at hmem
          exact hmem

/-- **Taking a view out of the tile it points at** and out of its list. -/
theorem takeView_exactly (h : s.InOrder L) (hw : s.tiles.wsLive w = true) (hv : v ∈ L true w) :
    Exactly (s.Detachable L v) (s.takeView v) (Taken s L v (s.tilesWithout L v)) := by
  unfold takeView Detachable tilesWithout
  cases hold : s.disp.viewTile v with
  | none =>
    refine (Exactly.of_gives ?_).congr (iff_true_intro nofun)
    refine (unlinkView_taken h hw hv fun t ht => ?_).mono fun _ h' => h'.1
    exact nomatch hold.symm.trans (h.agree.tile t v ht)
  | some o =>
    -- the tile that the view points at may be freed
    by_cases ho : s.tiles.tileLive o = true
    · have hnone : ∀ (P : ViewPtr → Prop) u, (none : Option ViewPtr) = some u → P u := nofun
      obtain ⟨s₁, hs₁, ha, h₁⟩ := workspaceTileUpdateView_gives h.valid ho (hnone _)
      have hkept := workspaceTileUpdateView_kept h.views (hnone _) s₁ hs₁
      have hkeeps := workspaceTileUpdateView_keeps s₁ hs₁
      have hdisp : s₁.disp = (s.emptied o).disp := by
        rw [ha.eq]
        rfl
      have hviews : s₁.views = s.views := by rw [ha.eq]
      have hb₁ : s₁.Backed := ha.backed h.backed (hnone _)
      have hshows : ∀ t u, s₁.Shows t u → t ≠ o ∧ s.Shows t u := by
        intro t u hu
        rcases ha.shows_iff.mp hu with ⟨-, hnone⟩ | hold
        · cases hnone
        · exact hold
      have horder : s₁.InOrder L := by
        refine ⟨h₁.valid, hkept.inv, .of_tile hb₁.tile, ⟨?_, fun t u hu => ?_⟩,
          fun w' hw' u hu => ?_⟩
        · rw [hviews, hkeeps.tiles]
          exact h.homed.lists
        · rw [hkeeps.tiles]
          exact h.homed.shown t u (hshows t u hu).2
        · rw [hkeeps.tiles] at hw'
          exact ha.usable (h.usable w' hw' u hu)
      -- a tile that showed the view is the one it points at
      have hhidden : ∀ t, ¬ s₁.Shows t v := by
        intro t ht
        obtain ⟨hne, hold'⟩ := hshows t v ht
        exact hne (Option.some.inj ((h.agree.tile t v hold').symm.trans hold))
      have hempty : s₁.disp.tileView o = none := by
        rw [hdisp]
        exact Function.update_self _ _ _
      have hrefill := refill_exactly horder (hkeeps.tiles ▸ hw) hv
        (hkeeps.tiles ▸ ho) hempty hhidden
      have hemptied : (s.emptied o).tiles = s₁.tiles := hkeeps.tiles.symm
      rw [searchable_congr hdisp hemptied.symm, hkeeps.tiles] at hrefill
      show Exactly _ (s.workspaceTileUpdateView o none >>= fun _ => _) _
      rw [hs₁, ok_bind]
      refine (hrefill.congr ?_).mono fun s₂ h₂ => ?_
      · constructor
        · exact fun hall => (hall o rfl).2
        · rintro hsearch o' ⟨⟩
          exact ⟨ho, hsearch⟩
      · refine ⟨h₂.valid, hkept.trans h₂.kept, hkeeps.trans h₂.keeps,
          fun u huv hu => h₂.usable u huv (h₁.usable u hu), ?_, h₂.backed, h₂.hidden, h₂.homed, ?_⟩
        · rw [h₂.views, hviews]
        · have hnext : s₁.nextHidden = (s.emptied o).nextHidden := by
            funext l
            rw [nextHidden, nextHidden, isShown_congr hdisp hemptied.symm]
          rw [h₂.tileView, hnext, hdisp]
          exact Function.update_idem _ _ _
    · refine .inr ⟨fun hall => ho (hall o rfl).1, ?_⟩
      show s.workspaceTileUpdateView o none >>= (fun _ => _) = _
      rw [workspaceTileUpdateView, Bool.eq_false_iff.mpr ho]
      rfl

/-! ### Into the other tile -/

/-- The tile shows the view, which is in the list of its workspace; `T` is what the
tiles have shown. -/
structure Put (s : Server) (t : TilePtr) (v : ViewPtr) (T : TilePtr → Option ViewPtr)
    (s' : Server) : Prop where
  valid : s'.Valid
  backed : s'.Backed
  keeps : KeepsLayout s s'
  workspace : s'.views.viewWorkspace v = some (s.tiles.tileWorkspace t)
  homed : ∃ L, s'.Homed L ∧ v ∈ L true (s.tiles.tileWorkspace t)
  tileView : s'.disp.tileView = Function.update T t (some v)

/-- The view in the tile and at the front of the list of its workspace, before `y`. -/
def putIn (s : Server) (v : ViewPtr) (t : TilePtr) (y : Node) : Server :=
  { s with
    views := { s.views with
      viewWorkspace := Function.update s.views.viewWorkspace v (some (s.tiles.tileWorkspace t))
      links := s.views.links.insert (.head true (s.tiles.tileWorkspace t)) (.view v) y }
    disp := { s.disp with
      viewTile := Function.update s.disp.viewTile v (some t)
      tileView := Function.update s.disp.tileView t (some v) } }

theorem putView_eq {y : Node} (ht : s.tiles.tileLive t = true)
    (hy : s.views.links.next (.head true (s.tiles.tileWorkspace t)) = some y) :
    s.putView v t = (do
      let f ← s.curTile
      if t = f then (s.putIn v t y).seatSetFocus (some v) else .ok (s.putIn v t y)) := by
  have hlink : (s.setViewWorkspace v (s.tiles.tileWorkspace t)).linkView true
      (s.tiles.tileWorkspace t) v = .ok { s.setViewWorkspace v (s.tiles.tileWorkspace t) with
        views.links :=
          s.views.links.insert (.head true (s.tiles.tileWorkspace t)) (.view v) y } := by
    rw [linkView, wlListInsert]
    show ((nonNull (s.views.links.next (.head true (s.tiles.tileWorkspace t))) >>= fun _ => _) >>=
      fun _ => _) = _
    rw [hy]
    rfl
  rw [putView, ht]
  show ((s.setViewWorkspace v (s.tiles.tileWorkspace t)).linkView true _ v >>= fun _ => _) = _
  rw [hlink]
  rfl

theorem keepsLayout_putIn {y : Node} : KeepsLayout s (s.putIn v t y) :=
  keepsLayout_of_eq rfl rfl rfl

namespace Taken

variable {T : TilePtr → Option ViewPtr} {s₀ : Server} {y : Node}

theorem shows_putIn (h : Taken s₀ L v T s) {t' : TilePtr} (hu : (s.putIn v t y).Shows t' u) :
    t' = t ∧ u = v ∨ t' ≠ t ∧ u ≠ v ∧ s.Shows t' u := by
  obtain ⟨hlive, hu⟩ := hu
  replace hu : Function.update s.disp.tileView t (some v) t' = some u := hu
  by_cases htt : t' = t
  · rw [htt, Function.update_self] at hu
    exact .inl ⟨htt, (Option.some.inj hu).symm⟩
  · rw [Function.update_of_ne htt] at hu
    refine .inr ⟨htt, ?_, hlive, hu⟩
    rintro rfl
    exact h.hidden t' ⟨hlive, hu⟩

theorem usable_putIn (hlive : s.views.viewLive v = true)
    (hw : s.tiles.wsLive (s.tiles.tileWorkspace t) = true) : (s.putIn v t y).Usable v :=
  ⟨hlive, ⟨_, Function.update_self _ _ _, hw⟩, DLinks.chained_insert⟩

theorem valid_putIn (h : Taken s₀ L v T s) (hv : (s.putIn v t y).Usable v) :
    (s.putIn v t y).Valid := by
  refine ⟨keepsLayout_putIn.wellFormed h.valid.layout, h.valid.current, h.valid.output,
    h.valid.homes, h.valid.cursorAt, fun w hw => (h.valid.heads w hw).insert, fun t' u hu => ?_,
    h.valid.focused⟩
  rcases h.shows_putIn hu with ⟨-, rfl⟩ | ⟨-, huv, hold⟩
  · exact hv
  · obtain ⟨hlive, ⟨w, hw, hwlive⟩, hlinked⟩ := h.valid.shown t' u hold
    exact ⟨hlive, ⟨w, (Function.update_of_ne huv _ _).trans hw, hwlive⟩, hlinked.insert⟩

theorem backed_putIn (h : Taken s₀ L v T s) (hv : s.views.managed v = true) :
    (s.putIn v t y).Backed := by
  constructor
  · intro t' u hu
    rcases h.shows_putIn hu with ⟨rfl, rfl⟩ | ⟨-, huv, hold⟩
    · exact Function.update_self _ _ _
    · exact (Function.update_of_ne huv _ _).trans (h.backed.tile t' u hold)
  · intro t' u hu
    replace hu : Function.update s.disp.tileView t (some v) t' = some u := hu
    by_cases htt : t' = t
    · rw [htt, Function.update_self] at hu
      obtain rfl := Option.some.inj hu
      exact hv
    · rw [Function.update_of_ne htt] at hu
      exact h.backed.managed t' u hu

/-- The view is in the list of the workspace of the tile, and in no other one. -/
theorem homed_putIn (h : Taken s₀ L v T s)
    (hw : s.tiles.wsLive (s.tiles.tileWorkspace t) = true)
    (hy : s.views.links.next (.head true (s.tiles.tileWorkspace t)) = some y) :
    ∃ L, (s.putIn v t y).Homed L ∧ v ∈ L true (s.tiles.tileWorkspace t) := by
  obtain ⟨L', hL', hperm⟩ := h.homed
  have hfree : ∀ managed w, s.tiles.wsLive w = true → v ∉ L' managed w := by
    intro managed w hlive hmem
    simpa using (hperm managed w).mem_iff.mp hmem
  have hinsert : s.views.wlListInsert (.head true (s.tiles.tileWorkspace t)) (.view v) = .ok
      { s.views with
        links := s.views.links.insert (.head true (s.tiles.tileWorkspace t)) (.view v) y } := by
    rw [wlListInsert, hy]
    rfl
  have hlists := hL'.lists.link hw hfree hinsert
  refine ⟨_, ⟨hlists, fun t' u hu => ?_⟩, ?_⟩
  · show u ∈ if true = true ∧ s.tiles.tileWorkspace t' = s.tiles.tileWorkspace t
      then v :: L' true (s.tiles.tileWorkspace t) else L' true (s.tiles.tileWorkspace t')
    rcases h.shows_putIn hu with ⟨rfl, rfl⟩ | ⟨-, -, hold⟩
    · rw [if_pos ⟨rfl, rfl⟩]
      exact List.mem_cons_self
    · have hmem := hL'.shown t' u hold
      split
      · next hsame => exact List.mem_cons_of_mem _ (hsame.2 ▸ hmem)
      · exact hmem
  · show v ∈ if true = true ∧ s.tiles.tileWorkspace t = s.tiles.tileWorkspace t
      then v :: L' true (s.tiles.tileWorkspace t) else _
    rw [if_pos ⟨rfl, rfl⟩]
    exact List.mem_cons_self

end Taken

/-- **Putting a view into a tile** that is in no list and no tile. -/
theorem putView_gives {T : TilePtr → Option ViewPtr} {s₀ : Server} (h : Taken s₀ L v T s)
    (ht : s.tiles.tileLive t = true) (hv : s.views.managed v = true)
    (hlive : s.views.viewLive v = true) : Gives (s.putView v t) (Put s t v T) := by
  have hw := (h.valid.layout.tiles.tile_ws t ht).1
  obtain ⟨y, hy⟩ := (h.valid.heads _ hw).next
  have husable : (s.putIn v t y).Usable v := Taken.usable_putIn hlive hw
  have hvalid := h.valid_putIn husable
  have hbacked : (s.putIn v t y).Backed := h.backed_putIn hv
  have hput : ∀ s', Refiled (s.putIn v t y) s' → s'.Valid → KeepsLayout (s.putIn v t y) s' →
      Put s t v T s' := by
    intro s' hre hvalid' hkeeps
    refine ⟨hvalid', hre.showing.backed hbacked, keepsLayout_putIn.trans hkeeps, ?_, ?_, ?_⟩
    · rw [hre.views]
      exact Function.update_self _ _ _
    · obtain ⟨L₁, hL₁, hmem⟩ := h.homed_putIn hw hy
      obtain ⟨L₂, hL₂, hperm⟩ := hre.homed L₁ hL₁
      exact ⟨L₂, hL₂, (hperm _ _).mem_iff.mpr hmem⟩
    · rw [hre.showing.tileView, ← h.tileView]
      rfl
  obtain ⟨-, -, f, -, -, -, hf, -⟩ := h.valid.curTile
  rw [putView_eq ht hy, hf, ok_bind]
  refine Gives.ite (fun htf => ?_) fun _ => Gives.ok (hput _ .refl hvalid .refl)
  subst htf
  have hshown : (s.putIn v t y).disp.tileView t = some v := Function.update_self _ _ _
  have hcur : (s.putIn v t y).curTile = .ok t := hf
  have hfocus := focusShown_refiled hvalid.layout hbacked hcur
  rw [hshown] at hfocus
  refine ((seatSetFocus_gives hvalid ?_).and (hfocus.and seatSetFocus_keeps)).mono
    fun s' h' => hput s' h'.2.1 h'.1.valid h'.2.2
  rintro u ⟨⟩
  exact husable

/-! ### The command -/

/-- The ids are those of `v`, which is in the list of the workspace `w`, and of `t`, which
does not show it. -/
structure Moving (s : Server) (L : Bool → WsPtr → List ViewPtr) (viewId tileId : ℕ) (v : ViewPtr)
    (w : WsPtr) (t : TilePtr) : Prop extends s.InOrder L where
  view : s.viewFromId viewId = .ok (some v)
  tile : s.tileFromId tileId = .ok (some t)
  home : s.tiles.wsLive w = true
  listed : v ∈ L true w
  elsewhere : ¬ s.Shows t v

/-- The view is where it has been moved to; `T` is what the tiles show. -/
structure Arrived (s : Server) (v : ViewPtr) (t : TilePtr) (T : TilePtr → Option ViewPtr)
    (s' : Server) : Prop where
  shown : s'.Shows t v
  workspace : s'.views.viewWorkspace v = some (s.tiles.tileWorkspace t)
  listed : ∃ l, s'.views.ListIs true (s.tiles.tileWorkspace t) l ∧ v ∈ l
  tileView : s'.disp.tileView = T

/-- At last the tile gets the focus, or shows the view once more. -/
theorem Put.finish {T : TilePtr → Option ViewPtr} (h : Put s t v T s')
    (ht : s.tiles.tileLive t = true) :
    Gives (if follow then s'.keybindingFocusTile (s'.tiles.tileId t)
      else ifSome (s'.disp.tileView t) s' fun u => s'.workspaceTileUpdateView t (some u)) fun s'' =>
        s''.Valid ∧ s''.tiles.tileLive = s.tiles.tileLive ∧
          Arrived s v t (Function.update T t (some v)) s'' := by
  have hwlive := (h.valid.layout.tiles.tile_ws t (h.keeps.tiles ▸ ht)).1
  rw [h.keeps.tiles] at hwlive
  have hshown : s'.Shows t v := by
    constructor
    · rw [h.keeps.tiles]
      exact ht
    · rw [h.tileView]
      exact Function.update_self _ _ _
  have harrived : ∀ s'', Refiled s' s'' → s''.Valid → s''.Valid ∧
      s''.tiles.tileLive = s.tiles.tileLive ∧ Arrived s v t (Function.update T t (some v)) s'' := by
    intro s'' hre hvalid
    have htiles : s''.tiles.tileLive = s.tiles.tileLive ∧ s''.tiles.wsLive = s.tiles.wsLive := by
      rw [hre.showing.tiles, h.keeps.tiles]
      exact ⟨rfl, rfl⟩
    refine ⟨hvalid, htiles.1, hre.showing.shows_iff.mpr hshown, ?_, ?_, ?_⟩
    · rw [hre.views]
      exact h.workspace
    · obtain ⟨L, hL, hmem⟩ := h.homed
      obtain ⟨L', hL', hperm⟩ := hre.homed L hL
      refine ⟨_, hL'.lists true _ ?_, (hperm _ _).mem_iff.mpr hmem⟩
      rw [htiles.2]
      exact hwlive
    · rw [hre.showing.tileView, h.tileView]
  refine Gives.ite (fun _ => ?_) fun _ => ?_
  · exact ((keybindingFocusTile_gives h.valid).and
      (keybindingFocusTile_refiled h.valid h.backed)).mono
      fun s'' h'' => harrived s'' h''.2 h''.1.valid
  · refine Gives.ifSome (fun hnone => ?_) fun u hu => ?_
    · exact nomatch hnone.symm.trans hshown.2
    · obtain rfl := Option.some.inj (hshown.2.symm.trans hu)
      refine (workspaceTileUpdateView_gives h.valid hshown.1 ?_).mono ?_
      · rintro u ⟨⟩
        exact h.valid.shown t _ hshown
      · rintro s'' ⟨ha, h''⟩
        refine harrived s'' (.of_views ⟨?_, ?_, ?_⟩ ?_) h''.valid
        · -- the tile shows the view already
          have hself := Display.assign_self fun u hu => h.backed.tile t u ⟨hshown.1, hu⟩
          rw [hshown.2] at hself
          rw [ha.eq, hself]
        · rw [ha.eq]
        · rw [ha.eq]
        · rw [ha.eq]

/-- **`keybinding_move_view_to_tile`** returns if the view can be taken out of the tile it
points at. -/
theorem Moving.moveView (h : s.Moving L viewId tileId v w t) :
    Exactly (s.Detachable L v) (s.keybindingMoveViewToTile viewId tileId follow)
      (Arrived s v t (Function.update (s.tilesWithout L v) t (some v))) := by
  obtain ⟨hplaced, -⟩ := tileFromId_placed h.valid.layout _ h.tile t rfl
  have hself := h.usable w h.home v h.listed
  obtain ⟨w', hw', -, hlive'⟩ := hself.workspaceOf
  have hman := ((h.homed.lists true w h.home).alike h.views.lists h.listed).manages
  rw [keybindingMoveViewToTile, h.view, ok_bind, h.tile, ok_bind]
  show Exactly _ (((s.views.workspaceOf v >>= fun _ => _) : Exec (String × ℤ)) >>= fun _ => _) _
  rw [hw', ok_bind, hlive', h.valid.homes w' hlive']
  show Exactly _ ((s.takeView v >>= fun s => s.putView v t) >>= fun _ => _) _
  by_cases hc : s.Detachable L v
  · refine .inl ⟨hc, ?_⟩
    obtain ⟨s₁, hs₁, h₁⟩ := (takeView_exactly h.toInOrder h.home h.listed).gives hc
    have htiles₁ := h₁.keeps.tiles
    rw [hs₁, ok_bind]
    refine Gives.bind (putView_gives h₁ ?_ ?_ ?_) fun s₂ h₂ => ?_
    · rw [htiles₁]
      exact hplaced.live
    · rw [h₁.views]
      exact hman.managed
    · rw [h₁.views]
      exact hself.live
    refine Gives.bind (h₂.finish (htiles₁ ▸ hplaced.live)) ?_
    rintro s₃ ⟨hvalid₃, hlive₃, harrived⟩
    obtain ⟨oc, hoc⟩ := hvalid₃.output
    rw [Outputs.curOut, nonNull_eq_ok.mpr hoc, ok_bind]
    refine Gives.bind (P := fun _ => True) (Gives.ifSome (fun _ => trivial) fun o ho => ?_)
      fun _ _ => Gives.ok ?_
    · refine Gives.deref ?_ (Gives.ok trivial)
      rw [hlive₃, htiles₁]
      exact (hc o ho).1
    · obtain ⟨hshown, hws, hlist, htile⟩ := harrived
      rw [htiles₁] at hws hlist
      exact ⟨hshown, hws, hlist, htile⟩
  · refine .inr ⟨hc, ?_⟩
    have herror := (takeView_exactly h.toInOrder h.home h.listed).resolve_left fun h' => hc h'.1
    rw [herror.2]
    rfl

/-! ### Tiles that are not to change -/

/-- Every hidden view of the list comes before the one that the tile shows. -/
def ShowsLast (s : Server) (o : TilePtr) (l : List ViewPtr) : Prop :=
  ∀ p u q, l = p ++ u :: q → s.isShown u = false → ∃ x ∈ q, s.disp.tileView o = some x

theorem isShown_emptied (hp : s.PointersAgree) (ho : s.tiles.tileLive o = true) :
    (s.emptied o).isShown u = (s.isShown u && decide (s.disp.tileView o ≠ some u)) := by
  rw [Bool.eq_iff_iff]
  simp only [isShown, List.any_eq_true, List.mem_range, Bool.and_eq_true, beq_iff_eq,
    decide_eq_true_eq]
  have htile : ∀ t, (s.emptied o).disp.tileView t = Function.update s.disp.tileView o none t :=
    fun _ => rfl
  constructor
  · rintro ⟨t, hlt, hlive, hu⟩
    rw [htile] at hu
    by_cases hto : t = o
    · rw [hto, Function.update_self] at hu
      cases hu
    · rw [Function.update_of_ne hto] at hu
      exact ⟨⟨t, hlt, hlive, hu⟩, fun e => hto (hp.once t o u ⟨hlive, hu⟩ ⟨ho, e⟩)⟩
  · rintro ⟨⟨t, hlt, hlive, hu⟩, hne⟩
    refine ⟨t, hlt, hlive, ?_⟩
    rw [htile, Function.update_of_ne, hu]
    rintro rfl
    exact hne hu

/-- A view that leaves the list is not gone on to anyway. -/
theorem nextHidden_emptied (hp : s.PointersAgree) (ho : s.Shows o v) (hv : v ∉ l) :
    (s.emptied o).nextHidden l = s.nextHidden l := by
  refine List.find?_congr fun u hu => ?_
  have huv : some v ≠ some u := fun e => hv (Option.some.inj e ▸ List.mem_reverse.mp hu)
  rw [isShown_emptied hp ho.1, ho.2, decide_eq_true huv, Bool.and_true]

/-- **An emptied tile goes on to what it has shown** exactly if no hidden view comes after
that one. -/
theorem nextHidden_emptied_eq_iff (hwf : WellFormed False s) (hp : s.PointersAgree)
    (ho : s.tiles.tileLive o = true) (hl : l.Nodup)
    (hmem : ∀ x, s.disp.tileView o = some x → x ∈ l) :
    (s.emptied o).nextHidden l = s.disp.tileView o ↔ s.ShowsLast o l := by
  rw [nextHidden]
  simp only [isShown_emptied hp ho]
  cases hx : s.disp.tileView o with
  | none =>
    rw [List.find?_eq_none]
    constructor
    · rintro hall p u q rfl hu
      simpa [hu] using hall u (by simp)
    · intro hlast u hu
      obtain ⟨p, q, hpq⟩ := List.append_of_mem (List.mem_reverse.mp hu)
      have hshown : s.isShown u ≠ false := by
        intro hn
        obtain ⟨x, -, he⟩ := hlast p u q hpq hn
        exact nomatch hx.symm.trans he
      simpa using hshown
  | some x =>
    have hxs : s.isShown x = true := (isShown_iff hwf).mpr ⟨o, ho, hx⟩
    obtain ⟨a, b, rfl⟩ := List.append_of_mem (hmem x hx)
    have hxb : x ∉ b := (List.nodup_cons.mp (List.nodup_append.mp hl).2.1).1
    -- on both sides the views behind the one in the tile are displayed
    have hfind : (a ++ x :: b).reverse.find? (fun u => !(s.isShown u && decide (some x ≠ some u))) =
        some x ↔ ∀ y ∈ b, s.isShown y = true := by
      rw [List.reverse_append, List.reverse_cons, List.append_assoc, List.find?_append,
        List.singleton_append, List.find?_cons_of_pos (by simp)]
      constructor
      · intro hsome y hy
        cases hb : b.reverse.find? fun u => !(s.isShown u && decide (some x ≠ some u)) with
        | some z =>
          rw [hb] at hsome
          obtain rfl := Option.some.inj hsome
          exact absurd (List.mem_reverse.mp (List.mem_of_find?_eq_some hb)) hxb
        | none =>
          have hall := List.find?_eq_none.mp hb y (List.mem_reverse.mpr hy)
          simp only [Bool.not_eq_true', Bool.not_eq_false, Bool.and_eq_true] at hall
          exact hall.1
      · intro hall
        rw [List.find?_eq_none.mpr]
        · rfl
        · intro y hy
          have hy' := List.mem_reverse.mp hy
          have hxy : some x ≠ some y := fun e => hxb (Option.some.inj e ▸ hy')
          simp [hall y hy', hxy]
    rw [hfind]
    constructor
    · intro hall p u q hpq hu
      refine ⟨x, ?_, hx⟩
      have hmem' : x ∈ p ++ u :: q := hpq ▸ List.mem_append_right a List.mem_cons_self
      rcases List.mem_append.mp hmem' with hp' | hq
      · -- else the hidden view would come after it
        obtain ⟨p₁, p₂, rfl⟩ := List.append_of_mem hp'
        rw [List.append_assoc, List.cons_append] at hpq
        have hxa : x ∉ a := fun hmem =>
          (List.nodup_append.mp hl).2.2 x hmem x List.mem_cons_self rfl
        obtain ⟨-, -, rfl⟩ := (List.append_cons_inj_of_notMem hxa hxb).mp hpq
        exact nomatch (hall u (by simp)).symm.trans hu
      · rcases List.mem_cons.mp hq with rfl | hq
        · exact nomatch hxs.symm.trans hu
        · exact hq
    · intro hlast y hy
      by_contra hn
      obtain ⟨b₁, b₂, rfl⟩ := List.append_of_mem hy
      obtain ⟨x', hx', he⟩ := hlast (a ++ x :: b₁) y b₂ (by simp) (by simpa using hn)
      obtain rfl := Option.some.inj (hx.symm.trans he)
      exact hxb (by simp [hx'])

/-- What is to be seen of a view that has been moved. -/
structure MovedTo (s : Server) (L : Bool → WsPtr → List ViewPtr) (v : ViewPtr) (t : TilePtr)
    (s' : Server) : Prop where
  shown : s'.Shows t v
  workspace : s'.views.viewWorkspace v = some (s.tiles.tileWorkspace t)
  listed : ∃ l, s'.views.ListIs true (s.tiles.tileWorkspace t) l ∧ v ∈ l
  left : ∀ o, s.Shows o v → s'.disp.tileView o =
    s.nextHidden ((L true (s.tiles.tileWorkspace o)).filter (· ≠ v))
  frame : ∀ o, o ≠ t → ¬ s.Shows o v → s'.disp.tileView o = s.disp.tileView o

/-- If the view points at another tile that does not show it, no hidden view of the list
of this tile comes after the one that it shows. -/
def SparesOthers (s : Server) (L : Bool → WsPtr → List ViewPtr) (v : ViewPtr) (t : TilePtr) :
    Prop :=
  ∀ o, s.disp.viewTile v = some o → o ≠ t → ¬ s.Shows o v →
    s.ShowsLast o ((L true (s.tiles.tileWorkspace o)).filter (· ≠ v))

theorem Moving.arrived_iff (h : s.Moving L viewId tileId v w t) (hc : s.Detachable L v)
    (ha : Arrived s v t (Function.update (s.tilesWithout L v) t (some v)) s') :
    MovedTo s L v t s' ↔ s.SparesOthers L v t := by
  have htile : ∀ o, o ≠ t → s'.disp.tileView o = s.tilesWithout L v o := by
    intro o hot
    rw [ha.tileView, Function.update_of_ne hot]
  -- only the tile the view points at may show another view
  have hpoint : ∀ o, s.disp.viewTile v = some o → s.tilesWithout L v o =
      (s.emptied o).nextHidden ((L true (s.tiles.tileWorkspace o)).filter (· ≠ v)) := by
    intro o ho
    rw [tilesWithout, ho]
    exact Function.update_self _ _ _
  have hother : ∀ o, s.disp.viewTile v ≠ some o → s.tilesWithout L v o = s.disp.tileView o := by
    intro o ho
    rw [tilesWithout]
    cases ho' : s.disp.viewTile v with
    | none => rfl
    | some o' =>
      refine Function.update_of_ne ?_ _ _
      rintro rfl
      exact ho ho'
  have hkeep : ∀ o, s.disp.viewTile v = some o → ¬ s.Shows o v →
      ((s.emptied o).nextHidden ((L true (s.tiles.tileWorkspace o)).filter (· ≠ v)) =
        s.disp.tileView o ↔ s.ShowsLast o ((L true (s.tiles.tileWorkspace o)).filter (· ≠ v))) := by
    intro o ho hnot
    have hlive := (hc o ho).1
    have hlist := h.homed.lists true _ (h.valid.layout.tiles.tile_ws o hlive).1
    refine nextHidden_emptied_eq_iff h.valid.layout h.agree hlive (hlist.nodup.filter _)
      fun x hx => ?_
    refine List.mem_filter.mpr ⟨h.homed.shown o x ⟨hlive, hx⟩, decide_eq_true ?_⟩
    rintro rfl
    exact hnot ⟨hlive, hx⟩
  constructor
  · intro hm o ho hot hnot
    rw [← hkeep o ho hnot, ← hpoint o ho, ← htile o hot]
    exact hm.frame o hot hnot
  · intro hspare
    refine ⟨ha.shown, ha.workspace, ha.listed, fun o ho => ?_, fun o hot hnot => ?_⟩
    · have hot : o ≠ t := by
        rintro rfl
        exact h.elsewhere ho
      rw [htile o hot, hpoint o (h.agree.tile o v ho), nextHidden_emptied h.agree ho (by simp)]
    · rw [htile o hot]
      by_cases ho : s.disp.viewTile v = some o
      · rw [hpoint o ho, hkeep o ho hnot]
        exact hspare o ho hot hnot
      · exact hother o ho

/-! ### Looking at a state -/

/-- `InOrder`, decided for a state that is reached. -/
def isInOrder (s : Server) (L : Bool → WsPtr → List ViewPtr) : Bool :=
  s.isValid && s.pointBack &&
    (List.range s.tiles.wsTop).all (fun w => !s.tiles.wsLive w ||
      decide (s.views.ListIs true w (L true w)) && decide (s.views.ListIs false w (L false w)) &&
        (L true w).all s.isUsable) &&
    (List.range s.tiles.tileTop).all fun t => !s.tiles.tileLive t ||
      (s.disp.tileView t).all (· ∈ L true (s.tiles.tileWorkspace t))

/-- The ids are found, and the view is in the list of its workspace. -/
def isMoving (s : Server) (L : Bool → WsPtr → List ViewPtr) (viewId tileId : ℕ) (v : ViewPtr)
    (w : WsPtr) (t : TilePtr) : Bool :=
  s.isInOrder L && decide (s.viewFromId viewId = .ok (some v)) &&
    decide (s.tileFromId tileId = .ok (some t)) && s.tiles.wsLive w && decide (v ∈ L true w) &&
    decide (s.disp.tileView t ≠ some v)

theorem inOrder_of_isInOrder (h : Reachable s) (hs : s.isInOrder L = true) : s.InOrder L := by
  simp only [isInOrder, Bool.and_eq_true, Bool.or_eq_true, Bool.not_eq_true', List.all_eq_true,
    List.mem_range, Option.all_eq_true, decide_eq_true_eq] at hs
  obtain ⟨⟨⟨hvalid, hpoint⟩, hlists⟩, hshown⟩ := hs
  have hlive : ∀ w, s.tiles.wsLive w = true → _ := fun w hw =>
    (hlists w (h.wellFormed.tiles.ws_lt w hw)).resolve_left (by simp [hw])
  refine ⟨h.wellFormed.valid hvalid, h.viewsInv, h.wellFormed.pointersAgree hpoint,
    ⟨fun managed w hw => ?_, fun t v ht => ?_⟩,
    fun w hw u hu => usable_of_isUsable ((hlive w hw).2 u hu)⟩
  · cases managed with
    | true => exact (hlive w hw).1.1
    | false => exact (hlive w hw).1.2
  · refine (hshown t (h.wellFormed.tiles.tile_lt t ht.1)).resolve_left ?_ v ht.2
    simp [ht.1]

theorem moving_of_isMoving (h : Reachable s) (hs : s.isMoving L viewId tileId v w t = true) :
    s.Moving L viewId tileId v w t := by
  simp only [isMoving, Bool.and_eq_true, decide_eq_true_eq] at hs
  obtain ⟨⟨⟨⟨⟨horder, hview⟩, htile⟩, hw⟩, hv⟩, hne⟩ := hs
  exact ⟨inOrder_of_isInOrder h horder, hview, htile, hw, hv, fun ht => hne ht.2⟩

/-- Only the first workspace has views. -/
def firstList (l : List ViewPtr) : Bool → WsPtr → List ViewPtr
  | true, 0 => l
  | _, _ => []

end Server

open Server

variable {s : Server} {L : Bool → WsPtr → List ViewPtr} {viewId tileId : ℕ} {v : ViewPtr}
  {w : WsPtr}
  {t : TilePtr} {follow : Bool}

/-- **Moving a view to a tile** returns with the view there, its old tile going on to the
next hidden view and all others as they were, exactly if no view that is asked points at
a freed tile, and none but the one in the tile is taken out of a tile it only points at. -/
theorem moveView_iff (h : s.Moving L viewId tileId v w t) :
    (∃ s', s.keybindingMoveViewToTile viewId tileId follow = .ok s' ∧ MovedTo s L v t s') ↔
      s.Detachable L v ∧ s.SparesOthers L v t := by
  have hmove : Exactly _ (s.keybindingMoveViewToTile viewId tileId follow) _ := h.moveView
  rcases hmove with ⟨hc, s', hs', ha⟩ | ⟨hc, herror⟩
  · rw [and_iff_right hc, ← h.arrived_iff hc ha]
    constructor
    · rintro ⟨s'', hs'', hm⟩
      obtain rfl := Except.ok.inj (hs'.symm.trans hs'')
      exact hm
    · exact fun hm => ⟨s', hs', hm⟩
  · refine iff_of_false ?_ fun h' => hc h'.1
    rintro ⟨s', hs', -⟩
    exact nomatch herror.symm.trans hs'

/-- A view goes over to the tile beside it, which shows the other view. -/
theorem moveView_iff_split : ∃ s : Server, s.Moving (firstList [0, 1]) 2 2 1 0 1 ∧
    ∃ s', s.keybindingMoveViewToTile 2 2 false = .ok s' ∧ MovedTo s (firstList [0, 1]) 1 1 s' := by
  obtain ⟨s, hs, htest⟩ := exists_of_returns (p := fun s : Server =>
      s.isMoving (firstList [0, 1]) 2 2 1 0 1 && decide (s.disp.viewTile 1 = some 0) &&
        decide (s.disp.tileView 0 = some 1) && s.tiles.tileLive 0 &&
        decide (s.tiles.tileWorkspace 0 = 0) && decide (s.disp.viewTile 0 = some 1) &&
        s.tiles.tileLive 1)
    (m := run step Server.init
      [.outputNew "HDMI-A-1" ⟨0, 0, 8, 6, by decide, by decide⟩ none,
        .viewNew ⟨false, false, false, 0⟩, .viewNew ⟨false, false, false, 0⟩, .viewMap 0 0 0,
        .viewMap 1 0 0, .command (.splitVertical half)]) (by decide +kernel)
  simp only [Bool.and_eq_true, decide_eq_true_eq] at htest
  obtain ⟨⟨⟨⟨⟨⟨hmoving, h1⟩, h1'⟩, hlive0⟩, hws⟩, h0⟩, hlive1⟩ := htest
  have h := moving_of_isMoving (Steps.of_run hs fun _ _ _ => trivial) hmoving
  refine ⟨s, h, (moveView_iff h).mpr ⟨fun o ho => ?_, fun o ho _ hnot => ?_⟩⟩
  · obtain rfl := Option.some.inj (h1.symm.trans ho)
    refine ⟨hlive0, ?_⟩
    rw [hws]
    refine searchable_cons.mpr ⟨fun t ht => ?_, fun _ => searchable_nil⟩
    -- the other view is not the one that has been in the tile
    have hback : (s.emptied 0).disp.viewTile 0 = some 1 := by
      have hne : (none : Option ViewPtr) ≠ some 0 := nofun
      refine (Display.assign_viewTile_of_ne hne ?_).trans h0
      rw [h1']
      decide
    obtain rfl := Option.some.inj (hback.symm.trans ht)
    exact hlive1
  · obtain rfl := Option.some.inj (h1.symm.trans ho)
    exact absurd ⟨hlive0, h1'⟩ hnot

/-- A view that has come into a tile does not make the one that has been there forget it:
that one is moved elsewhere, and the tile goes on to a third view. -/
theorem moveView_disturbs : ¬ ∀ (s : Server) L viewId tileId v w t follow, Reachable s →
    s.Moving L viewId tileId v w t →
    ∃ s', s.keybindingMoveViewToTile viewId tileId follow = .ok s' ∧ MovedTo s L v t s' := by
  intro hall
  obtain ⟨s, hs, htest⟩ := exists_of_returns (p := fun s : Server =>
      s.isMoving (firstList [0, 1, 2, 3]) 3 1 2 0 0 && decide (s.disp.tileView 1 = some 0) &&
        returns (s.keybindingMoveViewToTile 3 1 false) fun s' =>
          decide (s'.disp.tileView 1 = some 1))
    (m := run step Server.init
      [.outputNew "HDMI-A-1" ⟨0, 0, 8, 6, by decide, by decide⟩ none,
        .viewNew ⟨false, false, false, 0⟩, .viewNew ⟨false, false, false, 0⟩,
        .viewNew ⟨false, false, false, 0⟩, .viewNew ⟨false, false, false, 0⟩, .viewMap 0 0 0,
        .viewMap 1 0 0, .viewMap 2 0 0, .viewMap 3 0 0, .command (.splitVertical half),
        .command (.moveViewToTile 1 2 false)]) (by decide +kernel)
  simp only [Bool.and_eq_true, decide_eq_true_eq] at htest
  obtain ⟨⟨hmoving, h1⟩, hreturns⟩ := htest
  have hr : Reachable s := Steps.of_run hs fun _ _ _ => trivial
  obtain ⟨s', hs', hm⟩ := hall s _ 3 1 2 0 0 false hr (moving_of_isMoving hr hmoving)
  obtain ⟨s'', hs'', h1'⟩ := exists_of_returns hreturns
  obtain rfl := Except.ok.inj (hs'.symm.trans hs'')
  have hnot : ¬ s.Shows 1 2 := by
    rintro ⟨-, h⟩
    rw [h1] at h
    revert h
    decide
  have hframe := hm.frame 1 (by decide) hnot
  rw [of_decide_eq_true h1', h1] at hframe
  revert hframe
  decide

end Cagebreak
