/-
Every view in the list of its workspace.

`Filed` says which views the lists of the workspaces hold: a list is a ring, it holds
the mapped views of its kind whose workspace it belongs to, and what a tile shows is in
the list of the workspace of the tile.  A view that is on its way from one list to
another is in none meanwhile; it is the exception of the invariant.

* `workspaceTileUpdateView_filed`, `seatSetFocus_filed` — the two operations every
  command is made of keep it, when the view is in the list of the workspace;
* `unlinkView_filed`, `linkView_filed` — a view leaves a list, and gets into one;
* `keybindingCycleViews_filed`, `keybindingFocusTile_filed`, … — the commands that
  leave every view in its list.
-/
import Cagebreak.FocusRuns

namespace Cagebreak

open Exec

namespace Views

variable {V V' : Views} {W : WsPtr → Prop} {out out' : Option ViewPtr} {managed : Bool}
  {w : WsPtr} {v : ViewPtr}

/-- The view is mapped, of this kind, and belongs to this workspace. -/
structure Resides (V : Views) (managed : Bool) (w : WsPtr) (v : ViewPtr) : Prop where
  mapped : V.viewMapped v = true
  kind : V.managed v = managed
  workspace : V.viewWorkspace v = some w

/-- A view resides in one workspace only. -/
theorem Resides.unique (h : V.Resides managed w v) {managed' : Bool} {w' : WsPtr}
    (h' : V.Resides managed' w' v) : w = w' :=
  Option.some.inj (h.workspace.symm.trans h'.workspace)

/-- The lists of the workspaces in `W` hold what resides there, but for `out`. -/
def Files (V : Views) (W : WsPtr → Prop) (out : Option ViewPtr) : Prop :=
  ∃ L, V.ListsAre W L ∧
    ∀ managed w v, W w → (v ∈ L managed w ↔ V.Resides managed w v ∧ out ≠ some v)

theorem Files.congr (h : V.Files W out) (hlinks : V'.links = V.links)
    (hres : ∀ managed w v, W w → (V'.Resides managed w v ∧ out' ≠ some v ↔
      V.Resides managed w v ∧ out ≠ some v)) : V'.Files W out' := by
  obtain ⟨L, hL, hmem⟩ := h
  refine ⟨L, fun managed w hw => ?_, fun managed w v hw => ?_⟩
  · rw [ListIs, hlinks]
    exact hL managed w hw
  · rw [hmem managed w v hw, hres managed w v hw]

/-- What is linked with a member of a list is a member. -/
theorem ListIs.of_connected {l : List ViewPtr} (h : V.ListIs managed w l) {m n : Node}
    (hm : m ∈ Node.head managed w :: l.map Node.view) (hn : V.links.Connected m n) :
    n ∈ Node.head managed w :: l.map Node.view := by
  induction hn with
  | refl => exact hm
  | tail _ hstep ih =>
    rcases hstep with hnext | hprev
    · exact h.exists_next ih hnext
    · exact h.exists_prev ih hprev

theorem Files.of_connected (h : V.Files W out) (hw : W w)
    (hn : V.links.Connected (.head managed w) (.view v)) :
    V.Resides managed w v ∧ out ≠ some v := by
  obtain ⟨L, hL, hmem⟩ := h
  rw [← hmem managed w v hw]
  exact ListIs.mem_node.mp ((hL managed w hw).of_connected List.mem_cons_self hn)

/-- The links do not matter. -/
theorem Resides.of_links (hV : V' = { V with links := V'.links }) :
    V'.Resides managed w v ↔ V.Resides managed w v := by
  rw [hV]
  exact ⟨fun h => ⟨h.mapped, h.kind, h.workspace⟩, fun h => ⟨h.mapped, h.kind, h.workspace⟩⟩

end Views

namespace Server

open Views

variable {s s' s'' : Server} {t t' f o' : TilePtr} {u v : ViewPtr} {w : WsPtr} {o : OutPtr}
  {view out : Option ViewPtr} {managed : Bool}

/-- **Every view is in the list of its workspace** and in no other, and a tile shows
views of its own workspace only.  The view `out` is in no list and no tile. -/
structure Filed (out : Option ViewPtr) (s : Server) : Prop where
  lists : s.views.Files (fun w => s.tiles.wsLive w = true) out
  home : ∀ v, s.views.viewMapped v = true → out ≠ some v →
    ∃ w, s.views.viewWorkspace v = some w ∧ s.tiles.wsLive w = true
  shown : ∀ t v, s.Shows t v → s.views.Resides true (s.tiles.tileWorkspace t) v ∧ out ≠ some v

/-- The lists have another order, and tiles show other views of their workspace. -/
structure StaysFiled (out : Option ViewPtr) (s s' : Server) : Prop where
  filed : s'.Filed out
  tiles : s'.tiles = s.tiles
  views : s'.views = { s.views with links := s'.views.links }

theorem Filed.stays (h : s.Filed out) : StaysFiled out s s := ⟨h, rfl, rfl⟩

theorem StaysFiled.trans (h : StaysFiled out s s') (h' : StaysFiled out s' s'') :
    StaysFiled out s s'' :=
  ⟨h'.filed, h'.tiles.trans h.tiles, by rw [h'.views, h.views]⟩

theorem StaysFiled.bind {m : Exec Server} {f : Server → Exec Server}
    (hm : Ensures m (StaysFiled out s))
    (hf : ∀ s₁, StaysFiled out s s₁ → Ensures (f s₁) (StaysFiled out s₁)) :
    Ensures (m >>= f) (StaysFiled out s) :=
  hm.bind fun s₁ h₁ => (hf s₁ h₁).mono fun _ h₂ => h₁.trans h₂

theorem StaysFiled.resides (h : StaysFiled out s s') :
    s'.views.Resides managed w v ↔ s.views.Resides managed w v :=
  Resides.of_links h.views

/-- The lists are the same, and no tile shows a view of another workspace. -/
theorem Filed.retile (h : s.Filed out) (hviews : s'.views = s.views)
    (hws : s'.tiles.wsLive = s.tiles.wsLive)
    (hshown : ∀ t v, s'.Shows t v →
      s.views.Resides true (s'.tiles.tileWorkspace t) v ∧ out ≠ some v) : s'.Filed out := by
  constructor
  · rw [hviews, hws]
    exact h.lists
  · rw [hviews, hws]
    exact h.home
  · rw [hviews]
    exact hshown

/-- The tiles show less. -/
theorem Filed.narrow (h : s.Filed out) (hviews : s'.views = s.views)
    (hws : s'.tiles.wsLive = s.tiles.wsLive) (hless : ShowsLess s s') : s'.Filed out := by
  refine h.retile hviews hws fun t v hv => ?_
  obtain ⟨hold, htw⟩ := hless t v hv
  rw [htw]
  exact h.shown t v hold

theorem Filed.unchanged (h : s.Filed out) (hviews : s'.views = s.views)
    (htiles : s'.tiles = s.tiles) (htile : s'.disp.tileView = s.disp.tileView) :
    StaysFiled out s s' := by
  refine ⟨h.narrow hviews (by rw [htiles]) fun t v hv => ?_, htiles, by rw [hviews]⟩
  rw [Shows, htiles, htile] at hv
  exact ⟨hv, by rw [htiles]⟩

theorem Filed.congr (h : s.Filed out) (hviews : s'.views = s.views) (htiles : s'.tiles = s.tiles)
    (htile : s'.disp.tileView = s.disp.tileView) : s'.Filed out :=
  (h.unchanged hviews htiles htile).filed

theorem emit_filed (h : s.Filed out) {e : Event} : StaysFiled out s (s.emit e) :=
  h.unchanged rfl rfl rfl

/-! ### Tiles and the focus -/

/-- **Putting a view of the workspace into a tile.** -/
theorem workspaceTileUpdateView_filed (h : s.Filed out)
    (hview : ∀ v, view = some v →
      s.views.Resides true (s.tiles.tileWorkspace t) v ∧ out ≠ some v) :
    Ensures (s.workspaceTileUpdateView t view) fun s' =>
      Assigned s t view s' ∧ StaysFiled out s s' := by
  refine workspaceTileUpdateView_assigned.mono fun s' ha => ⟨ha, ?_⟩
  have hviews : s'.views = s.views := by rw [ha.eq]
  have htiles : s'.tiles = s.tiles := by rw [ha.eq]
  refine ⟨h.retile hviews (by rw [htiles]) fun t' v hv => ?_, htiles, by rw [hviews]⟩
  rw [htiles]
  rcases ha.shows_iff.mp hv with ⟨rfl, he⟩ | ⟨-, hold⟩
  · exact hview v he
  · exact h.shown t' v hold

theorem clearTile_filed (h : s.Filed out) : Ensures (s.workspaceTileUpdateView t none) fun s' =>
    Assigned s t none s' ∧ StaysFiled out s s' := by
  refine workspaceTileUpdateView_filed h fun v hv => ?_
  exact nomatch hv

/-- The focused tile is there. -/
theorem curTile_live (hti : s.tiles.TilesInv False none) (ht : s.curTile = .ok t) :
    s.tiles.tileLive t = true := by
  obtain ⟨o, w, -, -, hf⟩ := curTile_eq_ok.mp ht
  exact (hti.focused_mem (by simp) hf).2.1

/-- The focused tile shows the view with the focus. -/
theorem FocusAgrees.shows (ha : s.FocusAgrees) (hti : s.tiles.TilesInv False none)
    (ht : s.curTile = .ok t) (hu : s.disp.focusedView = some u) : s.Shows t u :=
  ⟨curTile_live hti ht, (ha t ht).symm.trans hu⟩

/-- The focused tile of the current workspace is a tile of that workspace. -/
theorem curTile_workspace (hti : s.tiles.TilesInv False none) (hw : s.outs.curWs = .ok w)
    (hf : s.tiles.focusedTile w = .ok f) : s.curTile = .ok f ∧ s.tiles.tileWorkspace f = w ∧
      s.tiles.tileLive f = true ∧ s.tiles.wsLive w = true := by
  obtain ⟨hwlive, hlive, htw⟩ := hti.focused_mem (by simp) hf
  refine ⟨?_, htw, hlive, hwlive⟩
  rw [curTile, hw, ok_bind, hf]

/-- **`seat_set_focus`** on a view of the current workspace, which it puts into the
focused tile. -/
theorem seatSetFocus_filed (hti : s.tiles.TilesInv False none) (h : s.Filed out)
    (hview : ∀ v f, view = some v → s.views.managed v = true → s.curTile = .ok f →
      s.views.Resides true (s.tiles.tileWorkspace f) v ∧ out ≠ some v) :
    Ensures (s.seatSetFocus view) (StaysFiled out s) := by
  cases view with
  | none =>
    refine seatSetFocus_none_assigned.mono ?_
    rintro s' ⟨f, s₁, c, e, -, ha, rfl⟩
    have hviews : s₁.views = s.views := by rw [ha.eq]
    have htiles : s₁.tiles = s.tiles := by rw [ha.eq]
    have hfiled : s₁.Filed out := by
      refine h.retile hviews (by rw [htiles]) fun t v hv => ?_
      rw [htiles]
      rcases ha.shows_iff.mp hv with ⟨-, he⟩ | ⟨-, hold⟩
      · exact nomatch he
      · exact h.shown t v hold
    have hstays : StaysFiled out s s₁ := ⟨hfiled, htiles, by rw [hviews]⟩
    exact hstays.trans (hfiled.unchanged rfl rfl rfl)
  | some v =>
    by_cases hv : s.views.managed v = true
    · refine (seatSetFocus_managed_assigned hv).mono ?_
      rintro s' ⟨w, f, s₁, V₁, V₂, c, e, hw, hf, ha, hV₁, hV₂, rfl⟩
      obtain ⟨hcur, htw, -, hwlive⟩ := curTile_workspace hti hw hf
      have hres := hview v f rfl hv hcur
      have htiles : s₁.tiles = s.tiles := by rw [ha.eq]
      have hV : V₂ = { s.views with links := V₂.links } := by
        obtain ⟨_, _, -, -, rfl⟩ := wlListRemove_spec _ hV₁
        obtain ⟨_, -, rfl⟩ := wlListInsert_spec _ hV₂
        rfl
      -- the head of the list is moved behind the view
      obtain ⟨L, hL, hmem⟩ := h.lists
      have hin : v ∈ L true w := by
        rw [hmem true w v hwlive, ← htw]
        exact hres
      obtain ⟨L', hL', hperm⟩ := hL.moveHead hwlive hin hV₁ hV₂
      refine ⟨⟨⟨L', ?_, fun managed w' u hw' => ?_⟩, fun u hu hout => ?_, fun t u hu => ?_⟩, htiles,
        hV⟩
      · show V₂.ListsAre (fun w => s₁.tiles.wsLive w = true) L'
        rw [htiles]
        exact hL'
      · rw [(hperm managed w').mem_iff, Resides.of_links hV]
        refine hmem managed w' u ?_
        rw [← htiles]
        exact hw'
      · show ∃ w, V₂.viewWorkspace u = some w ∧ s₁.tiles.wsLive w = true
        rw [hV, htiles]
        change V₂.viewMapped u = true at hu
        rw [hV] at hu
        exact h.home u hu hout
      · show V₂.Resides true (s₁.tiles.tileWorkspace t) u ∧ _
        rw [Resides.of_links hV, htiles]
        rcases ha.shows_iff.mp hu with ⟨rfl, he⟩ | ⟨-, hold⟩
        · obtain rfl := Option.some.inj he
          exact hres
        · exact h.shown t u hold
    · refine (seatSetFocus_unmanaged_spec (by simpa using hv)).mono ?_
      rintro s' ⟨c, e, rfl, -⟩
      exact h.unchanged rfl rfl rfl

/-- Focusing what the focused tile shows. -/
theorem focusShown_filed (hti : s.tiles.TilesInv False none) (h : s.Filed out)
    (ht : s.curTile = .ok t) : Ensures (s.seatSetFocus (s.disp.tileView t)) (StaysFiled out s) := by
  refine seatSetFocus_filed hti h fun v f hv _ hf => ?_
  obtain rfl := Except.ok.inj (ht.symm.trans hf)
  exact h.shown t v ⟨curTile_live hti ht, hv⟩

theorem refocus_filed (hti : s.tiles.TilesInv False none) (h : s.Filed out) :
    Ensures s.refocus (StaysFiled out s) :=
  Ensures.bind_any fun _ hf => focusShown_filed hti h hf

theorem setOutput_filed (hti : s.tiles.TilesInv False none) (h : s.Filed out) :
    Ensures (s.setOutput o) (StaysFiled out s) := by
  have hset : StaysFiled out s { s with outs.currOutput := some o } := h.unchanged rfl rfl rfl
  refine (refocus_filed ?_ hset.filed).mono fun _ h' => hset.trans h'
  exact hti

theorem keybindingCycleOutputs_filed (hti : s.tiles.TilesInv False none) (h : s.Filed out)
    {reverse triggerEvent : Bool} :
    Ensures (s.keybindingCycleOutputs reverse triggerEvent) (StaysFiled out s) := by
  refine Ensures.bind_any fun old _ => Ensures.nonNull fun o _ =>
    StaysFiled.bind (setOutput_filed hti h) fun s₁ h₁ => Ensures.ok ?_
  cases triggerEvent with
  | false => exact h₁.filed.stays
  | true => exact emit_filed h₁.filed

theorem keybindingSwitchOutput_filed (hti : s.tiles.TilesInv False none) (h : s.Filed out)
    {num : ℕ} : Ensures (s.keybindingSwitchOutput num) (StaysFiled out s) :=
  Ensures.bind_any fun _ _ => Ensures.ifSome (fun _ => h.stays) fun _ _ =>
    StaysFiled.bind (setOutput_filed hti h) fun _ h₁ => Ensures.ok (emit_filed h₁.filed)

theorem keybindingSwitchWs_filed (hti : s.tiles.TilesInv False none) (h : s.Filed out) {ws : ℕ} :
    Ensures (s.keybindingSwitchWs ws) (StaysFiled out s) := by
  refine Ensures.ite (fun _ => Ensures.ok h.stays) fun hws => Ensures.bind_any fun o ho => ?_
  refine Ensures.bind workspaceFocus_spec fun s₁ h₁ => ?_
  rcases h₁ with ⟨-, hle⟩ | ⟨rfl, -⟩
  · exact absurd hle hws
  have hset : StaysFiled out s { s with outs.outCurr := Function.update s.outs.outCurr o ws } :=
    h.unchanged rfl rfl rfl
  refine Ensures.bind_any fun w hw => Ensures.bind_any fun f hf => ?_
  have hcur : ({ s with outs.outCurr := Function.update s.outs.outCurr o ws } : Server).curTile =
      .ok f := by
    refine curTile_eq_ok.mpr ⟨o, w, nonNull_eq_ok.mp ho, ?_, hf⟩
    show Outputs.wsAt _ o (Function.update s.outs.outCurr o ws o) = .ok w
    rw [Function.update_self]
    exact hw
  refine Ensures.mono ?_ fun _ h' => hset.trans h'
  exact StaysFiled.bind (focusShown_filed (by exact hti) hset.filed hcur) fun _ h₂ =>
    Ensures.ok (emit_filed h₂.filed)

/-- Another focused tile of a workspace. -/
theorem workspaceFocusTile_filed (hti : s.tiles.TilesInv False none) (h : s.Filed out)
    (ht : s.tiles.tileLive t = true → s.tiles.tileWorkspace t = w) :
    Ensures (s.workspaceFocusTile w t) fun s' => s'.tiles.TilesInv False none ∧ s'.Filed out := by
  refine workspaceFocusTile_spec.mono ?_
  rintro s' ⟨hlive, rfl⟩
  exact ⟨hti.focus ⟨hlive, ht hlive⟩, h.retile rfl rfl h.shown⟩

/-- **`keybinding_focus_tile`** leaves every view in its list. -/
theorem keybindingFocusTile_filed (hwf : WellFormed False s) (h : s.Filed out) {id : ℕ} :
    Ensures (s.keybindingFocusTile id) (Filed out) := by
  refine (keybindingFocusTile_cases hwf).mono ?_
  rintro s' (⟨-, rfl⟩ | ⟨t, s₁, s₂, s₃, s₄, e, -, hs₁, hs₂, -, hs₃, hcur, hs₄, rfl⟩)
  · exact h
  have h₁ : StaysFiled out s s₁ := by
    rcases hs₁ with rfl | hs₁
    · exact h.stays
    · exact setOutput_filed hwf.tiles h s₁ hs₁
  have hti₁ : s₁.tiles.TilesInv False none := h₁.tiles ▸ hwf.tiles
  have h₂ : StaysFiled out s s₂ := by
    rcases hs₂ with rfl | hs₂
    · exact h₁
    · exact h₁.trans (keybindingSwitchWs_filed hti₁ h₁.filed s₂ hs₂)
  obtain ⟨hti₃, h₃⟩ := workspaceFocusTile_filed (h₂.tiles ▸ hwf.tiles) h₂.filed
    (fun _ => by rw [h₂.tiles]) s₃ hs₃
  have h₄ := focusShown_filed hti₃ h₃ hcur s₄ hs₄
  exact (emit_filed h₄.filed).filed

theorem keybindingCycleTiles_filed (hwf : WellFormed False s) (h : s.Filed out) {reverse : Bool} :
    Ensures (s.keybindingCycleTiles reverse) (Filed out) :=
  Ensures.bind_any fun _ _ => Ensures.deref fun _ => Ensures.nonNull fun _ _ =>
    Ensures.deref fun _ => keybindingFocusTile_filed hwf h

/-- The neighbour that `focus_tile` goes to is in the same workspace. -/
theorem focusTile_filed (hwf : WellFormed False s) (h : s.Filed out) {dir : Direction}
    (ht : s.curTile = .ok t) : Ensures (s.focusTile dir t) (Filed out) := by
  refine Ensures.bind (findTileTowards_spec hwf.tiles) fun next ⟨_, hnext⟩ =>
    Ensures.ifSome (fun _ => h) fun n hn => Ensures.bind_any fun s₁ hs₁ => ?_
  obtain ⟨hti₁, h₁⟩ := workspaceFocusTile_filed hwf.tiles h (fun _ => (hnext n hn).1.2) s₁ hs₁
  obtain ⟨o, w, ho, hw, hf⟩ := curTile_eq_ok.mp ht
  have hcurWs : s.outs.curWs = .ok (s.tiles.tileWorkspace t) := by
    rw [(hwf.tiles.focused_mem (by simp) hf).2.2, Outputs.curWs, Outputs.curOut,
      nonNull_eq_ok.mpr ho, ok_bind, hw]
  have hcur := workspaceFocusTile_curTile hcurWs hs₁
  exact (focusShown_filed hti₁ h₁ hcur).mono fun _ h₂ => h₂.filed

/-! ### Looking for a view -/

/-- A search of a list finds a view of the list. -/
theorem findView_inListOf {next : Node → Option Node} {p : ViewPtr → Exec Bool}
    (hnext : ∀ a b, next a = some b →
      s.views.links.next a = some b ∨ s.views.links.prev a = some b) :
    Ensures (s.findView next (.head true w) p) fun found =>
      ∀ v, found = some v → s.InListOf w v := by
  refine Ensures.bind_any fun found hfound => Ensures.ifSome nofun fun n hn => ?_
  subst hn
  have hn : s.views.links.Connected (.head true w) n :=
    DLinks.findNode_along hfound (fun b hb => .single (hnext _ b hb))
      fun b c hb hbc => hb.tail (hnext b c hbc)
  cases n with
  | head managed w' => exact Ensures.bind_any fun _ hu => nomatch hu
  | view u =>
    refine Ensures.ok fun v hv => ?_
    obtain rfl : u = v := Option.some.inj hv
    exact hn

/-- The view before a view of a list is in the list. -/
theorem viewGetPrevView_filed (h : s.Filed out) (hv : s.views.Resides true w v)
    (hout : out ≠ some v) (hw : s.tiles.wsLive w = true) :
    Ensures (s.viewGetPrevView v) fun found =>
      ∀ u, found = some u → s.views.Resides true w u ∧ out ≠ some u := by
  refine Ensures.bind_any fun w' _ => Ensures.bind_any fun found hfound =>
    Ensures.ifSome nofun fun n hn => ?_
  subst hn
  have hn : s.views.links.Connected (.view v) n :=
    DLinks.findNode_along hfound (fun b hb => .single (.inr hb)) fun b c hb hbc =>
      hb.tail (.inr hbc)
  obtain ⟨L, hL, hmem⟩ := h.lists
  have hin : v ∈ L true w := (hmem true w v hw).mpr ⟨hv, hout⟩
  cases n with
  | head managed w'' => exact Ensures.bind_any fun _ hu => nomatch hu
  | view u' =>
    refine Ensures.ok fun u hu => ?_
    obtain rfl : u' = u := Option.some.inj hu
    rw [← hmem true w _ hw]
    exact ListIs.mem_node.mp ((hL true w hw).of_connected (ListIs.mem_node.mpr hin) hn)

/-- Without an id, `keybinding_cycle_views` goes on to a view of the list. -/
theorem cycleTarget_filed (h : s.Filed out) (hw : s.tiles.wsLive w = true) {reverse : Bool} :
    Ensures (s.cycleTarget w 0 reverse) fun found =>
      ∀ v, found = some v → s.views.Resides true w v ∧ out ≠ some v :=
  cycleTarget_inListOf.mono fun _ hin v hv => h.lists.of_connected hw (hin v hv)

/-- **`keybinding_cycle_views`** on a view of the workspace of the tile. -/
theorem keybindingCycleViews_filed (hti : s.tiles.TilesInv False none) (h : s.Filed out)
    {tile : Option TilePtr} {viewId : ℕ} {reverse ipc : Bool}
    (htarget : ∀ t v, tile.elim s.curTile .ok = .ok t → s.tiles.tileLive t = true →
      s.cycleTarget (s.tiles.tileWorkspace t) viewId reverse = .ok (some v) →
      s.views.Resides true (s.tiles.tileWorkspace t) v ∧ out ≠ some v) :
    Ensures (s.keybindingCycleViews tile viewId reverse ipc) (StaysFiled out s) := by
  refine Ensures.bind_any fun t ht => Ensures.deref fun hlive => Ensures.bind_any fun next hnext =>
    Ensures.ifSome (fun _ => h.stays) fun v hv => ?_
  subst hv
  have hres := htarget t v ht hlive hnext
  refine StaysFiled.bind ((workspaceTileUpdateView_filed h fun u hu => ?_).mono fun _ h' => h'.2)
    fun s₁ h₁ => Ensures.bind_any fun f hf => ?_
  · obtain rfl := Option.some.inj hu
    exact hres
  refine StaysFiled.bind (Ensures.ite (fun htf => ?_) fun _ => Ensures.ok h₁.filed.stays)
    fun s₂ h₂ => Ensures.ite (fun _ => emitCycleViews_spec.mono ?_) fun _ =>
      Ensures.ok h₂.filed.stays
  · subst htf
    refine seatSetFocus_filed (h₁.tiles ▸ hti) h₁.filed fun u f' hu _ hf' => ?_
    obtain rfl := Option.some.inj hu
    obtain rfl := Except.ok.inj (hf.symm.trans hf')
    rw [h₁.resides, h₁.tiles]
    exact hres
  · rintro s₃ ⟨e, rfl⟩
    exact emit_filed h₂.filed

/-- Going on to another view without an id. -/
theorem keybindingCycleViews_hidden_filed (hti : s.tiles.TilesInv False none) (h : s.Filed out)
    {tile : Option TilePtr} {reverse ipc : Bool} :
    Ensures (s.keybindingCycleViews tile 0 reverse ipc) (StaysFiled out s) :=
  keybindingCycleViews_filed hti h fun t v _ hlive hv =>
    cycleTarget_filed h (hti.tile_ws t hlive).1 _ hv v rfl

/-! ### Merging, swapping and resizing -/

/-- Drawing a view in a tile, which shows it or not. -/
theorem viewMaximize_filed (h : s.Filed out) :
    Ensures (s.viewMaximize v t) (StaysFiled out s) := by
  refine viewMaximize_scene.mono ?_
  rintro s' ⟨-, heq, -⟩
  exact h.unchanged (by rw [heq]) (by rw [heq]) (by rw [heq])

theorem maximizeShown_filed (h : s.Filed out) :
    Ensures (Exec.ifSome view s fun v => s.viewMaximize v t) (StaysFiled out s) :=
  Ensures.ifSome (fun _ => h.stays) fun _ _ => viewMaximize_filed h

/-- **`merge_tile`** takes a view out of a tile, and leaves it in its list. -/
theorem mergeTile_filed (h : s.Filed out) {dir : Direction} :
    Ensures (s.mergeTile dir t) (Filed out) := by
  refine Ensures.bind_any fun found _ => Ensures.ifSome (fun _ => h) fun m _ =>
    Ensures.ite (fun _ => Ensures.ok h) fun _ => ?_
  refine Ensures.bind (clearTile_filed h) ?_
  rintro s₁ ⟨-, h₁⟩
  refine Ensures.nonNull fun p _ => Ensures.nonNull fun n _ => ?_
  refine Ensures.bind (maximizeShown_filed (h₁.filed.narrow rfl rfl fun t' v hv =>
    ⟨⟨?_, hv.2⟩, rfl⟩))
    fun s₂ h₂ => ?_
  · have hlive : Function.update s₁.tiles.tileLive m false t' = true := hv.1
    by_cases htm : t' = m
    · rw [htm, Function.update_self] at hlive
      exact nomatch hlive
    · rwa [Function.update_of_ne htm] at hlive
  · refine Ensures.bind_any fun place _ => ?_
    obtain ⟨ws, output, outputId⟩ := place
    exact Ensures.ok (emit_filed h₂.filed).filed

/-- **`resize`** changes no list. -/
theorem resize_filed {a : Axis} {orig tile : TilePtr} {parent : Option TilePtr} {n : ℕ}
    {coordOffset dimOffset : ℤ} (h : s.Filed out) :
    Ensures (resize a orig n s tile parent coordOffset dimOffset) (Filed out) := by
  induction n generalizing s tile parent coordOffset dimOffset with
  | zero => exact Ensures.error
  | succ n ih =>
    refine Ensures.ite (fun _ => Ensures.ok h) fun _ => Ensures.bind_any fun its _ => ?_
    refine Ensures.bind (Ensures.foldlM (fun s₁ it _ h₁ => ?_) h) fun s₁ h₁ => ?_
    · refine Ensures.ite (fun _ => Ensures.ok h₁) fun _ => ?_
      cases handedOn s₁.tiles a tile it coordOffset dimOffset with
      | none => exact Ensures.ok h₁
      | some cd => exact ih h₁
    · refine Ensures.bind (maximizeShown_filed (h₁.narrow rfl rfl fun t' v hv => ⟨hv, rfl⟩))
        fun s₂ h₂ => Ensures.bind_any fun place _ => ?_
      obtain ⟨ws, output, outputId⟩ := place
      exact Ensures.ok (emit_filed h₂.filed).filed

theorem resizeAlong_filed (h : s.Filed out) {a : Axis} {pixs : ℤ} :
    Ensures (s.resizeAlong a o t pixs) (Filed out) :=
  Ensures.deref fun _ => Ensures.ite (fun _ => Ensures.bind_any fun _ _ =>
    Ensures.ite (fun _ => resize_filed h) fun _ => Ensures.ok h) fun _ => Ensures.ok h

theorem resizeTile_filed (h : s.Filed out) {hpixs vpixs : ℤ} {tileId : ℕ} :
    Ensures (s.resizeTile hpixs vpixs tileId) (Filed out) :=
  Ensures.bind_any fun _ _ => Ensures.bind_any fun _ _ => Ensures.bind_any fun _ _ =>
    Ensures.ifSome (fun _ => h) fun _ _ => Ensures.bind (resizeAlong_filed h) fun _ h₁ =>
      resizeAlong_filed h₁

/-- Two tiles may exchange what they show: they are in one workspace, or empty. -/
def Exchangeable (s : Server) (a b : TilePtr) : Prop :=
  s.tiles.tileWorkspace a = s.tiles.tileWorkspace b ∨
    s.disp.tileView a = none ∧ s.disp.tileView b = none

/-- **`swap_tiles`** on tiles of one workspace. -/
theorem swapTiles_filed (hwf : WellFormed False s) (h : s.Filed out)
    {tile swapTile : Option TilePtr} {follow : Bool}
    (hswap : ∀ a b, tile = some a → swapTile = some b → s.Exchangeable a b) :
    Ensures (s.swapTiles tile swapTile follow) (Filed out) := by
  unfold swapTiles
  split
  · next a b =>
    refine Ensures.ite (fun _ => Ensures.ok h) fun hab => Ensures.deref fun hlive => ?_
    obtain ⟨hlivea, hliveb⟩ := Bool.and_eq_true_iff.mp hlive
    have hhome : ∀ v t t', s.tiles.tileLive t = true → s.disp.tileView t = some v →
        s.Exchangeable t t' → s.views.Resides true (s.tiles.tileWorkspace t') v ∧ out ≠ some v := by
      rintro v t t' ht hv (hws | ⟨hnone, -⟩)
      · rw [← hws]
        exact h.shown t v ⟨ht, hv⟩
      · exact nomatch hnone.symm.trans hv
    have hex := hswap a b rfl rfl
    have hex' : s.Exchangeable b a := hex.imp Eq.symm And.symm
    refine Ensures.bind ((clearTile_filed h).and workspaceTileUpdateView_keeps) ?_
    rintro s₁ ⟨⟨-, h₁⟩, hk₁⟩
    refine Ensures.bind ((workspaceTileUpdateView_filed h₁.filed fun v hv => ?_).and
      workspaceTileUpdateView_keeps) ?_
    · rw [h₁.resides, h₁.tiles]
      exact hhome v a b hlivea hv hex
    rintro s₂ ⟨⟨-, h₂⟩, hk₂⟩
    have h₂' := h₁.trans h₂
    refine Ensures.bind ((workspaceTileUpdateView_filed h₂.filed fun v hv => ?_).and
      workspaceTileUpdateView_keeps) ?_
    · rw [h₂'.resides, h₂'.tiles]
      exact hhome v b a hliveb hv hex'
    rintro s₃ ⟨⟨-, h₃⟩, hk₃⟩
    have hwf₃ := ((hk₁.trans hk₂).trans hk₃).wellFormed hwf
    refine Ensures.bind (Ensures.ite (fun _ => keybindingFocusTile_filed hwf₃ h₃.filed)
      fun _ => (refocus_filed hwf₃.tiles h₃.filed).mono fun _ h₄ => h₄.filed)
      fun s₄ h₄ => Ensures.bind_any fun place _ => ?_
    obtain ⟨ws, output, outputId⟩ := place
    exact Ensures.ok (emit_filed h₄).filed
  · exact Ensures.ok h

/-- The neighbour of a tile is in the same workspace. -/
theorem swapTile_filed (hwf : WellFormed False s) (h : s.Filed out) {tileId : ℕ}
    {dir : Direction} {follow : Bool} : Ensures (s.swapTile tileId dir follow) (Filed out) := by
  refine Ensures.bind_any fun _ _ => Ensures.ifSome (fun _ => h) fun t _ =>
    Ensures.bind (findTileTowards_spec hwf.tiles) fun n ⟨_, hn⟩ => swapTiles_filed hwf h ?_
  rintro a b ⟨⟩ hb
  exact .inl (hn b hb).1.2.symm

/-! ### Splitting, and full screen workspaces -/

/-- A new tile shows nothing, and the others are where they have been. -/
theorem newTile_showsLess (hlt : ∀ t : ℕ, s.tiles.tileLive t = true → t < s.tiles.tileTop)
    {T : Tiles} (hlive : T.tileLive = Function.update s.tiles.tileLive s.tiles.tileTop true)
    (htw : T.tileWorkspace = Function.update s.tiles.tileWorkspace s.tiles.tileTop w) :
    ShowsLess s
      { s with
        tiles := T, disp.tileView := Function.update s.disp.tileView s.tiles.tileTop none } := by
  intro t v hv
  have hold := (shows_newTile hlt hlive).mp hv
  refine ⟨hold, ?_⟩
  have hne : t ≠ s.tiles.tileTop := fun e => lt_irrefl _ (e ▸ hlt t hold.1)
  show T.tileWorkspace t = s.tiles.tileWorkspace t
  rw [htw, Function.update_of_ne hne]

/-- **`keybinding_split_output`** puts a hidden view of the workspace into the new tile. -/
theorem keybindingSplitOutput_filed (hwf : WellFormed False s) (h : s.Filed out)
    {vertical : Bool} {percentage : Percentage} :
    Ensures (s.keybindingSplitOutput o vertical percentage) (Filed out) := by
  refine Ensures.bind_any fun w _ => Ensures.bind_any fun f hf => Ensures.deref fun _ =>
    Ensures.ite (fun _ => Ensures.ok h) fun _ => ?_
  obtain ⟨hw, -⟩ := hwf.tiles.focused_mem (by simp) hf
  refine Ensures.bind (findView_inListOf fun _ _ hab => .inl hab) fun nextView hnext =>
    Ensures.nonNull fun c _ => ?_
  refine Ensures.bind (workspaceTileUpdateView_filed (h.narrow rfl rfl
    (newTile_showsLess hwf.tiles.tile_lt rfl rfl)) fun v hv => ?_) ?_
  · show s.views.Resides true (Function.update s.tiles.tileWorkspace s.tiles.tileTop w _) v ∧ _
    rw [Function.update_self]
    exact h.lists.of_connected hw (hnext v hv)
  rintro s₂ ⟨-, h₂⟩
  refine Ensures.bind workspaceFocusTile_spec ?_
  rintro s₃ ⟨-, rfl⟩
  refine Ensures.bind (maximizeShown_filed (h₂.filed.retile rfl rfl h₂.filed.shown)) fun s₄ h₄ =>
    Ensures.bind (maximizeShown_filed h₄.filed) fun s₅ h₅ => Ensures.bind_any fun place _ => ?_
  obtain ⟨ws, output, outputId⟩ := place
  exact Ensures.ok (emit_filed h₅.filed).filed

/-- Freeing the tiles of a workspace. -/
theorem workspaceFreeTiles_filed (hti : s.tiles.TilesInv False none) (h : s.Filed out) :
    Ensures (s.workspaceFreeTiles w) fun s' => s'.Filed out ∧ s'.views = s.views ∧
      s'.tiles.wsLive = s.tiles.wsLive := by
  refine (workspaceFreeTiles_spec hti).mono ?_
  rintro s' ⟨-, c, T', rfl, hfreed, -⟩
  refine ⟨h.narrow rfl hfreed.wsLive fun t v hv => ⟨⟨?_, hv.2⟩, ?_⟩, rfl, hfreed.wsLive⟩
  · exact ((hfreed.tileLive t).mp hv.1).1
  · show T'.tileWorkspace t = s.tiles.tileWorkspace t
    rw [hfreed.tileWorkspace]

/-- A workspace gets a tile. -/
theorem fullScreenWorkspaceTiles_filed
    (hlt : ∀ t : ℕ, s.tiles.tileLive t = true → t < s.tiles.tileTop) (h : s.Filed out) :
    Ensures (s.fullScreenWorkspaceTiles w) fun s' => s'.Filed out ∧ s'.views = s.views ∧
      s'.tiles.wsLive = s.tiles.wsLive := by
  refine Ensures.deref fun _ => (clearTile_filed ?_).mono fun s' h' =>
    ⟨h'.2.filed, by rw [h'.1.eq], by rw [h'.2.tiles]⟩
  exact h.narrow rfl rfl (newTile_showsLess hlt rfl rfl)

/-- **`output_make_workspace_fullscreen`** keeps a view of the workspace. -/
theorem outputMakeWorkspaceFullscreen_filed (hwf : WellFormed False s) (h : s.Filed out) {ws : ℕ} :
    Ensures (s.outputMakeWorkspaceFullscreen o ws) (Filed out) := by
  refine Ensures.ite (fun _ => Ensures.ok h) fun _ => Ensures.bind_any fun w hw =>
    Ensures.bind_any fun f hf => Ensures.deref fun hlive => ?_
  obtain ⟨hwlive, -, htw⟩ := hwf.tiles.focused_mem (by simp) hf
  refine Ensures.bind (P := fun current => ∀ v, current = some v →
    s.views.Resides true w v ∧ out ≠ some v) ?_ fun current hcurrent => ?_
  · cases hv : s.disp.tileView f with
    | none =>
      exact (findView_inListOf fun _ _ hab => .inl hab).mono fun _ hin v hv =>
        h.lists.of_connected hwlive (hin v hv)
    | some v =>
      refine Ensures.ok fun u hu => ?_
      obtain rfl := Option.some.inj hu
      rw [← htw]
      exact h.shown f v ⟨hlive, hv⟩
  refine Ensures.bind ((workspaceFreeTiles_filed (w := w) hwf.tiles h).and
    (workspaceFreeTiles_inv hwf)) ?_
  rintro s₁ ⟨⟨h₁, hviews₁, hws₁⟩, hwf₁, hw₁, houts₁⟩
  refine Ensures.bind ((fullScreenWorkspaceTiles_filed hwf₁.tiles.tile_lt h₁).and
    (fullScreenWorkspaceTiles_inv hwf₁ hw₁)) ?_
  rintro s₂ ⟨⟨h₂, hviews₂, -⟩, hwf₂, houts₂⟩
  refine Ensures.bind_any fun f' hf' => Ensures.bind_any fun l _ => ?_
  have hf'w : s₂.tiles.tileWorkspace f' = w := (hwf₂.tiles.focused_mem (by simp) hf').2.2
  have hk₃ : KeepsLayout s₂ (s₂.pointViewsAt l f') := pointViewsAt_keeps
  have h₃ : StaysFiled out s₂ (s₂.pointViewsAt l f') :=
    h₂.unchanged pointViewsAt_views hk₃.tiles pointViewsAt_tileView
  have hres : ∀ v, current = some v → s₂.views.Resides true w v ∧ out ≠ some v := by
    rw [hviews₂, hviews₁]
    exact hcurrent
  refine Ensures.bind ((workspaceTileUpdateView_filed h₃.filed fun v hv => ?_).and
    workspaceTileUpdateView_keeps) ?_
  · rw [h₃.resides, h₃.tiles, hf'w]
    exact hres v hv
  rintro s₄ ⟨⟨-, h₄⟩, hk₄⟩
  have h₄' := h₃.trans h₄
  refine Ensures.ite (fun hcur => ?_) fun _ => Ensures.ok h₄.filed
  refine (seatSetFocus_filed (h₄'.tiles ▸ hwf₂.tiles) h₄.filed fun v f'' hv _ hf'' => ?_).mono
    fun _ h₅ => h₅.filed
  -- the focused tile is the new one
  obtain ⟨o', w', ho', hw', hf''⟩ := curTile_eq_ok.mp hf''
  have houts₄ : s₄.outs = s.outs := by rw [hk₄.outs, hk₃.outs, houts₂, houts₁]
  rw [houts₄] at ho' hw'
  rw [houts₄] at hcur
  obtain rfl := Option.some.inj (ho'.symm.trans hcur.2)
  rw [hcur.1, hw] at hw'
  obtain rfl := Except.ok.inj hw'
  rw [h₄'.tiles] at hf''
  rw [h₄'.resides, h₄'.tiles, (hwf₂.tiles.focused_mem (by simp) hf'').2.2]
  exact hres v hv

theorem keybindingWorkspaceFullscreen_filed (hwf : WellFormed False s) (h : s.Filed out)
    {screen workspace : ℕ} :
    Ensures (s.keybindingWorkspaceFullscreen screen workspace) (Filed out) := by
  refine Ensures.bind_any fun cur _ => Ensures.ifSome (fun _ => h) fun o _ =>
    Ensures.ite (fun _ => Ensures.ok h) fun _ => ?_
  refine Ensures.bind (outputMakeWorkspaceFullscreen_filed hwf h) fun s₁ h₁ => ?_
  exact Ensures.bind_any fun _ _ => Ensures.bind_any fun _ _ => Ensures.ok (emit_filed h₁).filed

end Server

end Cagebreak
