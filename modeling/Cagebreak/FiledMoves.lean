/-
Views that go from one list to another.

A view that moves is taken out of its tile and its list, and for a while it is in none;
then it gets its new workspace, and the list and a tile of it.

* `Files.unlink`, `Files.link` — the lists meanwhile;
* `takeView_filed`, `putView_filed`, `keybindingMoveViewToTile_filed` — moving to a tile;
* `leaveView_filed`, `arriveView_filed`, `keybindingMoveViewToCycleOutput_filed` — moving
  to the next output.
-/
import Cagebreak.Filed

namespace Cagebreak

open Exec

namespace Views

variable {V V₁ V₂ : Views} {W : WsPtr → Prop} {managed : Bool} {w : WsPtr} {u v : ViewPtr}

/-- A view leaves the list of its workspace. -/
theorem Files.unlink (h : V.Files W none) (hw : W w) (hv : V.Resides managed w v)
    (h₁ : V.wlListRemove (.view v) = .ok V₁) : V₁.Files W (some v) := by
  obtain ⟨L, hL, hmem⟩ := h
  have hV : V₁ = { V with links := V₁.links } := by
    obtain ⟨_, _, -, -, rfl⟩ := Server.wlListRemove_spec _ h₁
    rfl
  refine ⟨_, hL.unlink hw ((hmem managed w v hw).mpr ⟨hv, nofun⟩) h₁, fun m w' u hw' => ?_⟩
  have hother : decide (u ≠ v) = true ↔ some v ≠ some u := by
    rw [decide_eq_true_eq, ne_comm, Ne, Ne, Option.some.injEq]
  rw [List.mem_filter, hmem m w' u hw', Resides.of_links hV, hother,
    and_iff_left (Option.some_ne_none u).symm]

/-- A view that is in no list gets into that of the workspace it is given. -/
theorem Files.link (h : V.Files W (some v)) (hw : W w) (hmapped : V.viewMapped v = true)
    (hkind : V.managed v = managed) (h₁ : V.wlListInsert (.head managed w) (.view v) = .ok V₁)
    (hV : V₂ = { V with
      links := V₁.links
      viewWorkspace := Function.update V.viewWorkspace v (some w) }) : V₂.Files W none := by
  obtain ⟨L, hL, hmem⟩ := h
  have hfree : ∀ m w', W w' → v ∉ L m w' := by
    intro m w' hw' hin
    exact ((hmem m w' v hw').mp hin).2 rfl
  have hlinked := hL.link hw hfree h₁
  refine ⟨fun m w' => if m = managed ∧ w' = w then v :: L managed w else L m w',
    fun m w' hw' => ?_, fun m w' u hw' => ?_⟩
  · rw [hV]
    exact hlinked m w' hw'
  -- `v` gets into the list it belongs to, and the others stay in theirs
  by_cases huv : u = v
  · subst huv
    have hhere : V₂.Resides m w' u ↔ m = managed ∧ w' = w := by
      rw [hV]
      constructor
      · intro hr
        have hws := hr.workspace
        simp only [Function.update_self] at hws
        exact ⟨hr.kind.symm.trans hkind, (Option.some.inj hws).symm⟩
      · rintro ⟨rfl, rfl⟩
        exact ⟨hmapped, hkind, Function.update_self _ _ _⟩
    rw [hhere, and_iff_left (Option.some_ne_none u).symm]
    show u ∈ (if m = managed ∧ w' = w then u :: L managed w else L m w') ↔ m = managed ∧ w' = w
    split
    · next hsame => simp [hsame]
    · next hsame => simp [hsame, hfree m w' hw']
  · have hthere : V₂.Resides m w' u ↔ V.Resides m w' u := by
      rw [hV]
      constructor
      · intro hr
        have hws := hr.workspace
        simp only [Function.update_of_ne huv] at hws
        exact ⟨hr.mapped, hr.kind, hws⟩
      · intro hr
        exact ⟨hr.mapped, hr.kind, (Function.update_of_ne huv _ _).trans hr.workspace⟩
    have hold : u ∈ L m w' ↔ V.Resides m w' u := by
      rw [hmem m w' u hw', and_iff_left]
      intro e
      exact huv (Option.some.inj e).symm
    rw [hthere, and_iff_left (Option.some_ne_none u).symm, ← hold]
    show u ∈ (if m = managed ∧ w' = w then v :: L managed w else L m w') ↔ u ∈ L m w'
    split
    · next hsame =>
      obtain ⟨rfl, rfl⟩ := hsame
      simp [huv]
    · exact Iff.rfl

end Views

namespace Server

open Views

variable {s s' s'' : Server} {t f : TilePtr} {u v : ViewPtr} {w : WsPtr} {o : OutPtr}
  {view : Option ViewPtr} {managed : Bool} {fit lit : ViewPtr → Prop}

/-! ### Leaving a list and getting into one -/

/-- The view is in no list and no tile any more. -/
theorem Filed.leave (h : s.Filed none)
    (hlists : s'.views.Files (fun w => s'.tiles.wsLive w = true) (some v))
    (hviews : s'.views = { s.views with links := s'.views.links })
    (hws : s'.tiles.wsLive = s.tiles.wsLive) (hless : ShowsLess s s')
    (hhidden : ∀ t, ¬ s'.Shows t v) : s'.Filed (some v) := by
  refine ⟨hlists, fun u hu _ => ?_, fun t u hu => ?_⟩
  · rw [hviews] at hu ⊢
    rw [hws]
    exact h.home u hu nofun
  · obtain ⟨hold, htw⟩ := hless t u hu
    rw [Resides.of_links hviews, htw]
    refine ⟨(h.shown t u hold).1, fun e => hhidden t ?_⟩
    rwa [Option.some.inj e]

/-- A mapped view is in the list of some workspace, which it can leave. -/
theorem unlinkView_lists (h : s.Filed none) (hv : s.views.viewMapped v = true) :
    Ensures (s.unlinkView v) fun s' => s' = { s with views := s'.views } ∧
      s'.views = { s.views with links := s'.views.links } ∧
      s'.views.Files (fun w => s.tiles.wsLive w = true) (some v) := by
  obtain ⟨w, hvw, hw⟩ := h.home v hv nofun
  refine Ensures.bind_any fun V hV => Ensures.ok ⟨rfl, ?_, h.lists.unlink hw ⟨hv, rfl, hvw⟩ hV⟩
  obtain ⟨_, _, -, -, rfl⟩ := wlListRemove_spec _ hV
  rfl

theorem unlinkView_filed (h : s.Filed none) (hv : s.views.viewMapped v = true)
    (hhidden : ∀ t, ¬ s.Shows t v) : Ensures (s.unlinkView v) fun s' =>
      s'.Filed (some v) ∧ s' = { s with views := s'.views } ∧
        s'.views = { s.views with links := s'.views.links } := by
  refine (unlinkView_lists h hv).mono fun s' ⟨heq, hviews, hlists⟩ => ⟨?_, heq, hviews⟩
  have htiles : s'.tiles = s.tiles := by rw [heq]
  have hdisp : s'.disp = s.disp := by rw [heq]
  refine h.leave ?_ hviews (by rw [htiles]) (showsLess_of_eq htiles hdisp) fun t ht => hhidden t ?_
  · rw [htiles]
    exact hlists
  · rwa [Shows, htiles, hdisp] at ht

/-- The view is in the list of the workspace it has been given. -/
theorem Filed.arrive (h : s.Filed (some v)) (hw : s.tiles.wsLive w = true)
    (hlists : s'.views.Files (fun w => s'.tiles.wsLive w = true) none)
    (hviews : s'.views = { s.views with
      links := s'.views.links
      viewWorkspace := Function.update s.views.viewWorkspace v (some w) })
    (hws : s'.tiles.wsLive = s.tiles.wsLive)
    (hshown : ∀ t u, s'.Shows t u → s'.tiles.tileWorkspace t = s.tiles.tileWorkspace t ∧
      (s.Shows t u ∨ u = v ∧ s.views.viewMapped v = true ∧ s.views.managed v = true ∧
        s.tiles.tileWorkspace t = w)) : s'.Filed none := by
  refine ⟨hlists, fun u hu _ => ?_, fun t u hu => ⟨?_, nofun⟩⟩
  · rw [hviews] at hu ⊢
    rw [hws]
    by_cases huv : u = v
    · subst huv
      exact ⟨w, Function.update_self _ _ _, hw⟩
    · obtain ⟨w', hw', hlive⟩ := h.home u hu fun e => huv (Option.some.inj e).symm
      exact ⟨w', (Function.update_of_ne huv _ _).trans hw', hlive⟩
  · obtain ⟨htw, hold | ⟨rfl, hm, hk, rfl⟩⟩ := hshown t u hu
    · obtain ⟨hres, hne⟩ := h.shown t u hold
      have huv : u ≠ v := fun e => hne (congrArg some e).symm
      rw [hviews, htw]
      exact ⟨hres.mapped, hres.kind, (Function.update_of_ne huv _ _).trans hres.workspace⟩
    · rw [hviews, htw]
      exact ⟨hm, hk, Function.update_self _ _ _⟩

/-- A view that is in no list gets another workspace. -/
theorem setViewWorkspace_filed (h : s.Filed (some v)) :
    (s.setViewWorkspace v w).Filed (some v) := by
  have hother : ∀ u, some v ≠ some u →
      (s.setViewWorkspace v w).views.viewWorkspace u = s.views.viewWorkspace u := by
    intro u hu
    exact Function.update_of_ne (fun e => hu (congrArg some e).symm) _ _
  have hres : ∀ managed w' u,
      (s.setViewWorkspace v w).views.Resides managed w' u ∧ some v ≠ some u ↔
      s.views.Resides managed w' u ∧ some v ≠ some u := by
    intro managed w' u
    refine and_congr_left fun hu => ⟨fun hr => ⟨hr.mapped, hr.kind, ?_⟩, fun hr =>
      ⟨hr.mapped, hr.kind, ?_⟩⟩
    · rw [← hother u hu]
      exact hr.workspace
    · rw [hother u hu]
      exact hr.workspace
  refine ⟨h.lists.congr rfl fun managed w' u _ => hres managed w' u, fun u hm hu => ?_,
    fun t u hu => ?_⟩
  · rw [hother u hu]
    exact h.home u hm hu
  · exact (hres true _ u).mpr (h.shown t u hu)

/-- **Linking in** a view that has its workspace. -/
theorem linkView_filed (h : s.Filed (some v)) (hw : s.tiles.wsLive w = true)
    (hv : s.views.Resides managed w v) : Ensures (s.linkView managed w v) fun s' =>
      StaysFiled none s s' ∧ s'.disp = s.disp := by
  refine Ensures.bind_any fun V hV => Ensures.ok ?_
  have hlinks : V = { s.views with links := V.links } := by
    obtain ⟨_, -, rfl⟩ := wlListInsert_spec _ hV
    rfl
  have hself : Function.update s.views.viewWorkspace v (some w) = s.views.viewWorkspace := by
    rw [← hv.workspace, Function.update_eq_self]
  have heq : V = { s.views with
      links := V.links
      viewWorkspace := Function.update s.views.viewWorkspace v (some w) } := by
    rw [hself]
    exact hlinks
  have hfiled : ({ s with views := V } : Server).Filed none :=
    h.arrive hw (h.lists.link hw hv.mapped hv.kind hV heq) heq rfl fun t u hu => ⟨rfl, .inl hu⟩
  exact ⟨⟨hfiled, rfl, hlinks⟩, rfl⟩

/-! ### Moving to a tile -/

/-- **Taking a view out of its tile and its list.** -/
theorem takeView_filed (hti : s.tiles.TilesInv False none) (hs : s.Sound fit lit)
    (h : s.Filed none) (hv : s.views.viewMapped v = true) : Ensures (s.takeView v) fun s' =>
      s'.Filed (some v) ∧ s'.tiles = s.tiles ∧
        s'.views = { s.views with links := s'.views.links } := by
  unfold takeView
  cases hold : s.disp.viewTile v with
  | none =>
    refine (unlinkView_filed h hv fun t ht => ?_).mono fun s' ⟨h', heq, hviews⟩ =>
      ⟨h', by rw [heq], hviews⟩
    exact nomatch hold.symm.trans (hs.settled.tile t v ht)
  | some old =>
    refine Ensures.bind (clearTile_filed h) ?_
    rintro s₁ ⟨ha, h₁⟩
    have hmap₁ : s₁.views.viewMapped v = true := by
      rw [h₁.views]
      exact hv
    refine Ensures.bind (unlinkView_filed h₁.filed hmap₁ fun t ht => ?_) ?_
    · -- only the tile that has been emptied has shown the view
      rcases ha.shows_iff.mp ht with ⟨-, he⟩ | ⟨hne, ht⟩
      · exact nomatch he
      · exact hne (Option.some.inj ((hs.settled.tile t v ht).symm.trans hold))
    rintro s₂ ⟨h₂, heq₂, hviews₂⟩
    have htiles₂ : s₂.tiles = s.tiles := by
      rw [← h₁.tiles, heq₂]
    refine Ensures.bind (keybindingCycleViews_hidden_filed (htiles₂ ▸ hti) h₂) fun s₃ h₃ =>
      Ensures.bind_any fun f _ => ?_
    have hviews₃ : s₃.views = { s.views with links := s₃.views.links } := by
      rw [h₃.views, hviews₂, h₁.views]
    refine Ensures.ite (fun _ => ?_) fun _ => Ensures.ok ⟨h₃.filed, h₃.tiles.trans htiles₂, hviews₃⟩
    have hti₃ : s₃.tiles.TilesInv False none := by
      rw [h₃.tiles, htiles₂]
      exact hti
    have hfocus : Ensures (s₃.seatSetFocus none) (StaysFiled (some v) s₃) :=
      seatSetFocus_filed hti₃ h₃.filed fun _ _ he => nomatch he
    refine hfocus.mono fun s₄ h₄ => ⟨h₄.filed, (h₄.tiles.trans h₃.tiles).trans htiles₂, ?_⟩
    rw [h₄.views, hviews₃]

/-- **Putting a view into a tile** and the list of the workspace of the tile. -/
theorem putView_filed (hti : s.tiles.TilesInv False none) (h : s.Filed (some v))
    (hmapped : s.views.viewMapped v = true) (hkind : s.views.managed v = true) :
    Ensures (s.putView v t) (Filed none) := by
  refine Ensures.deref fun hlive => ?_
  have hw : s.tiles.wsLive (s.tiles.tileWorkspace t) = true := (hti.tile_ws t hlive).1
  refine Ensures.bind (linkView_filed (setViewWorkspace_filed h) hw
    ⟨hmapped, hkind, Function.update_self _ _ _⟩) ?_
  rintro s₁ ⟨h₁, -⟩
  have hres : s₁.views.Resides true (s.tiles.tileWorkspace t) v := by
    rw [h₁.resides]
    exact ⟨hmapped, hkind, Function.update_self _ _ _⟩
  set s₂ : Server := (s₁.setViewTile v (some t)).setTileView t (some v) with hs₂
  have htw : s₁.tiles.tileWorkspace t = s.tiles.tileWorkspace t := by
    rw [h₁.tiles]
    rfl
  have h₂ : s₂.Filed none := by
    refine h₁.filed.retile rfl rfl fun t' u hu => ?_
    by_cases ht' : t' = t
    · subst ht'
      have htv : s₂.disp.tileView t' = some v := Function.update_self _ _ _
      obtain rfl := Option.some.inj (hu.2.symm.trans htv)
      show s₁.views.Resides true (s₁.tiles.tileWorkspace t') u ∧ _
      rw [htw]
      exact ⟨hres, nofun⟩
    · refine h₁.filed.shown t' u ⟨hu.1, ?_⟩
      exact (Function.update_of_ne ht' _ _).symm.trans hu.2
  refine Ensures.bind_any fun f hf => Ensures.ite (fun htf => ?_) fun _ => Ensures.ok h₂
  subst htf
  refine (seatSetFocus_filed (s := s₂) (h₁.tiles ▸ hti) h₂ fun u f' hu _ hf' => ?_).mono
    fun _ h₃ => h₃.filed
  obtain rfl := Option.some.inj hu
  obtain rfl := Except.ok.inj (hf.symm.trans hf')
  show s₁.views.Resides true (s₁.tiles.tileWorkspace t) v ∧ _
  rw [htw]
  exact ⟨hres, nofun⟩

/-- Leaving a tile without a view. -/
theorem emptyTile_filed (h : s.Filed none) : Ensures (s.emptyTile t) (Filed none) := by
  refine Ensures.deref fun _ => Ensures.ifSome (fun _ => h) fun v _ => Ensures.deref fun _ =>
    Ensures.ok (h.narrow rfl rfl fun t' u hu => ⟨⟨hu.1, ?_⟩, rfl⟩)
  have htv : Function.update s.disp.tileView t none t' = some u := hu.2
  by_cases ht' : t' = t
  · rw [ht', Function.update_self] at htv
    exact nomatch htv
  · rwa [Function.update_of_ne ht'] at htv

/-- **`keybinding_move_view_to_tile`** puts the view into the list of the workspace it
moves to. -/
theorem keybindingMoveViewToTile_filed (hwf : WellFormed False s) (hvi : s.ViewsInv)
    (hs : s.Sound fit lit) (h : s.Filed none) {viewId tileId : ℕ} {follow : Bool} :
    Ensures (s.keybindingMoveViewToTile viewId tileId follow) (Filed none) := by
  refine Ensures.bind_any fun view hview => Ensures.bind_any fun tile _ =>
    Ensures.bind_any fun old _ => ?_
  obtain ⟨oldOutput, oldWs⟩ := old
  refine Ensures.ifSome (fun _ => h) fun t _ => ?_
  refine Ensures.bind (P := fun s₁ => KeepsLayout s s₁ ∧ s₁.Filed none) ?_ fun s₁ ⟨hk₁, h₁⟩ => ?_
  · cases view with
    | none => exact emptyTile_keeps.and (emptyTile_filed h)
    | some v =>
      have hmapped := hs.mapped_of_listed (viewFromId_listed hs _ hview v rfl)
      have hkind := (viewFromId_spec hvi _ hview v rfl).managed
      refine Ensures.bind ((takeView_filed hwf.tiles hs h hmapped).and takeView_keeps) ?_
      rintro s₁ ⟨⟨h₁, htiles₁, hviews₁⟩, hk₁⟩
      refine (putView_keeps.and (putView_filed (htiles₁ ▸ hwf.tiles) h₁ ?_ ?_)).mono
        fun s₂ h₂ => ⟨hk₁.trans h₂.1, h₂.2⟩
      · rw [hviews₁]
        exact hmapped
      · rw [hviews₁]
        exact hkind
  have hwf₁ := hk₁.wellFormed hwf
  refine Ensures.bind (P := Filed none) (Ensures.ite
    (fun _ => keybindingFocusTile_filed hwf₁ h₁) fun _ => ?_)
    fun s₂ h₂ => Ensures.bind_any fun oc _ => Ensures.bind_any fun oldId _ =>
      Ensures.ok (emit_filed h₂).filed
  refine Ensures.ifSome (fun _ => h₁) fun u hu s₂ hs₂ => ?_
  -- only a tile that is there is given its view once more
  obtain ⟨_, hlive, -⟩ := bind_eq_ok.mp hs₂
  refine (workspaceTileUpdateView_filed h₁ (fun u' hu' => ?_) s₂ hs₂).2.filed
  obtain rfl := Option.some.inj hu'
  exact h₁.shown t u ⟨deref_eq_ok.mp hlive, hu⟩

theorem keybindingMoveViewToOutput_filed (hwf : WellFormed False s) (hvi : s.ViewsInv)
    (hs : s.Sound fit lit) (h : s.Filed none) {viewId outputNum : ℕ} {follow : Bool} :
    Ensures (s.keybindingMoveViewToOutput viewId outputNum follow) (Filed none) :=
  Ensures.ifSome (fun _ => h) fun _ _ => Ensures.bind_any fun _ _ => Ensures.bind_any fun _ _ =>
    keybindingMoveViewToTile_filed hwf hvi hs h

theorem keybindingMoveViewToWorkspace_filed (hwf : WellFormed False s) (hvi : s.ViewsInv)
    (hs : s.Sound fit lit) (h : s.Filed none) {viewId ws : ℕ} {follow : Bool} :
    Ensures (s.keybindingMoveViewToWorkspace viewId ws follow) (Filed none) :=
  Ensures.ite (fun _ => Ensures.ok h) fun _ => Ensures.bind_any fun _ _ =>
    Ensures.bind_any fun _ _ => Ensures.bind_any fun _ _ =>
      keybindingMoveViewToTile_filed hwf hvi hs h

/-! ### Moving to the next output -/

/-- **The view of the focused tile leaves its workspace.** -/
theorem leaveView_filed (hti : s.tiles.TilesInv False none) (hs : s.Sound fit lit)
    (h : s.Filed none) (hv : s.Shows t v) : Ensures (s.leaveView t v) fun s' =>
      StaysFiled (some v) s s' := by
  refine Ensures.bind (unlinkView_lists h (hs.settled.mapped t v hv)) ?_
  rintro s₁ ⟨heq₁, hviews₁, hlists₁⟩
  have htiles₁ : s₁.tiles = s.tiles := by rw [heq₁]
  have hdisp₁ : s₁.disp = s.disp := by rw [heq₁]
  have hshows : ∀ t' u, (s₁.setTileView t none).Shows t' u → t' ≠ t ∧ s.Shows t' u := by
    intro t' u hu
    have htv : Function.update s₁.disp.tileView t none t' = some u := hu.2
    by_cases ht' : t' = t
    · rw [ht', Function.update_self] at htv
      exact nomatch htv
    · rw [Function.update_of_ne ht', hdisp₁] at htv
      exact ⟨ht', htiles₁ ▸ hu.1, htv⟩
  have h₂ : StaysFiled (some v) s (s₁.setTileView t none) := by
    refine ⟨h.leave ?_ hviews₁ ?_ (fun t' u hu => ⟨(hshows t' u hu).2, ?_⟩) fun t' hu => ?_,
      htiles₁, hviews₁⟩
    · show s₁.views.Files (fun w => s₁.tiles.wsLive w = true) (some v)
      rw [htiles₁]
      exact hlists₁
    · show s₁.tiles.wsLive = s.tiles.wsLive
      rw [htiles₁]
    · show s₁.tiles.tileWorkspace t' = s.tiles.tileWorkspace t'
      rw [htiles₁]
    · obtain ⟨hne, hold⟩ := hshows t' v hu
      exact hne (hs.settled.onlyAt hv t' hold)
  refine Ensures.mono ?_ fun _ h' => h₂.trans h'
  refine StaysFiled.bind (keybindingCycleViews_hidden_filed (h₂.tiles ▸ hti) h₂.filed) fun s₃ h₃ =>
    Ensures.bind_any fun f _ => Ensures.ite (fun _ => ?_) fun _ => Ensures.ok h₃.filed.stays
  exact seatSetFocus_filed (h₃.tiles ▸ h₂.tiles ▸ hti) h₃.filed fun _ _ he => nomatch he

/-- **The view comes into the focused tile** and the current list. -/
theorem arriveView_filed (hti : s.tiles.TilesInv False none) (h : s.Filed (some v))
    (hmapped : s.views.viewMapped v = true) (hkind : s.views.managed v = true) :
    Ensures (s.arriveView v) (Filed none) := by
  refine Ensures.bind_any fun w hw => Ensures.bind_any fun s₁ hs₁ => Ensures.bind_any fun f hf =>
    Ensures.bind workspaceTileUpdateView_assigned fun s₂ ha => ?_
  obtain ⟨V, hV, hs₁⟩ := bind_eq_ok.mp hs₁
  obtain rfl := Except.ok.inj hs₁
  obtain ⟨hcur, htw, -, hwlive⟩ := curTile_workspace (s := { s with views := V }) hti hw hf
  have hlinks : V = { s.views with links := V.links } := by
    obtain ⟨_, -, rfl⟩ := wlListInsert_spec _ hV
    rfl
  have htiles : s₂.tiles = s.tiles := by rw [ha.eq]
  set s₃ : Server := s₂.setViewWorkspace v w with hs₃
  have hviews : s₃.views = { s.views with
      links := V.links
      viewWorkspace := Function.update s.views.viewWorkspace v (some w) } := by
    show { s₂.views with viewWorkspace := Function.update s₂.views.viewWorkspace v (some w) } = _
    rw [show s₂.views = V by rw [ha.eq], hlinks]
  -- the view has its workspace only now
  have h₃ : s₃.Filed none := by
    refine h.arrive hwlive ?_ ?_ (congrArg Tiles.wsLive htiles) fun t u hu =>
      ⟨congrFun (congrArg Tiles.tileWorkspace htiles) t, ?_⟩
    · show s₃.views.Files (fun w => s₂.tiles.wsLive w = true) none
      rw [htiles]
      exact h.lists.link hwlive hmapped hkind hV hviews
    · rw [hviews]
    · rcases ha.shows_iff.mp hu with ⟨rfl, he⟩ | ⟨-, hold⟩
      · exact .inr ⟨(Option.some.inj he).symm, hmapped, hkind, htw⟩
      · exact .inl hold
  refine (seatSetFocus_filed (s := s₃) (htiles ▸ hti) h₃ fun u f' hu _ hf' => ?_).mono
    fun _ h₄ => h₄.filed
  obtain rfl := Option.some.inj hu
  have hcur₃ : s₃.curTile = .ok f := by
    show (s₂.outs.curWs >>= fun w => s₂.tiles.focusedTile w) = .ok f
    rw [ha.eq]
    exact hcur
  obtain rfl := Except.ok.inj (hcur₃.symm.trans hf')
  refine h₃.shown f v (ha.shows_iff.mpr (.inl ⟨rfl, rfl⟩))

/-- **`keybinding_move_view_to_cycle_output`** puts the view into the current list of the
next output. -/
theorem keybindingMoveViewToCycleOutput_filed (hwf : WellFormed False s) (hvi : s.ViewsInv)
    (hs : s.Sound fit lit) (h : s.Filed none) {reverse : Bool} :
    Ensures (s.keybindingMoveViewToCycleOutput reverse) (Filed none) := by
  refine Ensures.ite (fun _ => Ensures.ok h) fun _ => Ensures.bind_any fun old _ =>
    Ensures.bind_any fun f hf => ?_
  have hlive := curTile_live hwf.tiles hf
  refine Ensures.bind (P := fun s₁ => StaysFiled (s.disp.tileView f) s s₁)
    (Ensures.ifSome (fun hnone => ?_) fun v hv => ?_) fun s₁ h₁ => ?_
  · rw [hnone]
    exact h.stays
  · rw [hv]
    exact leaveView_filed hwf.tiles hs h ⟨hlive, hv⟩
  refine Ensures.bind (keybindingCycleOutputs_filed (h₁.tiles ▸ hwf.tiles) h₁.filed) fun s₂ h₂ => ?_
  have h₂' := h₁.trans h₂
  refine Ensures.bind (P := Filed none) (Ensures.ifSome (fun hnone => hnone ▸ h₂.filed)
    fun v hv => ?_)
    fun s₃ h₃ => ?_
  · refine arriveView_filed (h₂'.tiles ▸ hwf.tiles) (hv ▸ h₂.filed) ?_ ?_
    · rw [h₂'.views]
      exact hs.settled.mapped f v ⟨hlive, hv⟩
    · rw [h₂'.views]
      exact (hvi.shown f v hv).managed
  · exact Ensures.bind_any fun _ _ => Ensures.bind_any fun _ _ => Ensures.bind_any fun _ _ =>
      Ensures.bind_any fun _ _ => Ensures.ok (emit_filed h₃).filed

end Server

end Cagebreak
