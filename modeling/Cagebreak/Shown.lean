/-
Which view is shown where.

A tile points at the view it shows and the view points back at the tile.
`Settled fit lit` says that the two agree, that the views which satisfy `fit` have
the position and the size of their tile, and that the nodes of those which satisfy
`lit` are enabled exactly if a tile shows them.  `LinksInv` says of the lists of
views that their pointers agree and that only mapped views are in them.

* `workspaceTileUpdateView_stays`, `seatSetFocus_stays` — the two operations every
  command is made of keep both, when the view is shown by no other tile;
* `refocus_refocused`, `keybindingFocusTile_keepsSound` — so do the first commands.
-/
import Cagebreak.Current
import Cagebreak.ViewLists

namespace Cagebreak

open Exec

namespace Views

/-- The node may be linked: its list has been made, or its view is mapped. -/
def Ready (V : Views) (wsTop : ℕ) : Node → Prop
  | .head _ w => w < wsTop
  | .view v => V.viewMapped v = true

/-- The lists of views are doubly linked, and only what is ready is in them. -/
structure LinksInv (wsTop : ℕ) (V : Views) : Prop where
  paired : V.links.Mutual
  ready : ∀ n, ¬ V.Ready wsTop n → V.links.Unlinked n

variable {V V' : Views} {wsTop : ℕ} {a b n : Node} {v : ViewPtr}

/-- What a pointer leads to is ready. -/
theorem LinksInv.ready_of_link (h : V.LinksInv wsTop)
    (hab : V.links.next a = some b ∨ V.links.prev a = some b) :
    V.Ready wsTop a ∧ V.Ready wsTop b := by
  constructor
  · by_contra ha
    exact (h.paired.ne_of_unlinked (h.ready a ha) hab).1 rfl
  · by_contra hb
    exact (h.paired.ne_of_unlinked (h.ready b hb) hab).2 rfl

/-- Other fields of the views do not matter. -/
theorem LinksInv.congr {wsTop' : ℕ} (h : V.LinksInv wsTop) (hlinks : V'.links = V.links)
    (hready : ∀ n, V.Ready wsTop n → V'.Ready wsTop' n ∨ V.links.Unlinked n) :
    V'.LinksInv wsTop' := by
  constructor
  · rw [hlinks]
    exact h.paired
  · intro n hn
    rw [hlinks]
    by_contra hlinked
    by_cases hr : V.Ready wsTop n
    · exact (hready n hr).elim hn hlinked
    · exact hlinked (h.ready n hr)

/-- The links have changed, and nodes without neighbours have got none. -/
structure Relinked (wsTop : ℕ) (V V' : Views) : Prop where
  inv : V'.LinksInv wsTop
  eq : V' = { V with links := V'.links }
  unlinked : ∀ n, V.links.Unlinked n → V'.links.Unlinked n

theorem wlListRemove_links (h : V.LinksInv wsTop) : Ensures (V.wlListRemove n) fun V' =>
    Relinked wsTop V V' ∧ V'.links.Unlinked n ∧ V.Ready wsTop n := by
  refine Server.wlListRemove_spec.mono ?_
  rintro V' ⟨a, c, ha, hc, rfl⟩
  have hun : ∀ m, V.links.Unlinked m → (V.links.unlink a n c).Unlinked m :=
    fun m hm => hm.unlink h.paired ha hc
  refine ⟨⟨⟨h.paired.unlink ha hc, fun m hm => hun m (h.ready m ?_)⟩, rfl, hun⟩,
    DLinks.unlinked_unlink, (h.ready_of_link (.inl hc)).1⟩
  intro hr
  cases m with
  | head managed w => exact hm hr
  | view v => exact hm hr

/-- Linking in a node that is ready and in no list. -/
theorem wlListInsert_links (h : V.LinksInv wsTop) (hn : V.links.Unlinked n)
    (hready : V.Ready wsTop n) : Ensures (V.wlListInsert a n) fun V' =>
    V'.LinksInv wsTop ∧ V' = { V with links := V'.links } ∧
      (∀ m, V.links.Unlinked m → m ≠ a) ∧
      ∀ m, m ≠ n → V.links.Unlinked m → V'.links.Unlinked m := by
  refine Server.wlListInsert_spec.mono ?_
  rintro V' ⟨c, hc, rfl⟩
  have hun : ∀ m, m ≠ n → V.links.Unlinked m → (V.links.insert a n c).Unlinked m :=
    fun m hmn hm => hm.insert h.paired hmn hc
  refine ⟨⟨h.paired.insert hn hc, fun m hm => hun m ?_ (h.ready m ?_)⟩, rfl,
    fun m hm => (h.paired.ne_of_unlinked hm (.inl hc)).1, hun⟩
  · rintro rfl
    cases m with
    | head managed w => exact hm hready
    | view v => exact hm hready
  · intro hr
    cases m with
    | head managed w => exact hm hr
    | view v => exact hm hr

/-- A new list is empty. -/
theorem wlListInit_links (h : V.LinksInv wsTop) (hn : V.links.Unlinked n)
    (hready : V.Ready wsTop n) : (V.wlListInit n).LinksInv wsTop ∧
      ∀ m, m ≠ n → V.links.Unlinked m → (V.wlListInit n).links.Unlinked m := by
  have hun : ∀ m, m ≠ n → V.links.Unlinked m → (V.wlListInit n).links.Unlinked m := by
    rintro m hmn ⟨hnext, hprev⟩
    constructor
    · simpa [wlListInit, hmn] using hnext
    · simpa [wlListInit, hmn] using hprev
  refine ⟨⟨h.paired.selfLink hn, fun m hm => ?_⟩, hun⟩
  have hm' : ¬ V.Ready wsTop m := by
    intro hr
    cases m with
    | head managed w => exact hm hr
    | view v => exact hm hr
  exact hun m (fun e => hm' (e ▸ hready)) (h.ready m hm')

end Views

namespace Server

open Views

variable {s s' s'' : Server} {t t' f m : TilePtr} {u v : ViewPtr} {w : WsPtr} {o : OutPtr}
  {view : Option ViewPtr} {fit lit fit' lit' : ViewPtr → Prop}

/-! ### What is kept -/

/-- The tile is there and shows the view. -/
def Shows (s : Server) (t : TilePtr) (v : ViewPtr) : Prop :=
  s.tiles.tileLive t = true ∧ s.disp.tileView t = some v

/-- The view has the position and the size of the tile. -/
structure Fits (s : Server) (t : TilePtr) (v : ViewPtr) : Prop where
  size : s.scene.viewSize v = ((s.tiles.tileBox t).width, (s.tiles.tileBox t).height)
  pos : s.scene.viewPos v = ((s.tiles.tileBox t).x, (s.tiles.tileBox t).y)

/-- Tiles and the views they show agree. -/
structure Settled (fit lit : ViewPtr → Prop) (s : Server) : Prop where
  tile : ∀ t v, s.Shows t v → s.disp.viewTile v = some t
  mapped : ∀ t v, s.Shows t v → s.views.viewMapped v = true
  focus : ∀ v, s.disp.focusedView = some v → s.views.viewMapped v = true
  fits : ∀ t v, fit v → s.Shows t v → s.Fits t v
  enabled : ∀ v, lit v → s.views.managed v = true → s.views.viewMapped v = true →
    (s.scene.nodeEnabled v = true ↔ ∃ t, s.Shows t v)

/-- No other tile shows the view. -/
def OnlyAt (s : Server) (v : ViewPtr) (t : TilePtr) : Prop := ∀ t', s.Shows t' v → t' = t

/-- The view is in no list and no tile. -/
structure Loose (s : Server) (v : ViewPtr) : Prop where
  unlinked : s.views.links.Unlinked (.view v)
  hidden : ∀ t, ¬ s.Shows t v

/-- Lists and tiles are in order. -/
structure Sound (fit lit : ViewPtr → Prop) (s : Server) : Prop where
  links : s.views.LinksInv s.tiles.wsTop
  settled : s.Settled fit lit

theorem Settled.onlyAt (h : s.Settled fit lit) (hv : s.Shows t v) : s.OnlyAt v t := by
  intro t' ht'
  exact Option.some.inj ((h.tile t' v ht').symm.trans (h.tile t v hv))

theorem Settled.mono (h : s.Settled fit lit) (hfit : ∀ v, fit' v → fit v)
    (hlit : ∀ v, lit' v → lit v) : s.Settled fit' lit' :=
  ⟨h.tile, h.mapped, h.focus, fun t v hv => h.fits t v (hfit v hv),
    fun v hv => h.enabled v (hlit v hv)⟩

theorem Sound.mono (h : s.Sound fit lit) (hfit : ∀ v, fit' v → fit v)
    (hlit : ∀ v, lit' v → lit v) : s.Sound fit' lit' :=
  ⟨h.links, h.settled.mono hfit hlit⟩

/-- A view finds the tile that shows it. -/
theorem Settled.viewGetTile (h : s.Settled fit lit) (hlive : s.views.viewLive v = true)
    (hv : s.Shows t v) : s.viewGetTile v = .ok (some t) := by
  rw [Server.viewGetTile, deref_eq_ok.mpr hlive, ok_bind, h.tile t v hv, ifSome_some,
    deref_eq_ok.mpr hv.1, ok_bind, if_pos hv.2]

/-- A hidden view is shown by no tile. -/
theorem Settled.hidden (h : s.Settled fit lit) (hv : s.viewIsVisible v = .ok false) :
    s.views.managed v = true ∧ ∀ t, ¬ s.Shows t v := by
  obtain ⟨_, hlive, hv⟩ := bind_eq_ok.mp hv
  by_cases hm : s.views.managed v = true
  · refine ⟨hm, fun t ht => ?_⟩
    rw [if_pos hm] at hv
    obtain ⟨found, hfound, hv⟩ := bind_eq_ok.mp hv
    rw [h.viewGetTile (deref_eq_ok.mp hlive) ht] at hfound
    cases hfound
    cases hv
  · rw [if_neg hm] at hv
    cases hv

/-- The tiles show what they have shown, and those that have kept their views have
kept their boxes. -/
theorem Settled.retile (h : s.Settled fit lit) (hshows : ∀ t v, s'.Shows t v ↔ s.Shows t v)
    (hfit : ∀ v, fit' v → fit v)
    (hbox : ∀ t v, fit' v → s.Shows t v → s'.tiles.tileBox t = s.tiles.tileBox t)
    (hview : s'.disp.viewTile = s.disp.viewTile) (hscene : s'.scene = s.scene)
    (hmapped : s'.views.viewMapped = s.views.viewMapped)
    (hattrs : s'.views.viewAttrs = s.views.viewAttrs)
    (hfocus : ∀ v, s'.disp.focusedView = some v → s.views.viewMapped v = true) :
    s'.Settled fit' lit := by
  constructor
  · intro t v hv
    rw [hview]
    exact h.tile t v ((hshows t v).mp hv)
  · intro t v hv
    rw [hmapped]
    exact h.mapped t v ((hshows t v).mp hv)
  · intro v hv
    rw [hmapped]
    exact hfocus v hv
  · intro t v hv' hv
    have hold := (hshows t v).mp hv
    have hfits := h.fits t v (hfit v hv') hold
    refine ⟨?_, ?_⟩
    · rw [hscene, hbox t v hv' hold]
      exact hfits.size
    · rw [hscene, hbox t v hv' hold]
      exact hfits.pos
  · intro v hlit hm hmap
    rw [hmapped] at hmap
    rw [managed, hattrs] at hm
    rw [hscene, h.enabled v hlit hm hmap]
    exact exists_congr fun t => (hshows t v).symm

/-- Lists and tiles are left as they are. -/
theorem Settled.congr (h : s.Settled fit lit) (hlive : s'.tiles.tileLive = s.tiles.tileLive)
    (hbox : s'.tiles.tileBox = s.tiles.tileBox) (htile : s'.disp.tileView = s.disp.tileView)
    (hview : s'.disp.viewTile = s.disp.viewTile) (hscene : s'.scene = s.scene)
    (hmapped : s'.views.viewMapped = s.views.viewMapped)
    (hattrs : s'.views.viewAttrs = s.views.viewAttrs)
    (hfocus : ∀ v, s'.disp.focusedView = some v → s.views.viewMapped v = true) :
    s'.Settled fit lit := by
  refine h.retile (fun t v => ?_) (fun _ => id) (fun t _ _ _ => ?_) hview hscene hmapped
    hattrs hfocus
  · rw [Shows, Shows, hlive, htile]
  · rw [hbox]

/-! ### Putting a view into a tile -/

/-- What `workspace_tile_update_view` does to the tile and the scene. -/
structure Assigned (s : Server) (t : TilePtr) (view : Option ViewPtr) (s' : Server) : Prop where
  live : s.tiles.tileLive t = true
  eq : s' = { s with disp := s.disp.assign t view, scene := s'.scene }
  shown : ∀ v, view = some v → s'.scene.nodeEnabled v = true ∧ s'.Fits t v
  dropped : ∀ v, view ≠ some v → s.disp.tileView t = some v → s'.scene.nodeEnabled v = false
  enabled : ∀ v, view ≠ some v → s.disp.tileView t ≠ some v →
    s'.scene.nodeEnabled v = s.scene.nodeEnabled v
  size : ∀ v, view ≠ some v → s'.scene.viewSize v = s.scene.viewSize v
  pos : ∀ v, view ≠ some v → s'.scene.viewPos v = s.scene.viewPos v

/-- What `view_maximize` does. -/
theorem viewMaximize_scene : Ensures (s.viewMaximize v t) fun s' =>
    s.tiles.tileLive t = true ∧ s' = { s with
      scene := s'.scene
      disp := { s.disp with viewTile := Function.update s.disp.viewTile v (some t) } } ∧
    s'.Fits t v ∧ s'.scene.nodeEnabled = s.scene.nodeEnabled ∧
    (∀ u, u ≠ v → s'.scene.viewSize u = s.scene.viewSize u) ∧
    ∀ u, u ≠ v → s'.scene.viewPos u = s.scene.viewPos u := by
  refine Ensures.deref fun ht => Ensures.bind_any fun w _ => Ensures.deref fun _ => Ensures.ok ?_
  refine ⟨ht, rfl, ⟨?_, ?_⟩, rfl, fun u hu => ?_, fun u hu => ?_⟩
  · simp
  · simp
  · simp [hu]
  · simp [hu]

theorem workspaceTileUpdateView_assigned :
    Ensures (s.workspaceTileUpdateView t view) (Assigned s t view) := by
  refine Ensures.deref fun hlive => ?_
  -- the old view is hidden first
  refine Ensures.bind (P := fun s₁ => s₁ = { s with
      scene := s₁.scene
      disp := { s.disp with viewTile := (s.disp.assign t none).viewTile } } ∧
      (∀ u, s.disp.tileView t = some u → s₁.scene.nodeEnabled u = false) ∧
      (∀ u, s.disp.tileView t ≠ some u → s₁.scene.nodeEnabled u = s.scene.nodeEnabled u) ∧
      s₁.scene.viewSize = s.scene.viewSize ∧ s₁.scene.viewPos = s.scene.viewPos) ?_ ?_
  · refine Ensures.ifSome (fun hold => ?_) fun old hold => Ensures.deref fun _ => Ensures.ok ?_
    · rw [Display.assign_viewTile_none hold]
      exact ⟨rfl, by simp [hold], fun _ _ => rfl, rfl, rfl⟩
    · rw [Display.assign_viewTile_some hold, hold]
      refine ⟨rfl, fun u hu => ?_, fun u hu => ?_, rfl, rfl⟩
      · obtain rfl := Option.some.inj hu
        simp [setNodeEnabled, setViewTile]
      · have hne : u ≠ old := fun e => hu (by rw [e])
        simp [setNodeEnabled, setViewTile, hne]
  · rintro s₁ ⟨heq, hold, hother, hsize, hpos⟩
    refine Ensures.ifSome (fun hv => ?_) fun v hv => Ensures.bind viewMaximize_scene ?_
    · subst hv
      refine ⟨hlive, ?_, by simp, fun u _ hu => hold u hu, fun u _ hu => hother u hu,
        fun u _ => ?_, fun u _ => ?_⟩
      · rw [heq]
        rfl
      · exact congrFun hsize u
      · exact congrFun hpos u
    · rintro s₂ ⟨-, heq₂, hfits, hen₂, hsize₂, hpos₂⟩
      subst hv
      refine Ensures.ok ⟨hlive, ?_, fun u hu => ?_, fun u hu hold' => ?_, fun u hu hold' => ?_,
        fun u hu => ?_, fun u hu => ?_⟩
      · rw [heq₂, heq]
        rfl
      · obtain rfl := Option.some.inj hu
        refine ⟨?_, hfits.size, hfits.pos⟩
        simp [setNodeEnabled]
      all_goals have hne : u ≠ v := fun e => hu (by rw [e])
      · simpa [setNodeEnabled, hne, hen₂, setTileView] using hold u hold'
      · simpa [setNodeEnabled, hne, hen₂, setTileView] using hother u hold'
      · refine (hsize₂ u hne).trans ?_
        exact congrFun hsize u
      · refine (hpos₂ u hne).trans ?_
        exact congrFun hpos u

/-- **Putting a view into a tile**, which no other tile shows, or emptying the tile. -/
theorem Assigned.settled (ha : Assigned s t view s') (h : s.Settled fit lit)
    (hfit : ∀ v, fit' v → fit v ∨ view = some v) (hlit : ∀ v, lit' v → lit v ∨ view = some v)
    (hview : ∀ v, view = some v → s.views.viewMapped v = true ∧ s.OnlyAt v t) :
    s'.Settled fit' lit' := by
  have htiles : s'.tiles = s.tiles := by rw [ha.eq]
  have hviews : s'.views = s.views := by rw [ha.eq]
  have hdisp : s'.disp = s.disp.assign t view := by rw [ha.eq]
  have hself : ∀ v, s'.Shows t v ↔ view = some v := by
    intro v
    rw [Shows, htiles, hdisp, Display.assign_tileView, Function.update_self]
    exact and_iff_right ha.live
  have hother : ∀ t' v, t' ≠ t → (s'.Shows t' v ↔ s.Shows t' v) := by
    intro t' v ht'
    rw [Shows, Shows, htiles, hdisp, Display.assign_tileView, Function.update_of_ne ht']
  -- what another tile shows has neither been put in nor taken out
  have hne : ∀ t' v, t' ≠ t → s.Shows t' v → view ≠ some v ∧ s.disp.tileView t ≠ some v := by
    intro t' v ht' hv
    refine ⟨fun e => ht' ((hview v e).2 t' hv), fun e => ht' ?_⟩
    exact h.onlyAt ⟨ha.live, e⟩ t' hv
  constructor
  · intro t' v hv
    rw [hdisp]
    by_cases ht' : t' = t
    · subst ht'
      rw [(hself v).mp hv]
      exact Display.assign_viewTile_self
    · have hv' := (hother t' v ht').mp hv
      rw [Display.assign_viewTile_of_ne (hne t' v ht' hv').1 (hne t' v ht' hv').2]
      exact h.tile t' v hv'
  · intro t' v hv
    rw [hviews]
    by_cases ht' : t' = t
    · subst ht'
      exact (hview v ((hself v).mp hv)).1
    · exact h.mapped t' v ((hother t' v ht').mp hv)
  · intro v hv
    rw [hviews]
    rw [hdisp] at hv
    exact h.focus v hv
  · intro t' v hfit' hv
    by_cases ht' : t' = t
    · subst ht'
      exact (ha.shown v ((hself v).mp hv)).2
    · have hv' := (hother t' v ht').mp hv
      have hnv := (hne t' v ht' hv').1
      have hfits := h.fits t' v ((hfit v hfit').resolve_right hnv) hv'
      refine ⟨?_, ?_⟩
      · rw [ha.size v hnv, htiles]
        exact hfits.size
      · rw [ha.pos v hnv, htiles]
        exact hfits.pos
  · intro v hlit' hm hmap
    rw [managed, hviews] at hm
    rw [hviews] at hmap
    by_cases hv : view = some v
    · exact iff_of_true (ha.shown v hv).1 ⟨t, (hself v).mpr hv⟩
    · have hen := h.enabled v ((hlit v hlit').resolve_right hv) hm hmap
      by_cases hold : s.disp.tileView t = some v
      · refine iff_of_false (by simp [ha.dropped v hv hold]) ?_
        rintro ⟨t', ht'⟩
        by_cases htt : t' = t
        · subst htt
          exact hv ((hself v).mp ht')
        · exact (hne t' v htt ((hother t' v htt).mp ht')).2 hold
      · rw [ha.enabled v hv hold, hen]
        refine exists_congr fun t' => ?_
        by_cases htt : t' = t
        · subst htt
          rw [hself]
          exact iff_of_false (fun h' => hold h'.2) hv
        · exact (hother t' v htt).symm

/-- What an operation that only shows, hides and focuses views leaves behind. -/
structure Stays (fit lit : ViewPtr → Prop) (s s' : Server) : Prop where
  sound : s'.Sound fit lit
  tiles : s'.tiles = s.tiles
  views : s'.views = { s.views with links := s'.views.links }
  loose : ∀ v, s.Loose v → s'.Loose v

theorem Sound.stays (h : s.Sound fit lit) : Stays fit lit s s := ⟨h, rfl, rfl, fun _ hv => hv⟩

theorem Stays.trans (h : Stays fit lit s s') (h' : Stays fit' lit' s' s'') :
    Stays fit' lit' s s'' :=
  ⟨h'.sound, h'.tiles.trans h.tiles, by rw [h'.views, h.views],
    fun v hv => h'.loose v (h.loose v hv)⟩

/-- Sequencing operations that show, hide and focus views. -/
theorem Stays.bind {m : Exec Server} {f : Server → Exec Server} (hm : Ensures m (Stays fit lit s))
    (hf : ∀ s₁, Stays fit lit s s₁ → Ensures (f s₁) (Stays fit' lit' s₁)) :
    Ensures (m >>= f) (Stays fit' lit' s) :=
  hm.bind fun s₁ h₁ => (hf s₁ h₁).mono fun _ h₂ => h₁.trans h₂

theorem Stays.viewMapped (h : Stays fit lit s s') : s'.views.viewMapped = s.views.viewMapped := by
  rw [h.views]

theorem Stays.managed (h : Stays fit lit s s') : s'.views.managed = s.views.managed := by
  rw [h.views]
  rfl

theorem Stays.mono (h : Stays fit lit s s') (hfit : ∀ v, fit' v → fit v)
    (hlit : ∀ v, lit' v → lit v) : Stays fit' lit' s s' :=
  ⟨h.sound.mono hfit hlit, h.tiles, h.views, h.loose⟩

/-- Events and the cursor tile do not matter, nor does which outputs there are. -/
theorem Sound.unchanged (h : s.Sound fit lit) (htiles : s'.tiles = s.tiles)
    (hviews : s'.views = s.views) (hdisp : s'.disp = s.disp) (hscene : s'.scene = s.scene) :
    Stays fit lit s s' := by
  refine ⟨⟨?_, h.settled.congr ?_ ?_ ?_ ?_ hscene ?_ ?_ ?_⟩, htiles, ?_, fun v hv => ⟨?_, ?_⟩⟩
  · rw [htiles, hviews]
    exact h.links
  · rw [htiles]
  · rw [htiles]
  · rw [hdisp]
  · rw [hdisp]
  · rw [hviews]
  · rw [hviews]
  · rw [hdisp]
    exact h.settled.focus
  · rw [hviews]
  · rw [hviews]
    exact hv.unlinked
  · intro t ht
    rw [Shows, htiles, hdisp] at ht
    exact hv.hidden t ht

theorem Sound.congr (h : s.Sound fit lit) (htiles : s'.tiles = s.tiles)
    (hviews : s'.views = s.views) (hdisp : s'.disp = s.disp) (hscene : s'.scene = s.scene) :
    s'.Sound fit lit :=
  (h.unchanged htiles hviews hdisp hscene).sound

theorem emit_stays (h : s.Sound fit lit) {e : Event} : Stays fit lit s (s.emit e) :=
  h.unchanged rfl rfl rfl rfl

theorem Assigned.shows_iff (ha : Assigned s t view s') :
    s'.Shows t' v ↔ t' = t ∧ view = some v ∨ t' ≠ t ∧ s.Shows t' v := by
  have htiles : s'.tiles = s.tiles := by rw [ha.eq]
  have hdisp : s'.disp = s.disp.assign t view := by rw [ha.eq]
  rw [Shows, htiles, hdisp, Display.assign_tileView]
  by_cases ht : t' = t
  · subst ht
    simpa using fun _ => ha.live
  · simp [ht, Shows]

/-- What is away stays away unless it is put into the tile. -/
theorem Assigned.loose (ha : Assigned s t view s') (hv : s.Loose v) (hne : view ≠ some v) :
    s'.Loose v := by
  constructor
  · rw [ha.eq]
    exact hv.unlinked
  · intro t' ht'
    rcases ha.shows_iff.mp ht' with ⟨-, he⟩ | ⟨-, ht'⟩
    · exact hne he
    · exact hv.hidden t' ht'

/-- **`workspace_tile_update_view`** keeps lists and tiles in order. -/
theorem workspaceTileUpdateView_sound (h : s.Sound fit lit)
    (hfit : ∀ v, fit' v → fit v ∨ view = some v) (hlit : ∀ v, lit' v → lit v ∨ view = some v)
    (hview : s.tiles.tileLive t = true → ∀ v, view = some v →
      s.views.viewMapped v = true ∧ s.OnlyAt v t) :
    Ensures (s.workspaceTileUpdateView t view) fun s' =>
      Assigned s t view s' ∧ s'.Sound fit' lit' := by
  refine workspaceTileUpdateView_assigned.mono fun s' ha => ⟨ha, ?_, ?_⟩
  · rw [ha.eq]
    exact h.links
  · exact ha.settled h.settled hfit hlit (hview ha.live)

theorem workspaceTileUpdateView_stays (h : s.Sound fit lit)
    (hview : s.tiles.tileLive t = true → ∀ v, view = some v →
      s.views.viewMapped v = true ∧ s.OnlyAt v t)
    (hloose : ∀ v, s.Loose v → view ≠ some v) :
    Ensures (s.workspaceTileUpdateView t view) fun s' =>
      Assigned s t view s' ∧ Stays fit lit s s' := by
  refine (workspaceTileUpdateView_sound h (fun _ => .inl) (fun _ => .inl) hview).mono ?_
  rintro s' ⟨ha, hs'⟩
  refine ⟨ha, hs', by rw [ha.eq], by rw [ha.eq], fun v hv => ha.loose hv (hloose v hv)⟩

/-! ### The keyboard focus -/

theorem seatSetFocus_none_assigned : Ensures (s.seatSetFocus none) fun s' =>
    ∃ f s₁ c e, s.curTile = .ok f ∧ Assigned s f none s₁ ∧ s' = { s₁ with
      disp := { s₁.disp with focusedView := none }
      cursorTile := c
      events := e } := by
  refine Ensures.bind_any fun f hf => Ensures.bind workspaceTileUpdateView_assigned fun s₁ h₁ => ?_
  refine Ensures.bind_any fun _ _ => processCursorMotion_spec.mono ?_
  rintro s₂ ⟨c, e, rfl, -⟩
  exact ⟨f, s₁, c, e, hf, h₁, rfl⟩

theorem seatSetFocus_managed_assigned (hv : s.views.managed v = true) :
    Ensures (s.seatSetFocus (some v)) fun s' => ∃ w f s₁ V₁ V₂ c e, s.outs.curWs = .ok w ∧
      s.tiles.focusedTile w = .ok f ∧ Assigned s f (some v) s₁ ∧
      s.views.wlListRemove (.head true w) = .ok V₁ ∧
      V₁.wlListInsert (.view v) (.head true w) = .ok V₂ ∧ s' = { s₁ with
        disp := { s₁.disp with focusedView := some v }
        views := V₂
        cursorTile := c
        events := e } := by
  refine Ensures.deref fun _ => ?_
  rw [if_pos hv]
  refine Ensures.bind_any fun w hw => Ensures.bind_any fun f hf =>
    Ensures.bind workspaceTileUpdateView_assigned fun s₁ h₁ => ?_
  refine Ensures.bind_any fun V₁ hV₁ => Ensures.bind_any fun V₂ hV₂ => Ensures.bind_any fun _ _ =>
    seatEnter_spec.mono ?_
  rintro s₂ ⟨c, e, rfl, -⟩
  have hviews : s₁.views = s.views := by rw [h₁.eq]
  rw [hviews] at hV₁
  exact ⟨w, f, s₁, V₁, V₂, c, e, hw, hf, h₁, hV₁, hV₂, rfl⟩

/-- What the tiles show once a managed view, or none, has got the focus. -/
theorem seatSetFocus_shows_iff (hview : ∀ v, view = some v → s.views.managed v = true) :
    Ensures (s.seatSetFocus view) fun s' => s'.disp.focusedView = view ∧
      ∃ f, s.curTile = .ok f ∧
        ∀ t u, s'.Shows t u ↔ t = f ∧ view = some u ∨ t ≠ f ∧ s.Shows t u := by
  cases view with
  | none =>
    refine seatSetFocus_none_assigned.mono ?_
    rintro s' ⟨f, s₁, c, e, hf, ha, rfl⟩
    exact ⟨rfl, f, hf, fun t u => ha.shows_iff⟩
  | some v =>
    refine (seatSetFocus_managed_assigned (hview v rfl)).mono ?_
    rintro s' ⟨w, f, s₁, V₁, V₂, c, e, hw, hf, ha, -, -, rfl⟩
    exact ⟨rfl, f, by rw [curTile, hw, ok_bind, hf], fun t u => ha.shows_iff⟩

/-- The only view that comes into a tile is the one that gets the focus. -/
theorem seatSetFocus_shows : Ensures (s.seatSetFocus view) fun s' => ∀ t u, s'.Shows t u →
    s.Shows t u ∨ s.curTile = .ok t ∧ view = some u := by
  by_cases hview : ∀ v, view = some v → s.views.managed v = true
  · refine (seatSetFocus_shows_iff hview).mono ?_
    rintro s' ⟨-, f, hf, hshows⟩ t u hu
    rcases (hshows t u).mp hu with ⟨rfl, he⟩ | ⟨-, hold⟩
    · exact .inr ⟨hf, he⟩
    · exact .inl hold
  · obtain ⟨v, hv⟩ := not_forall.mp hview
    obtain ⟨rfl, hm⟩ := Classical.not_imp.mp hv
    refine (seatSetFocus_unmanaged_spec (by simpa using hm)).mono ?_
    rintro s' ⟨c, e, rfl, -⟩ t u hu
    exact .inl hu

/-- **`seat_set_focus`** keeps lists and tiles in order. -/
theorem seatSetFocus_sound (h : s.Sound fit lit)
    (hfit : ∀ v, fit' v → fit v ∨ view = some v ∧ s.views.managed v = true)
    (hlit : ∀ v, lit' v → lit v ∨ view = some v ∧ s.views.managed v = true)
    (hview : ∀ v f, view = some v → s.curTile = .ok f → s.tiles.tileLive f = true →
      s.views.viewMapped v = true ∧ s.OnlyAt v f) :
    Ensures (s.seatSetFocus view) (Stays fit' lit' s) := by
  cases view with
  | none =>
    refine seatSetFocus_none_assigned.mono ?_
    rintro s' ⟨f, s₁, c, e, hf, ha, rfl⟩
    have hset := ha.settled h.settled (fun v hv => (hfit v hv).imp_right And.left)
      (fun v hv => (hlit v hv).imp_right And.left) (by simp)
    have hviews : s₁.views = s.views := by rw [ha.eq]
    have htiles : s₁.tiles = s.tiles := by rw [ha.eq]
    refine ⟨⟨?_, hset.congr rfl rfl rfl rfl rfl rfl rfl (by simp)⟩, htiles, ?_, fun v hv => ?_⟩
    · show s₁.views.LinksInv s₁.tiles.wsTop
      rw [hviews, htiles]
      exact h.links
    · show s₁.views = { s.views with links := s₁.views.links }
      rw [hviews]
    · have hav := ha.loose hv (by simp)
      exact ⟨hav.unlinked, hav.hidden⟩
  | some v =>
    by_cases hv : s.views.managed v = true
    · refine (seatSetFocus_managed_assigned hv).mono ?_
      rintro s' ⟨w, f, s₁, V₁, V₂, c, e, hw, hf, ha, hV₁, hV₂, rfl⟩
      have hcur : s.curTile = .ok f := by rw [curTile, hw, ok_bind, hf]
      have hput := hview v f rfl hcur ha.live
      have hset := ha.settled h.settled (fun u hu => (hfit u hu).imp_right And.left)
        (fun u hu => (hlit u hu).imp_right And.left) fun u hu => by
          obtain rfl := Option.some.inj hu
          exact hput
      have htiles : s₁.tiles = s.tiles := by rw [ha.eq]
      -- the head of the list is unlinked, and linked in behind the view
      obtain ⟨hre₁, hhead, hready⟩ := wlListRemove_links h.links V₁ hV₁
      obtain ⟨hinv₂, heq₂, hne₂, hun₂⟩ := wlListInsert_links hre₁.inv hhead
        (by rw [hre₁.eq]; exact hready) V₂ hV₂
      have heq : V₂ = { s.views with links := V₂.links } := by rw [heq₂, hre₁.eq]
      have hviews : s₁.views = s.views := by rw [ha.eq]
      refine ⟨⟨?_, hset.congr rfl rfl rfl rfl rfl ?_ ?_ fun u hu => ?_⟩, htiles, heq,
        fun u hu => ?_⟩
      · show V₂.LinksInv s₁.tiles.wsTop
        rw [htiles]
        exact hinv₂
      · show V₂.viewMapped = s₁.views.viewMapped
        rw [heq, hviews]
      · show V₂.viewAttrs = s₁.views.viewAttrs
        rw [heq, hviews]
      · obtain rfl : v = u := Option.some.inj hu
        rw [hviews]
        exact hput.1
      · have huv : some v ≠ some u := by
          intro e
          obtain rfl := Option.some.inj e
          exact hne₂ _ (hre₁.unlinked _ hu.unlinked) rfl
        have hau := ha.loose hu huv
        refine ⟨hun₂ _ (by simp) (hre₁.unlinked _ hu.unlinked), hau.hidden⟩
    · refine (seatSetFocus_unmanaged_spec (by simpa using hv)).mono ?_
      rintro s' ⟨c, e, rfl, -⟩
      have hnot : ∀ u, ¬ (some v = some u ∧ s.views.managed u = true) := by
        rintro u ⟨hu, hm⟩
        obtain rfl := Option.some.inj hu
        exact hv hm
      refine Stays.mono ?_ (fun u hu => (hfit u hu).resolve_right (hnot u))
        fun u hu => (hlit u hu).resolve_right (hnot u)
      exact h.unchanged rfl rfl rfl rfl

theorem seatSetFocus_stays (h : s.Sound fit lit)
    (hview : ∀ v f, view = some v → s.curTile = .ok f → s.tiles.tileLive f = true →
      s.views.viewMapped v = true ∧ s.OnlyAt v f) :
    Ensures (s.seatSetFocus view) (Stays fit lit s) :=
  seatSetFocus_sound h (fun _ => .inl) (fun _ => .inl) hview

/-! ### Focusing what a tile shows -/

/-- The tiles show what they have shown. -/
structure Refocused (fit lit : ViewPtr → Prop) (s s' : Server) : Prop
    extends Stays fit lit s s' where
  tileView : s'.disp.tileView = s.disp.tileView

theorem Sound.refocused (h : s.Sound fit lit) : Refocused fit lit s s := ⟨h.stays, rfl⟩

theorem Refocused.trans (h : Refocused fit lit s s') (h' : Refocused fit' lit' s' s'') :
    Refocused fit' lit' s s'' :=
  ⟨h.toStays.trans h'.toStays, h'.tileView.trans h.tileView⟩

theorem Refocused.bind {m : Exec Server} {f : Server → Exec Server}
    (hm : Ensures m (Refocused fit lit s))
    (hf : ∀ s₁, Refocused fit lit s s₁ → Ensures (f s₁) (Refocused fit' lit' s₁)) :
    Ensures (m >>= f) (Refocused fit' lit' s) :=
  hm.bind fun s₁ h₁ => (hf s₁ h₁).mono fun _ h₂ => h₁.trans h₂

theorem emit_refocused (h : s.Sound fit lit) {e : Event} : Refocused fit lit s (s.emit e) :=
  ⟨emit_stays h, rfl⟩

/-- Focusing the view of the focused tile puts nothing into another tile. -/
theorem focusShown_tileView (ht : s.curTile = .ok t) : Ensures (s.seatSetFocus (s.disp.tileView t))
    fun s' => s'.disp.tileView = s.disp.tileView := by
  cases hv : s.disp.tileView t with
  | none =>
    refine seatSetFocus_none_spec.mono ?_
    rintro s' ⟨f, sc, c, e, hf, rfl, -⟩
    obtain rfl := Except.ok.inj (ht.symm.trans hf)
    show Function.update s.disp.tileView t none = s.disp.tileView
    rw [← hv, Function.update_eq_self]
  | some v =>
    by_cases hm : s.views.managed v = true
    · refine (seatSetFocus_managed_spec hm).mono ?_
      rintro s' ⟨w, f, V₁, V₂, sc, c, e, hw, hf, -, -, rfl, -⟩
      have hcur : s.curTile = .ok f := by rw [curTile, hw, ok_bind, hf]
      obtain rfl := Except.ok.inj (ht.symm.trans hcur)
      show Function.update s.disp.tileView t (some v) = s.disp.tileView
      rw [← hv, Function.update_eq_self]
    · refine (seatSetFocus_unmanaged_spec (by simpa using hm)).mono ?_
      rintro s' ⟨c, e, rfl, -⟩
      rfl

theorem focusShown_sound (h : s.Sound fit lit) (ht : s.curTile = .ok t)
    (hfit : ∀ v, fit' v → fit v ∨ s.disp.tileView t = some v ∧ s.views.managed v = true)
    (hlit : ∀ v, lit' v → lit v ∨ s.disp.tileView t = some v ∧ s.views.managed v = true) :
    Ensures (s.seatSetFocus (s.disp.tileView t)) (Refocused fit' lit' s) := by
  refine ((seatSetFocus_sound h hfit hlit fun v f hv hf hlive => ?_).and
    (focusShown_tileView ht)).mono fun s' hs' => ⟨hs'.1, hs'.2⟩
  obtain rfl := Except.ok.inj (ht.symm.trans hf)
  have hshows : s.Shows t v := ⟨hlive, hv⟩
  exact ⟨h.settled.mapped t v hshows, h.settled.onlyAt hshows⟩

theorem focusShown_refocused (h : s.Sound fit lit) (ht : s.curTile = .ok t) :
    Ensures (s.seatSetFocus (s.disp.tileView t)) (Refocused fit lit s) :=
  focusShown_sound h ht (fun _ => .inl) fun _ => .inl

theorem refocus_refocused (h : s.Sound fit lit) : Ensures s.refocus (Refocused fit lit s) :=
  Ensures.bind_any fun _ hf => focusShown_refocused h hf

theorem setOutput_refocused (h : s.Sound fit lit) :
    Ensures (s.setOutput o) (Refocused fit lit s) := by
  have hset : Refocused fit lit s { s with outs.currOutput := some o } :=
    ⟨h.unchanged rfl rfl rfl rfl, rfl⟩
  exact (refocus_refocused hset.sound).mono fun _ h' => hset.trans h'

theorem keybindingCycleOutputs_refocused (h : s.Sound fit lit) {reverse triggerEvent : Bool} :
    Ensures (s.keybindingCycleOutputs reverse triggerEvent) (Refocused fit lit s) := by
  refine Ensures.bind_any fun old _ => Ensures.nonNull fun o _ =>
    Refocused.bind (setOutput_refocused h) fun s₁ h₁ => Ensures.ok ?_
  cases triggerEvent with
  | false => exact h₁.sound.refocused
  | true => exact emit_refocused h₁.sound

theorem keybindingSwitchOutput_refocused (h : s.Sound fit lit) {num : ℕ} :
    Ensures (s.keybindingSwitchOutput num) (Refocused fit lit s) :=
  Ensures.bind_any fun _ _ => Ensures.ifSome (fun _ => h.refocused) fun _ _ =>
    Refocused.bind (setOutput_refocused h) fun _ h₁ => Ensures.ok (emit_refocused h₁.sound)

theorem keybindingSwitchWs_refocused (h : s.Sound fit lit) {ws : ℕ} :
    Ensures (s.keybindingSwitchWs ws) (Refocused fit lit s) := by
  refine Ensures.ite (fun _ => Ensures.ok h.refocused) fun hws => Ensures.bind_any fun o ho => ?_
  refine Ensures.bind workspaceFocus_spec fun s₁ h₁ => ?_
  rcases h₁ with ⟨-, hle⟩ | ⟨rfl, -⟩
  · exact absurd hle hws
  have hset : Refocused fit lit s { s with outs.outCurr := Function.update s.outs.outCurr o ws } :=
    ⟨h.unchanged rfl rfl rfl rfl, rfl⟩
  refine Ensures.bind_any fun w hw => Ensures.bind_any fun f hf => ?_
  have hcur : ({ s with outs.outCurr := Function.update s.outs.outCurr o ws } : Server).curTile =
      .ok f := by
    refine curTile_eq_ok.mpr ⟨o, w, nonNull_eq_ok.mp ho, ?_, hf⟩
    show Outputs.wsAt _ o (Function.update s.outs.outCurr o ws o) = .ok w
    rw [Function.update_self]
    exact hw
  refine Ensures.mono ?_ fun _ h' => hset.trans h'
  exact Refocused.bind (focusShown_refocused hset.sound hcur) fun _ h₂ =>
    Ensures.ok (emit_refocused h₂.sound)

/-- Another focused tile of a workspace. -/
theorem workspaceFocusTile_sound (h : s.Sound fit lit) :
    Ensures (s.workspaceFocusTile w t) fun s' => s'.Sound fit lit ∧ s'.disp = s.disp ∧
      s'.views = s.views := by
  refine workspaceFocusTile_spec.mono ?_
  rintro s' ⟨-, rfl⟩
  exact ⟨⟨h.links, h.settled.congr rfl rfl rfl rfl rfl rfl rfl h.settled.focus⟩, rfl, rfl⟩

/-- **`keybinding_focus_tile`** keeps lists and tiles in order, and puts in order
the tile that it focuses. -/
theorem keybindingFocusTile_sound (hwf : WellFormed False s) (h : s.Sound fit lit) {id : ℕ}
    (hfit : ∀ v, fit' v → fit v ∨ ∃ t, s.tileFromId id = .ok (some t) ∧
      s.disp.tileView t = some v ∧ s.views.managed v = true)
    (hlit : ∀ v, lit' v → lit v ∨ ∃ t, s.tileFromId id = .ok (some t) ∧
      s.disp.tileView t = some v ∧ s.views.managed v = true) :
    Ensures (s.keybindingFocusTile id) fun s' => s'.Sound fit' lit' := by
  refine (keybindingFocusTile_cases hwf).mono ?_
  rintro s' (⟨hnone, rfl⟩ | ⟨t, s₁, s₂, s₃, s₄, e, ht, hs₁, hs₂, -, hs₃, hcur, hs₄, rfl⟩)
  · have hnot : ∀ v, ¬ ∃ t, s'.tileFromId id = .ok (some t) ∧ s'.disp.tileView t = some v ∧
        s'.views.managed v = true := by
      rintro v ⟨t, ht, -⟩
      rw [hnone] at ht
      cases ht
    exact h.mono (fun v hv => (hfit v hv).resolve_right (hnot v))
      fun v hv => (hlit v hv).resolve_right (hnot v)
  · have h₁ : Refocused fit lit s s₁ := by
      rcases hs₁ with rfl | hs₁
      · exact h.refocused
      · exact setOutput_refocused h s₁ hs₁
    have h₂ : Refocused fit lit s s₂ := by
      rcases hs₂ with rfl | hs₂
      · exact h₁
      · exact h₁.trans (keybindingSwitchWs_refocused h₁.sound s₂ hs₂)
    obtain ⟨hsound₃, hdisp₃, hviews₃⟩ := workspaceFocusTile_sound h₂.sound s₃ hs₃
    -- no tile has got another view on the way
    have hshown : ∀ v, (∃ t, s.tileFromId id = .ok (some t) ∧ s.disp.tileView t = some v ∧
        s.views.managed v = true) →
        s₃.disp.tileView t = some v ∧ s₃.views.managed v = true := by
      rintro v ⟨t', ht', hv, hm⟩
      obtain rfl := Option.some.inj (Except.ok.inj (ht.symm.trans ht'))
      rw [hdisp₃, h₂.tileView, hviews₃, h₂.managed]
      exact ⟨hv, hm⟩
    refine (emit_stays (focusShown_sound hsound₃ hcur (fun v hv => ?_) (fun v hv => ?_)
      s₄ hs₄).sound).sound
    · exact (hfit v hv).imp_right (hshown v)
    · exact (hlit v hv).imp_right (hshown v)

theorem keybindingFocusTile_keepsSound (hwf : WellFormed False s) (h : s.Sound fit lit) {id : ℕ} :
    Ensures (s.keybindingFocusTile id) fun s' => s'.Sound fit lit :=
  keybindingFocusTile_sound hwf h (fun _ => .inl) fun _ => .inl

theorem keybindingCycleTiles_sound (hwf : WellFormed False s) (h : s.Sound fit lit)
    {reverse : Bool} :
    Ensures (s.keybindingCycleTiles reverse) fun s' => s'.Sound fit lit :=
  Ensures.bind_any fun _ _ => Ensures.deref fun _ => Ensures.nonNull fun _ _ =>
    Ensures.deref fun _ => keybindingFocusTile_keepsSound hwf h

/-- The neighbour that `focus_tile` goes to becomes the focused tile. -/
theorem focusTile_sound (hwf : WellFormed False s) (h : s.Sound fit lit) {dir : Direction}
    (ht : s.curTile = .ok t) : Ensures (s.focusTile dir t) fun s' => s'.Sound fit lit := by
  refine Ensures.bind_any fun next hnext => Ensures.ifSome (fun _ => h) fun n hn => ?_
  refine Ensures.bind_any fun s₁ hs₁ => ?_
  obtain ⟨hsound₁, -⟩ := workspaceFocusTile_sound h s₁ hs₁
  obtain ⟨o, w, ho, hw, hf⟩ := curTile_eq_ok.mp ht
  have htw : s.tiles.tileWorkspace t = w := (hwf.tiles.focused_mem (by simp) hf).2.2
  have hcurWs : s.outs.curWs = .ok (s.tiles.tileWorkspace t) := by
    rw [htw, Outputs.curWs, Outputs.curOut, nonNull_eq_ok.mpr ho, ok_bind, hw]
  have hcur := workspaceFocusTile_curTile hcurWs hs₁
  exact (focusShown_refocused hsound₁ hcur).mono fun _ h₂ => h₂.sound

end Server

end Cagebreak
