/-
What commands do to the tiles and the views they show.

Every command keeps lists and tiles in order, as long as it does not put a view
into a second tile, draws the views of the tiles it changes, and disables what it
hides.  What has to hold before a command for that is a hypothesis of its lemma.
-/
import Cagebreak.Shown

namespace Cagebreak

open Exec

namespace Server

open Views

variable {s s' s'' : Server} {t t' f m : TilePtr} {u v : ViewPtr} {w : WsPtr} {o : OutPtr}
  {view : Option ViewPtr} {fit lit fit' lit' : ViewPtr → Prop}

/-! ### Searching lists -/

/-- The view is in a list. -/
def Listed (s : Server) (v : ViewPtr) : Prop := ¬ s.views.links.Unlinked (.view v)

theorem Sound.mapped_of_listed (h : s.Sound fit lit) (hv : s.Listed v) :
    s.views.viewMapped v = true := by
  by_contra hm
  exact hv (h.links.ready (.view v) hm)

/-- What a search finds is in a list. -/
theorem findView_listed (h : s.Sound fit lit) {step : Node → Option Node} {p : ViewPtr → Exec Bool}
    {n : Node} (hstep : ∀ a b, step a = some b →
      s.views.links.next a = some b ∨ s.views.links.prev a = some b) :
    Ensures (s.findView step n p) fun found =>
      ∀ v, found = some v → s.Listed v ∧ p v = .ok true := by
  refine Ensures.bind_any fun found hfound => Ensures.ifSome nofun fun x hx => ?_
  subst hx
  obtain ⟨htest, -, hlink⟩ := DLinks.findNode_some hfound
  obtain ⟨a, ha⟩ : ∃ a, step a = some x := hlink.elim (fun e => ⟨n, e⟩) id
  cases x with
  | head managed w => exact Ensures.bind_any fun u hu => nomatch hu
  | view u =>
    refine Ensures.ok fun v hv => ?_
    obtain rfl : u = v := Option.some.inj hv
    refine ⟨fun hun => ?_, htest⟩
    exact (h.links.paired.ne_of_unlinked hun (hstep a _ ha)).2 rfl

theorem viewFromId_listed (h : s.Sound fit lit) {id : ℕ} : Ensures (s.viewFromId id) fun found =>
    ∀ v, found = some v → s.Listed v :=
  viewFromId_ensures fun _ => (findView_listed h fun _ _ hab => .inl hab).mono
    fun _ hfound v hv => (hfound v hv).1

theorem viewGetPrevView_listed (h : s.Sound fit lit) :
    Ensures (s.viewGetPrevView v) fun found => ∀ u, found = some u →
      s.Listed u ∧ s.viewIsVisible u = .ok false := by
  refine Ensures.bind_any fun w _ => Ensures.bind_any fun found hfound =>
    Ensures.ifSome nofun fun n hn => ?_
  subst hn
  obtain ⟨htest, -, hlink⟩ := DLinks.findNode_some hfound
  obtain ⟨a, ha⟩ : ∃ a, s.views.links.prev a = some n := hlink.elim (fun e => ⟨.view v, e⟩) id
  cases n with
  | head managed w' => exact Ensures.bind_any fun u hu => nomatch hu
  | view u =>
    refine Ensures.ok fun u' hu => ?_
    obtain rfl : u = u' := Option.some.inj hu
    refine ⟨fun hun => (h.links.paired.ne_of_unlinked hun (.inr ha)).2 rfl, ?_⟩
    rw [if_neg nofun] at htest
    obtain ⟨x, hx, htest⟩ := bind_eq_ok.mp htest
    obtain rfl := Except.ok.inj hx
    obtain ⟨vis, hvis, hnot⟩ := bind_eq_ok.mp htest
    cases vis with
    | false => exact hvis
    | true => cases hnot

/-- The view that `keybinding_cycle_views` goes on to is listed and hidden. -/
theorem cycleTarget_listed (h : s.Sound fit lit) {viewId : ℕ} {reverse : Bool} :
    Ensures (s.cycleTarget w viewId reverse) fun found => ∀ v, found = some v →
      s.Listed v ∧ s.viewIsVisible v = .ok false := by
  refine Ensures.ite (fun _ => ?_) fun _ => ?_
  · have hstep : ∀ a b, (if reverse then s.views.links.next else s.views.links.prev) a = some b →
        s.views.links.next a = some b ∨ s.views.links.prev a = some b := by
      intro a b hab
      cases reverse with
      | true => exact .inl hab
      | false => exact .inr hab
    refine (findView_listed h hstep).mono fun found hfound v hv => ?_
    obtain ⟨hlisted, htest⟩ := hfound v hv
    obtain ⟨vis, hvis, hnot⟩ := bind_eq_ok.mp htest
    cases vis with
    | false => exact ⟨hlisted, hvis⟩
    | true => cases hnot
  · refine Ensures.bind (viewFromId_listed h) fun found hfound =>
      Ensures.ifSome nofun fun v hv => ?_
    refine Ensures.bind_any fun vis hvis => ?_
    cases vis with
    | true => exact Ensures.ok nofun
    | false =>
      refine Ensures.ok fun u hu => ?_
      obtain rfl : v = u := Option.some.inj hu
      exact ⟨hfound v hv, hvis⟩

/-! ### Cycling through views -/

/-- A view that is listed and hidden may be put into any tile. -/
theorem Sound.free (h : s.Sound fit lit) (hlisted : s.Listed v)
    (hvis : s.viewIsVisible v = .ok false) : s.views.viewMapped v = true ∧ s.OnlyAt v t := by
  refine ⟨h.mapped_of_listed hlisted, fun t' ht' => ?_⟩
  exact absurd ht' ((h.settled.hidden hvis).2 t')

theorem Listed.not_loose (hv : s.Listed v) : ∀ u, s.Loose u → some v ≠ some u := by
  rintro u hu e
  obtain rfl := Option.some.inj e
  exact hv hu.unlinked

/-- `seat_set_focus` changes what the focused tile shows, and no other tile. -/
theorem seatSetFocus_tileView : Ensures (s.seatSetFocus view) fun s' =>
    ∀ t, s.curTile ≠ .ok t → s'.disp.tileView t = s.disp.tileView t := by
  cases view with
  | none =>
    refine seatSetFocus_none_spec.mono ?_
    rintro s' ⟨f, sc, c, e, hf, rfl, -⟩ t ht
    have htf : t ≠ f := fun e => ht (e ▸ hf)
    simp [htf]
  | some v =>
    by_cases hm : s.views.managed v = true
    · refine (seatSetFocus_managed_spec hm).mono ?_
      rintro s' ⟨w, f, V₁, V₂, sc, c, e, hw, hf, -, -, rfl, -⟩ t ht
      have hcur : s.curTile = .ok f := by rw [curTile, hw, ok_bind, hf]
      have htf : t ≠ f := fun e => ht (e ▸ hcur)
      simp [htf]
    · refine (seatSetFocus_unmanaged_spec (by simpa using hm)).mono ?_
      rintro s' ⟨c, e, rfl, -⟩ t -
      rfl

/-- **`keybinding_cycle_views`** keeps lists and tiles in order, and changes what
one tile shows at most. -/
theorem keybindingCycleViews_stays (h : s.Sound fit lit) {tile : Option TilePtr} {viewId : ℕ}
    {reverse ipc : Bool} : Ensures (s.keybindingCycleViews tile viewId reverse ipc) fun s' =>
      Stays fit lit s s' ∧ ∃ t, tile.elim s.curTile .ok = .ok t ∧
        (∀ t', t' ≠ t → s'.disp.tileView t' = s.disp.tileView t') ∧
        ((∀ found, s.cycleTarget (s.tiles.tileWorkspace t) viewId reverse = .ok found →
          found = none) → s' = s) := by
  refine Ensures.bind_any fun t ht => Ensures.deref fun _ => ?_
  refine Ensures.bind_any fun next hnext => Ensures.ifSome ?_ fun v hv => ?_
  · exact fun _ => ⟨h.stays, t, ht, fun _ _ => rfl, fun _ => rfl⟩
  subst hv
  obtain ⟨hlisted, hvis⟩ := cycleTarget_listed h _ hnext v rfl
  have hsome : ∀ {P : Prop}, (∀ found, s.cycleTarget (s.tiles.tileWorkspace t) viewId reverse =
      .ok found → found = none) → P :=
    fun hnone => nomatch hnone _ hnext
  have hput : ∀ u, some v = some u → s.views.viewMapped u = true ∧ s.OnlyAt u t := by
    rintro u ⟨⟩
    exact h.free hlisted hvis
  refine Ensures.bind (workspaceTileUpdateView_stays h (fun _ => hput) hlisted.not_loose) ?_
  rintro s₁ ⟨ha, h₁⟩
  have htile₁ : ∀ t', t' ≠ t → s₁.disp.tileView t' = s.disp.tileView t' := by
    intro t' ht'
    rw [ha.eq]
    exact Function.update_of_ne ht' _ _
  refine Ensures.bind_any fun f hf => ?_
  refine Ensures.bind (P := fun s₂ => Stays fit lit s s₂ ∧
    ∀ t', t' ≠ t → s₂.disp.tileView t' = s.disp.tileView t') ?_ ?_
  · refine Ensures.ite (fun htf => ?_) fun _ => Ensures.ok ⟨h₁, htile₁⟩
    -- the view of the focused tile gets the focus
    subst htf
    refine ((seatSetFocus_stays h₁.sound ?_).and seatSetFocus_tileView).mono ?_
    · rintro u f' ⟨⟩ hf' -
      obtain rfl := Except.ok.inj (hf.symm.trans hf')
      have hmap : s₁.views.viewMapped v = true := by
        rw [h₁.viewMapped]
        exact (hput v rfl).1
      refine ⟨hmap, h₁.sound.settled.onlyAt (ha.shows_iff.mpr (.inl ⟨rfl, rfl⟩))⟩
    · rintro s₂ ⟨h₂, htile₂⟩
      refine ⟨h₁.trans h₂, fun t' ht' => ?_⟩
      rw [htile₂ t' fun e => ht' (Except.ok.inj (hf.symm.trans e)).symm]
      exact htile₁ t' ht'
  · rintro s₂ ⟨h₂, htile₂⟩
    refine Ensures.ite (fun _ => emitCycleViews_spec.mono ?_) fun _ =>
      Ensures.ok ⟨h₂, t, ht, htile₂, hsome⟩
    rintro s₃ ⟨e, rfl⟩
    exact ⟨h₂.trans (emit_stays h₂.sound), t, ht, htile₂, hsome⟩

/-! ### Boxes of tiles -/

/-- The tile has got another box, and a tile that shows nothing may be gone. -/
theorem Sound.rebox (h : s.Sound fit lit) {T : Tiles} (hviews : s'.views = s.views)
    (htiles : s'.tiles = T) (hdisp : s'.disp = s.disp) (hscene : s'.scene = s.scene)
    (htop : T.wsTop = s.tiles.wsTop) (hshows : ∀ t v, s'.Shows t v ↔ s.Shows t v)
    (hbox : ∀ t', t' ≠ t → T.tileBox t' = s.tiles.tileBox t') :
    s'.Sound (fun v => fit v ∧ s.disp.tileView t ≠ some v) lit := by
  constructor
  · rw [hviews, htiles, htop]
    exact h.links
  · refine h.settled.retile hshows (fun _ hv => hv.1) (fun t' v hv hold => ?_) ?_ hscene ?_ ?_ ?_
    · rw [htiles]
      exact hbox t' fun e => hv.2 (e ▸ hold.2)
    · rw [hdisp]
    · rw [hviews]
    · rw [hviews]
    · rw [hdisp]
      exact h.settled.focus

/-- **`view_maximize`** draws a view that no other tile shows. -/
theorem viewMaximize_stays (h : s.Sound fit' lit) (hfit : ∀ u, fit u → fit' u ∨ u = v)
    (hv : s.OnlyAt v t) : Ensures (s.viewMaximize v t) fun s' =>
      Stays fit lit s s' ∧ s'.disp.tileView = s.disp.tileView ∧
        s'.disp.focusedView = s.disp.focusedView := by
  refine viewMaximize_scene.mono ?_
  rintro s' ⟨-, heq, hfits, hen, hsize, hpos⟩
  have htiles : s'.tiles = s.tiles := by rw [heq]
  have hviews : s'.views = s.views := by rw [heq]
  have htileView : s'.disp.tileView = s.disp.tileView := by rw [heq]
  have hfocused : s'.disp.focusedView = s.disp.focusedView := by rw [heq]
  have hshows : ∀ t' u, s'.Shows t' u ↔ s.Shows t' u := by
    intro t' u
    rw [Shows, Shows, htiles, htileView]
  refine ⟨⟨⟨?_, ?_, ?_, ?_, ?_, ?_⟩, htiles, by rw [hviews], fun u hu => ⟨?_, ?_⟩⟩, htileView,
    hfocused⟩
  · rw [hviews, htiles]
    exact h.links
  · intro t' u hu
    have hold := (hshows t' u).mp hu
    rw [heq]
    by_cases huv : u = v
    · subst huv
      rw [hv t' hold]
      exact Function.update_self _ _ _
    · refine (Function.update_of_ne huv _ _).trans ?_
      exact h.settled.tile t' u hold
  · intro t' u hu
    rw [hviews]
    exact h.settled.mapped t' u ((hshows t' u).mp hu)
  · intro u hu
    rw [hviews]
    rw [hfocused] at hu
    exact h.settled.focus u hu
  -- `v` is drawn anew, and no other view is
  · intro t' u hu hshown
    have hold := (hshows t' u).mp hshown
    by_cases huv : u = v
    · subst huv
      rw [hv t' hold]
      exact hfits
    · have hfits' := h.settled.fits t' u ((hfit u hu).resolve_right huv) hold
      refine ⟨?_, ?_⟩
      · rw [hsize u huv, htiles]
        exact hfits'.size
      · rw [hpos u huv, htiles]
        exact hfits'.pos
  · intro u hu hm hmap
    rw [managed, hviews] at hm
    rw [hviews] at hmap
    rw [hen, h.settled.enabled u hu hm hmap]
    exact exists_congr fun t' => (hshows t' u).symm
  · rw [hviews]
    exact hu.unlinked
  · intro t' ht'
    exact hu.hidden t' ((hshows t' u).mp ht')

/-- Drawing what a tile shows. -/
theorem maximizeShown_sound (hview : s.disp.tileView t = view)
    (h : s.Sound (fun v => fit v ∧ view ≠ some v) lit) :
    Ensures (Exec.ifSome view s fun v => s.viewMaximize v t) fun s' => s'.Sound fit lit := by
  refine Ensures.ifSome (fun hnone => ?_) fun v hv => ?_
  · subst hnone
    exact h.mono (fun v hv => ⟨hv, nofun⟩) fun _ => id
  · intro s' hs'
    -- only a tile that is there is drawn
    obtain ⟨_, hlive, -⟩ := bind_eq_ok.mp hs'
    have hshows : s.Shows t v := ⟨deref_eq_ok.mp hlive, hview.trans hv⟩
    refine (viewMaximize_stays h (fun u hu => ?_) (h.settled.onlyAt hshows) s' hs').1.sound
    by_cases huv : u = v
    · exact .inr huv
    · refine .inl ⟨hu, fun e => huv ?_⟩
      exact (Option.some.inj (hv.symm.trans e)).symm

/-- Emptying a tile. -/
theorem clearTile_stays (h : s.Sound fit lit) : Ensures (s.workspaceTileUpdateView t none)
    fun s' => Assigned s t none s' ∧ Stays fit lit s s' :=
  workspaceTileUpdateView_stays h (fun _ => nofun) fun _ _ => nofun

/-! ### Merging, swapping and resizing -/

/-- **`merge_tile`** draws the view of the tile that grows, and hides that of the
tile that is absorbed. -/
theorem mergeTile_sound (h : s.Sound fit lit) {dir : Direction} :
    Ensures (s.mergeTile dir t) fun s' => s'.Sound fit lit := by
  refine Ensures.bind_any fun found _ => Ensures.ifSome (fun _ => h) fun m _ =>
    Ensures.ite (fun _ => Ensures.ok h) fun _ => ?_
  refine Ensures.bind (clearTile_stays h) ?_
  rintro s₁ ⟨ha, h₁⟩
  have hempty : s₁.disp.tileView m = none := by
    rw [ha.eq]
    exact Function.update_self _ _ _
  refine Ensures.nonNull fun p _ => Ensures.nonNull fun n _ => ?_
  refine Ensures.bind (maximizeShown_sound rfl (h₁.sound.rebox (t := t) rfl rfl rfl rfl rfl
    (fun t' v => ?_) fun t' ht' => ?_)) fun s₂ h₂ => ?_
  · by_cases htm : t' = m
    · subst htm
      simp [Shows, hempty]
    · simp [Shows, htm]
  · exact Function.update_of_ne ht' _ _
  · refine Ensures.bind_any fun place _ => ?_
    obtain ⟨ws, output, outputId⟩ := place
    exact Ensures.ok (emit_stays h₂).sound

/-- **`swap_tiles`** keeps lists and tiles in order. -/
theorem swapTiles_sound (hwf : WellFormed False s) (h : s.Sound fit lit)
    {tile swapTile : Option TilePtr} {follow : Bool} :
    Ensures (s.swapTiles tile swapTile follow) fun s' => s'.Sound fit lit := by
  unfold swapTiles
  split
  · next a b =>
    refine Ensures.ite (fun _ => Ensures.ok h) fun hab => Ensures.deref fun hlive => ?_
    obtain ⟨hlivea, hliveb⟩ := Bool.and_eq_true_iff.mp hlive
    -- both views are taken out of their tiles before they are put into the other one
    refine Ensures.bind ((clearTile_stays h).and workspaceTileUpdateView_keeps) ?_
    rintro s₁ ⟨⟨ha₁, h₁⟩, hk₁⟩
    refine Ensures.bind ((workspaceTileUpdateView_sound h₁.sound (fun _ => .inl) (fun _ => .inl)
      fun _ v hv => ⟨?_, fun t' ht' => ?_⟩).and workspaceTileUpdateView_keeps) ?_
    · rw [h₁.viewMapped]
      exact h.settled.mapped a v ⟨hlivea, hv⟩
    · rcases ha₁.shows_iff.mp ht' with ⟨-, he⟩ | ⟨hta, ht'⟩
      · cases he
      · exact absurd (h.settled.onlyAt ⟨hlivea, hv⟩ t' ht') hta
    rintro s₂ ⟨⟨ha₂, h₂⟩, hk₂⟩
    refine Ensures.bind ((workspaceTileUpdateView_sound h₂ (fun _ => .inl) (fun _ => .inl)
      fun _ v hv => ⟨?_, fun t' ht' => ?_⟩).and workspaceTileUpdateView_keeps) ?_
    · rw [show s₂.views = s₁.views by rw [ha₂.eq], h₁.viewMapped]
      exact h.settled.mapped b v ⟨hliveb, hv⟩
    · rcases ha₂.shows_iff.mp ht' with ⟨-, he⟩ | ⟨htb, ht'⟩
      · exact absurd (h.settled.onlyAt ⟨hliveb, hv⟩ a ⟨hlivea, he⟩) hab
      · rcases ha₁.shows_iff.mp ht' with ⟨-, he⟩ | ⟨hta, ht'⟩
        · cases he
        · exact absurd (h.settled.onlyAt ⟨hliveb, hv⟩ t' ht') htb
    rintro s₃ ⟨⟨-, h₃⟩, hk₃⟩
    have hwf₃ := ((hk₁.trans hk₂).trans hk₃).wellFormed hwf
    refine Ensures.bind (Ensures.ite (fun _ => keybindingFocusTile_keepsSound hwf₃ h₃) fun _ =>
      (refocus_refocused h₃).mono fun _ h₄ => h₄.sound) fun s₄ h₄ => ?_
    refine Ensures.bind_any fun place _ => ?_
    obtain ⟨ws, output, outputId⟩ := place
    exact Ensures.ok (emit_stays h₄).sound
  · exact Ensures.ok h

theorem swapTile_sound (hwf : WellFormed False s) (h : s.Sound fit lit) {tileId : ℕ}
    {dir : Direction} {follow : Bool} :
    Ensures (s.swapTile tileId dir follow) fun s' => s'.Sound fit lit :=
  Ensures.bind_any fun _ _ => Ensures.ifSome (fun _ => h) fun _ _ => Ensures.bind_any fun _ _ =>
    swapTiles_sound hwf h

/-- **`resize`** draws the view of every tile it changes. -/
theorem resize_sound {a : Axis} {orig tile : TilePtr} {parent : Option TilePtr} {n : ℕ}
    {coordOffset dimOffset : ℤ} (h : s.Sound fit lit) :
    Ensures (resize a orig n s tile parent coordOffset dimOffset) fun s' => s'.Sound fit lit := by
  induction n generalizing s tile parent coordOffset dimOffset with
  | zero => exact Ensures.error
  | succ n ih =>
    refine Ensures.ite (fun _ => Ensures.ok h) fun _ => Ensures.bind_any fun its hits => ?_
    refine Ensures.bind (Ensures.foldlM (fun s₁ it _ h₁ => ?_) h) fun s₁ h₁ => ?_
    · refine Ensures.ite (fun _ => Ensures.ok h₁) fun _ => ?_
      cases handedOn s₁.tiles a tile it coordOffset dimOffset with
      | none => exact Ensures.ok h₁
      | some cd => exact ih h₁
    · refine Ensures.bind (maximizeShown_sound rfl (h₁.rebox (t := tile) rfl rfl rfl rfl rfl
        (fun _ _ => Iff.rfl) fun t' ht' => ?_)) fun s₂ h₂ => ?_
      · exact Function.update_of_ne ht' _ _
      · refine Ensures.bind_any fun place _ => ?_
        obtain ⟨ws, output, outputId⟩ := place
        exact Ensures.ok (emit_stays h₂).sound

theorem resizeAlong_sound (h : s.Sound fit lit) {a : Axis} {pixs : ℤ} :
    Ensures (s.resizeAlong a o t pixs) fun s' => s'.Sound fit lit :=
  Ensures.deref fun _ => Ensures.ite (fun _ => Ensures.bind_any fun _ _ =>
    Ensures.ite (fun _ => resize_sound h) fun _ => Ensures.ok h) fun _ => Ensures.ok h

theorem resizeTile_sound (h : s.Sound fit lit) {hpixs vpixs : ℤ} {tileId : ℕ} :
    Ensures (s.resizeTile hpixs vpixs tileId) fun s' => s'.Sound fit lit :=
  Ensures.bind_any fun _ _ => Ensures.bind_any fun _ _ => Ensures.bind_any fun _ _ =>
    Ensures.ifSome (fun _ => h) fun _ _ => Ensures.bind (resizeAlong_sound h) fun _ h₁ =>
      resizeAlong_sound h₁

/-! ### Splitting -/

/-- A new tile shows nothing yet. -/
theorem shows_newTile (hlt : ∀ t : ℕ, s.tiles.tileLive t = true → t < s.tiles.tileTop) {T : Tiles}
    (hlive : T.tileLive = Function.update s.tiles.tileLive s.tiles.tileTop true) :
    ({ s with tiles := T, disp.tileView := Function.update s.disp.tileView s.tiles.tileTop none } :
      Server).Shows t v ↔ s.Shows t v := by
  by_cases ht : t = s.tiles.tileTop
  · refine iff_of_false ?_ fun hv => ?_
    · simp [Shows, ht]
    · exact lt_irrefl _ (ht ▸ hlt t hv.1)
  · simp [Shows, hlive, ht]

theorem Sound.newTile (h : s.Sound fit' lit)
    (hlt : ∀ t : ℕ, s.tiles.tileLive t = true → t < s.tiles.tileTop) {T : Tiles}
    (hlive : T.tileLive = Function.update s.tiles.tileLive s.tiles.tileTop true)
    (htop : T.wsTop = s.tiles.wsTop) (hfit : ∀ v, fit v → fit' v)
    (hbox : ∀ t v, fit v → s.Shows t v → t ≠ s.tiles.tileTop → T.tileBox t = s.tiles.tileBox t) :
    ({ s with tiles := T, disp.tileView := Function.update s.disp.tileView s.tiles.tileTop none } :
      Server).Sound fit lit := by
  refine ⟨?_, h.settled.retile (fun _ _ => shows_newTile hlt hlive) hfit (fun t v hv hold => ?_) rfl
    rfl rfl rfl h.settled.focus⟩
  · show s.views.LinksInv T.wsTop
    rw [htop]
    exact h.links
  · exact hbox t v hv hold fun e => lt_irrefl _ (e ▸ hlt t hold.1)

/-- The tile is large enough for the split. -/
def Splits (s : Server) (vertical : Bool) (percentage : Percentage) (t : TilePtr) : Prop :=
  let a : Axis := if vertical then .horizontal else .vertical
  1 ≤ percentage ((s.tiles.tileBox t).dim a) ∧ 1 ≤ (s.tiles.tileBox t).dim a.compl

/-- What holds of a split that draws the right view: the focused view is shown by no
tile but the focused one, and if that tile shows a view, it is the focused view. -/
structure SplitsFocused (fit : ViewPtr → Prop) (s : Server) (vertical : Bool)
    (percentage : Percentage) : Prop where
  here : ∀ f v, s.curTile = .ok f → s.Splits vertical percentage f → s.disp.focusedView = some v →
    s.OnlyAt v f
  draws : ∀ f v, s.curTile = .ok f → s.Splits vertical percentage f → fit v →
    s.disp.tileView f = some v → s.disp.focusedView = some v

/-- **`keybinding_split_output`** draws the focused view in the tile that has been
split, and so it has to be the one that the tile shows. -/
theorem keybindingSplitOutput_sound (hwf : WellFormed False s) (h : s.Sound fit lit)
    {vertical : Bool} {percentage : Percentage} (ho : s.outs.currOutput = some o)
    (hsplit : s.SplitsFocused fit vertical percentage) :
    Ensures (s.keybindingSplitOutput o vertical percentage) fun s' => s'.Sound fit lit := by
  refine Ensures.bind_any fun w hw => Ensures.bind_any fun f hf => Ensures.deref fun _ =>
    Ensures.ite (fun _ => Ensures.ok h) fun hlarge => ?_
  have hcur : s.curTile = .ok f := curTile_eq_ok.mpr ⟨o, w, ho, hw, hf⟩
  have hlarge' : s.Splits vertical percentage f := by
    rw [not_or, not_lt, not_lt] at hlarge
    exact hlarge
  refine Ensures.bind_any fun nextView hnext => Ensures.nonNull fun c _ => ?_
  have hnext' : ∀ v, nextView = some v →
      s.Listed v ∧ s.viewIsVisible v = .ok false ∧ s.disp.focusedView ≠ some v := by
    intro v hv
    obtain ⟨hlisted, htest⟩ := findView_listed h (fun _ _ hab => .inl hab) _ hnext v hv
    obtain ⟨vis, hvis, htest⟩ := bind_eq_ok.mp htest
    have htest' := Except.ok.inj htest
    rw [Bool.and_eq_true] at htest'
    refine ⟨hlisted, ?_, of_decide_eq_true htest'.2⟩
    cases vis with
    | false => exact hvis
    | true => cases htest'.1
  -- the box of the focused tile changes before its view is drawn
  refine Ensures.bind (workspaceTileUpdateView_sound (@Sound.newTile s
    (fun v => fit v ∧ s.disp.tileView f ≠ some v) lit fit h hwf.tiles.tile_lt _ rfl rfl
    (fun _ hv => hv.1) fun t' v hv hold ht' => ?_) (fun _ => .inl) (fun _ => .inl)
    fun _ v hv => ⟨h.mapped_of_listed (hnext' v hv).1, fun t' ht' => ?_⟩) ?_
  · have htf : t' ≠ f := fun e => hv.2 (e ▸ hold.2)
    simp [htf, ht']
  · exact absurd ((shows_newTile hwf.tiles.tile_lt rfl).mp ht')
      ((h.settled.hidden (hnext' v hv).2.1).2 t')
  rintro s₂ ⟨ha, hsound₂⟩
  refine Ensures.bind ((workspaceFocusTile_sound hsound₂).and workspaceFocusTile_spec) ?_
  rintro s₃ ⟨⟨hsound₃, -⟩, -, rfl⟩
  refine Ensures.bind (P := fun s₄ => s₄.Sound (fun v => fit v ∧ s.disp.tileView f ≠ some v) lit ∧
    ∀ t' v, s₄.Shows t' v ↔ s₂.Shows t' v) ?_ ?_
  · refine Ensures.ifSome (fun _ => ⟨hsound₃, fun _ _ => Iff.rfl⟩) fun v hv => ?_
    have hshown : s₂.Shows s.tiles.tileTop v := ha.shows_iff.mpr (.inl ⟨rfl, hv⟩)
    refine (viewMaximize_stays hsound₃ (fun _ => .inl) (hsound₃.settled.onlyAt hshown)).mono ?_
    rintro s₄ ⟨h₄, htile₄, -⟩
    refine ⟨h₄.sound, fun t' u => ?_⟩
    rw [Shows, h₄.tiles, htile₄]
    rfl
  rintro s₄ ⟨hsound₄, hshows₄⟩
  refine Ensures.bind (P := fun s₅ => s₅.Sound fit lit) ?_ fun s₅ h₅ => ?_
  · refine Ensures.ifSome (fun hnone => ?_) fun v hv => ?_
    · refine hsound₄.mono (fun v hv => ⟨hv, fun he => ?_⟩) fun _ => id
      exact absurd (hnone.symm.trans (hsplit.draws f v hcur hlarge' hv he)) (by simp)
    · refine (viewMaximize_stays hsound₄ (fun u hu => ?_) fun t' ht' => ?_).mono
        fun _ h' => h'.1.sound
      · by_cases huf : s.disp.tileView f = some u
        · exact .inr (Option.some.inj ((hsplit.draws f u hcur hlarge' hu huf).symm.trans hv))
        · exact .inl ⟨hu, huf⟩
      · rcases ha.shows_iff.mp ((hshows₄ t' v).mp ht') with ⟨-, he⟩ | ⟨-, hold⟩
        · exact absurd hv (hnext' v he).2.2
        · exact hsplit.here f v hcur hlarge' hv t' ((shows_newTile hwf.tiles.tile_lt rfl).mp hold)
  · refine Ensures.bind_any fun place _ => ?_
    obtain ⟨ws, output, outputId⟩ := place
    exact Ensures.ok (emit_stays h₅).sound

/-! ### Full screen workspaces -/

/-- The view is linked in the list of managed views of the workspace. -/
def InListOf (s : Server) (w : WsPtr) (v : ViewPtr) : Prop :=
  s.views.links.Connected (.head true w) (.view v)

/-- The views a loop over a list visits. -/
theorem viewsOf_inListOf {l : List ViewPtr} (hl : s.viewsOf (.head true w) = .ok l) :
    ∀ v ∈ l, s.InListOf w v := by
  obtain ⟨ns, hns, hmap⟩ := bind_eq_ok.mp hl
  have hnodes : ∀ n ∈ ns, s.views.links.Connected (.head true w) n :=
    DLinks.collect_along hns (fun b hb => .single (.inl hb)) fun b c hb hbc => hb.tail (.inl hbc)
  clear hl hns
  induction ns generalizing l with
  | nil =>
    obtain rfl := Except.ok.inj hmap
    exact fun v hv => absurd hv List.not_mem_nil
  | cons n ns ih =>
    rw [List.mapM_cons] at hmap
    obtain ⟨u, hu, hmap⟩ := bind_eq_ok.mp hmap
    obtain ⟨us, hus, hmap⟩ := bind_eq_ok.mp hmap
    obtain rfl := Except.ok.inj hmap
    intro v hv
    rcases List.mem_cons.mp hv with rfl | hv
    · have hn := hnodes n List.mem_cons_self
      cases n with
      | head managed w' => exact nomatch hu
      | view v' =>
        obtain rfl : v' = v := Except.ok.inj hu
        exact hn
    · exact ih hus (fun n hn => hnodes n (List.mem_cons_of_mem _ hn)) v hv

/-- Freeing tiles takes what they show out of sight, but does not hide it. -/
theorem workspaceFreeTiles_sound (hwf : s.tiles.TilesInv False none) (h : s.Sound fit lit)
    (hlit : ∀ v, lit' v → lit v)
    (hkeep : ∀ t v, lit' v → s.Shows t v → s.tiles.tileWorkspace t ≠ w) :
    Ensures (s.workspaceFreeTiles w) fun s' => s'.Sound fit lit' ∧ s'.views = s.views ∧
      s'.disp = s.disp ∧ ∀ t v, s'.Shows t v ↔ s.Shows t v ∧ s.tiles.tileWorkspace t ≠ w := by
  refine (workspaceFreeTiles_spec hwf).mono ?_
  rintro s' ⟨-, c, T', rfl, hfreed, -⟩
  have hshows : ∀ t v, ({ s with cursorTile := c, tiles := T' } : Server).Shows t v ↔
      s.Shows t v ∧ s.tiles.tileWorkspace t ≠ w := by
    intro t v
    rw [Shows, Shows, hfreed.tileLive]
    exact and_right_comm
  refine ⟨⟨?_, ?_, ?_, ?_, ?_, ?_⟩, rfl, rfl, hshows⟩
  · show s.views.LinksInv T'.wsTop
    rw [hfreed.wsTop]
    exact h.links
  · exact fun t v hv => h.settled.tile t v ((hshows t v).mp hv).1
  · exact fun t v hv => h.settled.mapped t v ((hshows t v).mp hv).1
  · exact h.settled.focus
  · intro t v hv hshown
    have hfits := h.settled.fits t v hv ((hshows t v).mp hshown).1
    refine ⟨?_, ?_⟩
    · show _ = ((T'.tileBox t).width, (T'.tileBox t).height)
      rw [hfreed.tileBox]
      exact hfits.size
    · show _ = ((T'.tileBox t).x, (T'.tileBox t).y)
      rw [hfreed.tileBox]
      exact hfits.pos
  · intro v hv hm hmap
    refine (h.settled.enabled v (hlit v hv) hm hmap).trans (exists_congr fun t => ?_)
    rw [hshows]
    exact (and_iff_left_of_imp fun hold => hkeep t v hv hold).symm

/-- A workspace gets a tile that shows nothing. -/
theorem fullScreenWorkspaceTiles_sound
    (hlt : ∀ t : ℕ, s.tiles.tileLive t = true → t < s.tiles.tileTop) (h : s.Sound fit lit) :
    Ensures (s.fullScreenWorkspaceTiles w) fun s' => s'.Sound fit lit ∧
      s'.views = s.views ∧ s'.disp.focusedView = s.disp.focusedView ∧
      ∀ t v, s'.Shows t v ↔ s.Shows t v := by
  refine Ensures.deref fun _ => ?_
  refine Ensures.mono (@clearTile_stays _ s.tiles.tileTop fit lit ?_) ?_
  · exact h.newTile hlt rfl rfl (fun _ => id) fun t v _ _ ht => by simp [ht]
  · rintro s' ⟨ha, h'⟩
    refine ⟨h'.sound, by rw [ha.eq], by rw [ha.eq]; rfl, fun t v => ?_⟩
    rw [ha.shows_iff, shows_newTile hlt rfl]
    refine ⟨fun hv => hv.elim (fun e => nomatch e.2) And.right, fun hv => .inr ⟨?_, hv⟩⟩
    exact fun e => lt_irrefl _ (e ▸ hlt t hv.1)

/-- A hidden view may point at any tile. -/
theorem setViewTile_sound (h : s.Sound fit lit) (hv : ∀ t, ¬ s.Shows t v) {tile : Option TilePtr} :
    (s.setViewTile v tile).Sound fit lit := by
  refine ⟨h.links, ⟨fun t u hu => ?_, h.settled.mapped, h.settled.focus, fun t u hu hshown =>
    ⟨(h.settled.fits t u hu hshown).size, (h.settled.fits t u hu hshown).pos⟩, h.settled.enabled⟩⟩
  have huv : u ≠ v := by
    rintro rfl
    exact hv t hu
  refine (Function.update_of_ne huv _ _).trans ?_
  exact h.settled.tile t u hu

theorem pointViewsAt_sound {l : List ViewPtr} (h : s.Sound fit lit)
    (hl : ∀ v ∈ l, ∀ t, ¬ s.Shows t v) : (s.pointViewsAt l t).Sound fit lit ∧
      (s.pointViewsAt l t).views = s.views ∧
      ∀ t' v, (s.pointViewsAt l t).Shows t' v ↔ s.Shows t' v := by
  unfold pointViewsAt
  induction l generalizing s with
  | nil => exact ⟨h, rfl, fun _ _ => Iff.rfl⟩
  | cons v l ih =>
    exact ih (setViewTile_sound h (hl v List.mem_cons_self)) fun u hu =>
      hl u (List.mem_cons_of_mem _ hu)

/-- What holds of a workspace that is made full screen, if no view is to be shown twice
or forgotten: what is in its list is shown by its own tiles only, and these show no
other view than the one that is kept. -/
structure MakesFullscreen (lit : ViewPtr → Prop) (s : Server) (o : OutPtr) (ws : ℕ) : Prop where
  list : ∀ w t v, s.outs.wsAt o ws = .ok w → s.InListOf w v → s.Shows t v →
    s.tiles.tileWorkspace t = w
  keeps : ∀ w f t v, s.outs.wsAt o ws = .ok w → s.tiles.focusedTile w = .ok f → lit v →
    s.Shows t v → s.tiles.tileWorkspace t = w →
    (s.disp.tileView f).elim (s.findView s.views.links.next (.head true w) s.viewIsVisible)
      (.ok ∘ some) = .ok (some v)

/-- **`output_make_workspace_fullscreen`** points the views of the list at the new
tile, and only disables the view that it keeps. -/
theorem outputMakeWorkspaceFullscreen_sound (hwf : WellFormed False s) (h : s.Sound fit lit)
    {ws : ℕ} (hmake : s.outs.nws ≤ ws ∨ MakesFullscreen lit s o ws) :
    Ensures (s.outputMakeWorkspaceFullscreen o ws) fun s' => s'.Sound fit lit := by
  refine Ensures.ite (fun _ => Ensures.ok h) fun hws => Ensures.bind_any fun w hw =>
    Ensures.bind_any fun f hf => Ensures.deref fun hlive =>
      Ensures.bind_any fun current hcurrent => ?_
  obtain ⟨-, hfw⟩ := hwf.tiles.focused_mem (by simp) hf
  obtain ⟨hlist, hkeep⟩ := hmake.resolve_left hws
  -- what is kept was shown by the workspace, if it was shown at all
  have hwas : ∀ v, current = some v → s.views.viewMapped v = true ∧
      ∀ t, s.Shows t v → s.tiles.tileWorkspace t = w := by
    rintro v rfl
    cases htv : s.disp.tileView f with
    | none =>
      rw [htv] at hcurrent
      have hfind := hcurrent
      obtain ⟨hlisted, -⟩ := findView_listed h (fun _ _ hab => .inl hab) _ hfind v rfl
      refine ⟨h.mapped_of_listed hlisted, fun t ht => hlist w t v hw ?_ ht⟩
      obtain ⟨found, hfound, hv⟩ := bind_eq_ok.mp hfind
      cases found with
      | none => exact nomatch hv
      | some n =>
        have hn : s.views.links.Connected (.head true w) n :=
          DLinks.findNode_along hfound (fun b hb => .single (.inl hb))
            fun b c hb hbc => hb.tail (.inl hbc)
        cases n with
        | head managed w' => exact nomatch hv
        | view u =>
          obtain rfl : u = v := Option.some.inj (Except.ok.inj hv)
          exact hn
    | some u =>
      rw [htv] at hcurrent
      obtain rfl : u = v := Option.some.inj (Except.ok.inj hcurrent)
      have hshown : s.Shows f u := ⟨hlive, htv⟩
      refine ⟨h.settled.mapped f u hshown, fun t ht => ?_⟩
      rw [h.settled.onlyAt hshown t ht]
      exact hfw.2
  refine Ensures.bind ((workspaceFreeTiles_sound (w := w) (h := h) hwf.tiles
    (fun v (hv : lit v ∧ current ≠ some v) => hv.1) fun t v hv hshown htw => hv.2 ?_).and
    (workspaceFreeTiles_inv hwf)) ?_
  · have := hkeep w f t v hw hf hv.1 hshown htw
    exact Except.ok.inj (hcurrent.symm.trans this)
  rintro s₁ ⟨⟨h₁, hviews₁, hdisp₁, hshows₁⟩, hwf₁, hw₁, houts₁⟩
  refine Ensures.bind ((fullScreenWorkspaceTiles_sound hwf₁.tiles.tile_lt h₁).and
    (fullScreenWorkspaceTiles_inv hwf₁ hw₁)) ?_
  rintro s₂ ⟨⟨h₂, hviews₂, -, hshows₂⟩, hwf₂, houts₂⟩
  refine Ensures.bind_any fun f' hf' => Ensures.bind_any fun l hl => ?_
  have hviews₂' : s₂.views = s.views := hviews₂.trans hviews₁
  -- no view of the list is shown any more
  have hgone : ∀ v t, s.InListOf w v ∨ current = some v → ¬ s₂.Shows t v := by
    intro v t hv hshown
    obtain ⟨hold, hne⟩ := (hshows₁ t v).mp ((hshows₂ t v).mp hshown)
    exact hne (hv.elim (fun hin => hlist w t v hw hin hold) fun e => (hwas v e).2 t hold)
  obtain ⟨h₃, hviews₃, hshows₃⟩ := pointViewsAt_sound (t := f') h₂ (l := l) fun v hv t =>
    hgone v t (.inl (by
      have hin := viewsOf_inListOf hl v hv
      rwa [InListOf, hviews₂'] at hin))
  refine Ensures.bind (P := fun s₄ => (Assigned (s₂.pointViewsAt l f') f' current s₄ ∧
    s₄.Sound fit lit) ∧ KeepsLayout (s₂.pointViewsAt l f') s₄) ((workspaceTileUpdateView_sound h₃
    (fun _ => .inl) (fun v hv => ?_) fun _ v hv => ⟨?_, fun t ht => ?_⟩).and
    workspaceTileUpdateView_keeps) ?_
  · by_cases he : current = some v
    · exact .inr he
    · exact .inl ⟨hv, he⟩
  · rw [hviews₃, hviews₂']
    exact (hwas v hv).1
  · exact absurd ((hshows₃ t v).mp ht) (hgone v t (.inr hv))
  rintro s₄ ⟨⟨ha, h₄⟩, hk₄⟩
  refine Ensures.ite (fun hcur => ?_) fun _ => Ensures.ok h₄
  refine (seatSetFocus_stays h₄ fun v f'' hv hf'' _ => ?_).mono fun _ h₅ => h₅.sound
  have hviews₄ : s₄.views = s.views := by
    rw [ha.eq]
    exact hviews₃.trans hviews₂'
  refine ⟨?_, ?_⟩
  · rw [hviews₄]
    exact (hwas v hv).1
  · -- the focused tile is the new one
    obtain ⟨o', w', ho', hw', hf''⟩ := curTile_eq_ok.mp hf''
    obtain rfl : o' = o := Option.some.inj (ho'.symm.trans hcur.2)
    have hp₃ : (s₂.pointViewsAt l f').tiles = s₂.tiles ∧ (s₂.pointViewsAt l f').outs = s₂.outs :=
      ⟨pointViewsAt_keeps.tiles, pointViewsAt_keeps.outs⟩
    rw [hcur.1, hk₄.outs, hp₃.2, houts₂, houts₁, hw] at hw'
    obtain rfl := Except.ok.inj hw'
    rw [hk₄.tiles, hp₃.1, hf'] at hf''
    obtain rfl := Except.ok.inj hf''
    exact h₄.settled.onlyAt (ha.shows_iff.mpr (.inl ⟨rfl, hv⟩))

end Server

end Cagebreak
