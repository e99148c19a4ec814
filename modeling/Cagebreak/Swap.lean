/-
Exchanging the views of two tiles.

`swap_tiles` puts a view into a tile three times and then focuses what some tile
shows.  The first part is `Display.exchange`, which is its own inverse as long as
views point back at the tiles that show them; the second leaves tiles and views as
they are (`Showing`).

* `swapTiles_exchanges` — the two tiles show each other's views, nothing else
  changes, and doing it again takes everything back.
-/
import Cagebreak.ShownRuns
import Cagebreak.Valid

namespace Cagebreak

open Exec

namespace Display

variable {D D' : Display} {a b t : TilePtr} {v : ViewPtr}

theorem eq_of_fields (htile : D'.tileView = D.tileView) (hview : D'.viewTile = D.viewTile)
    (hfocus : D'.focusedView = D.focusedView) : D' = D := by
  cases D
  cases D'
  simp_all

/-- Putting into a tile what it shows. -/
theorem assign_self (h : ∀ v, D.tileView t = some v → D.viewTile v = some t) :
    D.assign t (D.tileView t) = D := by
  refine eq_of_fields ?_ (funext fun v => ?_) rfl
  · rw [assign_tileView, Function.update_eq_self]
  · by_cases hv : D.tileView t = some v
    · rw [hv, assign_viewTile_self, h v hv]
    · rw [assign_viewTile_of_ne hv hv]

/-- The views of two tiles change places. -/
def exchange (D : Display) (a b : TilePtr) : Display :=
  ((D.assign a none).assign b (D.tileView a)).assign a (D.tileView b)

theorem exchange_tileView (hab : a ≠ b) : (D.exchange a b).tileView =
    Function.update (Function.update D.tileView a (D.tileView b)) b (D.tileView a) := by
  funext t
  rw [exchange, assign_tileView, assign_tileView, assign_tileView]
  by_cases hta : t = a
  · subst hta
    rw [Function.update_self, Function.update_of_ne hab, Function.update_self]
  · rw [Function.update_of_ne hta]
    by_cases htb : t = b
    · rw [htb, Function.update_self, Function.update_self]
    · rw [Function.update_of_ne htb, Function.update_of_ne hta, Function.update_of_ne htb,
        Function.update_of_ne hta]

theorem exchange_viewTile (hab : a ≠ b)
    (hne : ∀ u, D.tileView a = some u → D.tileView b ≠ some u) :
    (D.exchange a b).viewTile v = if D.tileView a = some v then some b
      else if D.tileView b = some v then some a else D.viewTile v := by
  -- the first tile is empty when the view of the second one comes into it
  have hempty : ((D.assign a none).assign b (D.tileView a)).tileView a ≠ some v := by
    rw [assign_tileView, Function.update_of_ne hab, assign_tileView, Function.update_self]
    exact nofun
  rw [exchange]
  split
  · next ha =>
    rw [assign_viewTile_of_ne (hne v ha) hempty, ha, assign_viewTile_self]
  · next ha =>
    split
    · next hb => rw [hb, assign_viewTile_self]
    · next hb =>
      have hold : (D.assign a none).tileView b ≠ some v := by
        rw [assign_tileView, Function.update_of_ne hab.symm]
        exact hb
      have hnone : (none : Option ViewPtr) ≠ some v := nofun
      rw [assign_viewTile_of_ne hb hempty, assign_viewTile_of_ne ha hold,
        assign_viewTile_of_ne hnone ha]

/-- **Exchanging the views of two tiles twice** changes nothing. -/
theorem exchange_exchange (hab : a ≠ b) (ha : ∀ v, D.tileView a = some v → D.viewTile v = some a)
    (hb : ∀ v, D.tileView b = some v → D.viewTile v = some b) :
    (D.exchange a b).exchange a b = D := by
  have hne : ∀ u, D.tileView a = some u → D.tileView b ≠ some u := by
    intro u hua hub
    exact hab (Option.some.inj ((ha u hua).symm.trans (hb u hub)))
  have htilea : (D.exchange a b).tileView a = D.tileView b := by
    rw [exchange_tileView hab, Function.update_of_ne hab, Function.update_self]
  have htileb : (D.exchange a b).tileView b = D.tileView a := by
    rw [exchange_tileView hab, Function.update_self]
  refine eq_of_fields ?_ (funext fun v => ?_) rfl
  · rw [exchange_tileView hab, htilea, htileb, exchange_tileView hab]
    funext t
    by_cases htb : t = b
    · rw [htb, Function.update_self]
    · by_cases hta : t = a
      · rw [hta, Function.update_of_ne hab, Function.update_self]
      · simp [hta, htb]
  · rw [exchange_viewTile hab, htilea, htileb, exchange_viewTile hab hne]
    · split
      · next hv => exact (hb v hv).symm
      · split
        · next hv => exact (ha v hv).symm
        · rfl
    · rw [htilea, htileb]
      exact fun u hub hua => hne u hua hub

end Display

namespace Server

variable {s s' s'' : Server} {a b t f : TilePtr} {v : ViewPtr} {w : WsPtr} {o : OutPtr}
  {view : Option ViewPtr} {follow : Bool}

/-! ### Focusing what is shown -/

/-- The views that tiles show are managed and point back at them. -/
structure Backed (s : Server) : Prop where
  tile : ∀ t v, s.Shows t v → s.disp.viewTile v = some t
  managed : ∀ t v, s.disp.tileView t = some v → s.views.managed v = true

/-- Tiles and views are as they were; the focus may be elsewhere. -/
structure Showing (s s' : Server) : Prop where
  disp : s'.disp = { s.disp with focusedView := s'.disp.focusedView }
  tiles : s'.tiles = { s.tiles with wsFocused := s'.tiles.wsFocused }
  attrs : s'.views.viewAttrs = s.views.viewAttrs

theorem Showing.refl : Showing s s := ⟨rfl, rfl, rfl⟩

theorem Showing.trans (h : Showing s s') (h' : Showing s' s'') : Showing s s'' := by
  refine ⟨?_, ?_, h'.attrs.trans h.attrs⟩
  · rw [h'.disp, h.disp]
  · rw [h'.tiles, h.tiles]

theorem Showing.tileView (h : Showing s s') : s'.disp.tileView = s.disp.tileView := by
  rw [h.disp]

theorem Showing.shows_iff (h : Showing s s') : s'.Shows t v ↔ s.Shows t v := by
  rw [Shows, Shows, h.tileView, h.tiles]

theorem Showing.backed (h : Showing s s') (hb : s.Backed) : s'.Backed := by
  constructor
  · intro t v hv
    rw [h.disp]
    exact hb.tile t v (h.shows_iff.mp hv)
  · intro t v hv
    rw [Views.managed, h.attrs]
    rw [h.tileView] at hv
    exact hb.managed t v hv

/-- Focusing what the focused tile shows. -/
theorem focusShown_showing (hb : s.Backed) (ht : s.curTile = .ok t) :
    Ensures (s.seatSetFocus (s.disp.tileView t)) fun s' =>
      Showing s s' ∧ s'.disp.focusedView = s.disp.tileView t := by
  have hself : s.tiles.tileLive t = true → s.disp.assign t (s.disp.tileView t) = s.disp :=
    fun hlive => Display.assign_self fun v hv => hb.tile t v ⟨hlive, hv⟩
  cases hv : s.disp.tileView t with
  | none =>
    refine seatSetFocus_none_assigned.mono ?_
    rintro s' ⟨f, s₁, c, e, hf, ha, rfl⟩
    obtain rfl := Except.ok.inj (ht.symm.trans hf)
    rw [hv] at hself
    refine ⟨⟨?_, ?_, ?_⟩, rfl⟩
    · rw [ha.eq, hself ha.live]
    · rw [ha.eq]
    · rw [ha.eq]
  | some v =>
    refine (seatSetFocus_managed_assigned (hb.managed t v hv)).mono ?_
    rintro s' ⟨w, f, s₁, V₁, V₂, c, e, hw, hf, ha, hV₁, hV₂, rfl⟩
    have hcur : s.curTile = .ok f := by rw [curTile, hw, ok_bind, hf]
    obtain rfl := Except.ok.inj (ht.symm.trans hcur)
    rw [hv] at hself
    refine ⟨⟨?_, ?_, ?_⟩, rfl⟩
    · rw [ha.eq, hself ha.live]
    · rw [ha.eq]
    · obtain ⟨_, _, -, -, rfl⟩ := wlListRemove_spec _ hV₁
      obtain ⟨_, -, rfl⟩ := wlListInsert_spec _ hV₂
      rfl

theorem refocus_showing (hb : s.Backed) : Ensures s.refocus fun s' => Showing s s' ∧
    ∃ f, s.curTile = .ok f ∧ s'.disp.focusedView = s.disp.tileView f :=
  Ensures.bind_any fun f hf => (focusShown_showing hb hf).mono fun _ h => ⟨h.1, f, hf, h.2⟩

theorem setOutput_showing (hb : s.Backed) : Ensures (s.setOutput o) (Showing s) := by
  have hset : Showing s { s with outs.currOutput := some o } := ⟨rfl, rfl, rfl⟩
  exact (refocus_showing (hset.backed hb)).mono fun _ h => hset.trans h.1

theorem keybindingSwitchWs_showing (hb : s.Backed) {ws : ℕ} :
    Ensures (s.keybindingSwitchWs ws) (Showing s) := by
  refine Ensures.ite (fun _ => Ensures.ok .refl) fun hws => Ensures.bind_any fun o ho => ?_
  refine Ensures.bind workspaceFocus_spec fun s₁ h₁ => ?_
  rcases h₁ with ⟨-, hle⟩ | ⟨rfl, -⟩
  · exact absurd hle hws
  have hset : Showing s { s with outs.outCurr := Function.update s.outs.outCurr o ws } :=
    ⟨rfl, rfl, rfl⟩
  refine Ensures.bind_any fun w hw => Ensures.bind_any fun f hf => ?_
  have hcur : ({ s with outs.outCurr := Function.update s.outs.outCurr o ws } : Server).curTile =
      .ok f := by
    refine curTile_eq_ok.mpr ⟨o, w, nonNull_eq_ok.mp ho, ?_, hf⟩
    show Outputs.wsAt _ o (Function.update s.outs.outCurr o ws o) = .ok w
    rw [Function.update_self]
    exact hw
  refine Ensures.bind (focusShown_showing (hset.backed hb) hcur) fun s₂ h₂ => Ensures.ok ?_
  exact hset.trans ⟨h₂.1.disp, h₂.1.tiles, h₂.1.attrs⟩

/-- **`keybinding_focus_tile`** leaves every view in its tile. -/
theorem keybindingFocusTile_showing (hwf : WellFormed False s) (hb : s.Backed) {id : ℕ} :
    Ensures (s.keybindingFocusTile id) (Showing s) := by
  refine (keybindingFocusTile_cases hwf).mono ?_
  rintro s' (⟨-, rfl⟩ | ⟨t, s₁, s₂, s₃, s₄, e, -, hs₁, hs₂, -, hs₃, hcur, hs₄, rfl⟩)
  · exact .refl
  · have h₁ : Showing s s₁ := by
      rcases hs₁ with rfl | hs₁
      · exact .refl
      · exact setOutput_showing hb s₁ hs₁
    have h₂ : Showing s s₂ := by
      rcases hs₂ with rfl | hs₂
      · exact h₁
      · exact h₁.trans (keybindingSwitchWs_showing (h₁.backed hb) s₂ hs₂)
    have h₃ : Showing s s₃ := by
      obtain ⟨-, rfl⟩ := workspaceFocusTile_spec s₃ hs₃
      exact h₂.trans ⟨rfl, rfl, rfl⟩
    have h₄ := (focusShown_showing (h₃.backed hb) hcur s₄ hs₄).1
    exact (h₃.trans h₄).trans ⟨rfl, rfl, rfl⟩

theorem keybindingFocusTile_tiles (hwf : WellFormed False s) {id : ℕ} :
    Ensures (s.keybindingFocusTile id) fun s' =>
      s'.tiles = { s.tiles with wsFocused := s'.tiles.wsFocused } := by
  refine (keybindingFocusTile_cases hwf).mono ?_
  rintro s' (⟨-, rfl⟩ | ⟨t, s₁, s₂, s₃, s₄, e, -, hs₁, hs₂, -, hs₃, -, hs₄, rfl⟩)
  · rfl
  · have h₁ : s₁.tiles = s.tiles := by
      rcases hs₁ with rfl | hs₁
      · rfl
      · exact setOutput_tiles s₁ hs₁
    have h₂ : s₂.tiles = s.tiles := by
      rcases hs₂ with rfl | hs₂
      · exact h₁
      · exact (keybindingSwitchWs_tiles s₂ hs₂).trans h₁
    have h₄ := (seatSetFocus_keeps s₄ hs₄).tiles
    obtain ⟨-, rfl⟩ := workspaceFocusTile_spec s₃ hs₃
    show s₄.tiles = { s.tiles with wsFocused := s₄.tiles.wsFocused }
    rw [h₄, ← h₂]

/-! ### The exchange -/

theorem Backed.exchange (hb : s.Backed) (hab : a ≠ b) (ha : s.tiles.tileLive a = true)
    (hb' : s.tiles.tileLive b = true) :
    ({ s with disp := s.disp.exchange a b } : Server).Backed := by
  have hne : ∀ u, s.disp.tileView a = some u → s.disp.tileView b ≠ some u := by
    intro u hua hub
    exact hab (Option.some.inj ((hb.tile a u ⟨ha, hua⟩).symm.trans (hb.tile b u ⟨hb', hub⟩)))
  -- each tile shows what some tile has shown
  have hcases : ∀ t v, (s.disp.exchange a b).tileView t = some v →
      t = b ∧ s.disp.tileView a = some v ∨ t = a ∧ s.disp.tileView b = some v ∨
      t ≠ a ∧ t ≠ b ∧ s.disp.tileView t = some v := by
    intro t v hv
    rw [Display.exchange_tileView hab] at hv
    by_cases htb : t = b
    · subst htb
      rw [Function.update_self] at hv
      exact .inl ⟨rfl, hv⟩
    · rw [Function.update_of_ne htb] at hv
      by_cases hta : t = a
      · subst hta
        rw [Function.update_self] at hv
        exact .inr (.inl ⟨rfl, hv⟩)
      · rw [Function.update_of_ne hta] at hv
        exact .inr (.inr ⟨hta, htb, hv⟩)
  constructor
  · rintro t v ⟨hlive, hv⟩
    show (s.disp.exchange a b).viewTile v = some t
    rw [Display.exchange_viewTile hab hne]
    rcases hcases t v hv with ⟨rfl, hva⟩ | ⟨rfl, hvb⟩ | ⟨hta, htb, hvt⟩
    · rw [if_pos hva]
    · rw [if_neg fun hva => hne v hva hvb, if_pos hvb]
    · have hback := hb.tile t v ⟨hlive, hvt⟩
      rw [if_neg fun hva => hta ?_, if_neg fun hvb => htb ?_]
      · exact hback
      · exact Option.some.inj (hback.symm.trans (hb.tile b v ⟨hb', hvb⟩))
      · exact Option.some.inj (hback.symm.trans (hb.tile a v ⟨ha, hva⟩))
  · intro t v hv
    rcases hcases t v hv with ⟨-, hv⟩ | ⟨-, hv⟩ | ⟨-, -, hv⟩
    · exact hb.managed a v hv
    · exact hb.managed b v hv
    · exact hb.managed t v hv

/-- **`swap_tiles`** exchanges the views of the tiles, and leaves the rest. -/
theorem swapTiles_showing (hwf : WellFormed False s) (hb : s.Backed) (hab : a ≠ b) :
    Ensures (s.swapTiles (some a) (some b) follow) fun s' => s'.Backed ∧
      Showing { s with disp := s.disp.exchange a b } s' ∧
      (follow = false → KeepsLayout s s' ∧
        ∃ f, s.curTile = .ok f ∧ s'.disp.focusedView = (s.disp.exchange a b).tileView f) := by
  refine Ensures.ite (fun he => absurd he hab) fun _ => Ensures.deref fun hlive => ?_
  obtain ⟨hlivea, hliveb⟩ := Bool.and_eq_true_iff.mp hlive
  refine Ensures.bind workspaceTileUpdateView_assigned fun s₁ h₁ => ?_
  refine Ensures.bind workspaceTileUpdateView_assigned fun s₂ h₂ => ?_
  refine Ensures.bind workspaceTileUpdateView_assigned fun s₃ h₃ => ?_
  have heq₃ : s₃ = { s with disp := s.disp.exchange a b, scene := s₃.scene } := by
    rw [h₃.eq, h₂.eq, h₁.eq]
    rfl
  have hk₃ : KeepsLayout s s₃ := by
    rw [heq₃]
    exact keepsLayout_of_eq rfl rfl rfl
  have hshow₃ : Showing { s with disp := s.disp.exchange a b } s₃ := by
    rw [heq₃]
    exact ⟨rfl, rfl, rfl⟩
  have hb₃ : s₃.Backed := hshow₃.backed (hb.exchange hab hlivea hliveb)
  have hcur₃ : s₃.curTile = s.curTile := by
    rw [heq₃]
    rfl
  refine Ensures.bind (P := fun s₄ => s₄.Backed ∧ Showing s₃ s₄ ∧
    (follow = false → KeepsLayout s₃ s₄ ∧
      ∃ f, s.curTile = .ok f ∧ s₄.disp.focusedView = s₃.disp.tileView f)) ?_ ?_
  · refine Ensures.ite (fun hf => ?_) fun _ => ?_
    · refine (keybindingFocusTile_showing (hk₃.wellFormed hwf) hb₃).mono fun s₄ h₄ => ?_
      exact ⟨h₄.backed hb₃, h₄, fun hnot => by simp [hnot] at hf⟩
    · refine ((refocus_showing hb₃).and refocus_sameLayout).mono ?_
      rintro s₄ ⟨⟨h₄, f, hf, hfocus⟩, hk₄⟩
      exact ⟨h₄.backed hb₃, h₄, fun _ => ⟨hk₄.toKeepsLayout, f, hcur₃ ▸ hf, hfocus⟩⟩
  · rintro s₄ ⟨hb₄, h₄, hrest⟩
    refine Ensures.bind_any fun p _ => Ensures.ok ⟨⟨hb₄.tile, hb₄.managed⟩, ?_, fun hnot => ?_⟩
    · have h₅ := hshow₃.trans h₄
      exact ⟨h₅.disp, h₅.tiles, h₅.attrs⟩
    · obtain ⟨hk₄, f, hf, hfocus⟩ := hrest hnot
      refine ⟨(hk₃.trans hk₄).trans emit_sameLayout.toKeepsLayout, f, hf, ?_⟩
      rw [hshow₃.tileView] at hfocus
      exact hfocus

/-- `swap_tiles` returns. -/
theorem swapTiles_gives (h : s.Valid) (hab : a ≠ b) (ha : s.tiles.tileLive a = true)
    (hb : s.tiles.tileLive b = true) :
    Gives (s.swapTiles (some a) (some b) follow) (StaysValid s) := by
  rw [swapTiles]
  refine Gives.ite (fun he => absurd he hab) fun _ => Gives.deref (by rw [ha, hb]; rfl) ?_
  refine Gives.bind (workspaceTileUpdateView_gives h ha nofun) ?_
  rintro s₁ ⟨h₁, hs₁⟩
  have hlive₁ : s₁.tiles = s.tiles := by rw [h₁.eq]
  refine Gives.bind (workspaceTileUpdateView_gives hs₁.valid (by rwa [hlive₁])
    fun v hv => hs₁.usable v (h.shown a v ⟨ha, hv⟩)) ?_
  rintro s₂ ⟨h₂, hs₂⟩
  have hlive₂ : s₂.tiles = s.tiles := by rw [h₂.eq, hlive₁]
  refine Gives.bind (workspaceTileUpdateView_gives hs₂.valid (by rwa [hlive₂])
    fun v hv => hs₂.usable v (hs₁.usable v (h.shown b v ⟨hb, hv⟩))) ?_
  rintro s₃ ⟨h₃, hs₃⟩
  have hs := (hs₁.trans hs₂).trans hs₃
  have hlive₃ : s₃.tiles = s.tiles := by rw [h₃.eq, hlive₂]
  refine Gives.bind (P := fun s₄ => StaysValid s s₄ ∧ s₄.tiles.tileLive a = true) ?_ ?_
  · refine Gives.ite (fun _ => ?_) fun _ => ?_
    · refine ((keybindingFocusTile_gives hs₃.valid).and
        (keybindingFocusTile_tiles hs₃.valid.layout)).mono ?_
      rintro s₄ ⟨h₄, htiles₄⟩
      refine ⟨hs.trans h₄, ?_⟩
      rw [htiles₄, hlive₃]
      exact ha
    · refine ((refocus_gives hs₃.valid).and refocus_sameLayout).mono ?_
      rintro s₄ ⟨h₄, hk₄⟩
      refine ⟨hs.trans h₄, ?_⟩
      rw [hk₄.tiles, hlive₃]
      exact ha
  · rintro s₄ ⟨h₄, hlive₄⟩
    refine Gives.bind (h₄.valid.placeOf hlive₄) fun p _ => Gives.ok ?_
    exact h₄.trans (emit_staysValid h₄.valid)

/-- What an exchange of the views of two tiles leaves behind. -/
structure Exchanged (s : Server) (a b : TilePtr) (s' : Server) : Prop where
  left : s'.disp.tileView a = s.disp.tileView b
  right : s'.disp.tileView b = s.disp.tileView a
  others : ∀ t, t ≠ a → t ≠ b → s'.disp.tileView t = s.disp.tileView t
  boxes : s'.tiles.tileBox = s.tiles.tileBox
  live : s'.tiles.tileLive = s.tiles.tileLive
  agree : ∀ t v, s'.Shows t v → s'.disp.viewTile v = some t

theorem Showing.exchanged (h : Showing { s with disp := s.disp.exchange a b } s') (hab : a ≠ b)
    (hb : s'.Backed) : Exchanged s a b s' := by
  have htile := h.tileView.trans (Display.exchange_tileView hab)
  refine ⟨?_, ?_, fun t hta htb => ?_, ?_, ?_, hb.tile⟩
  · rw [htile, Function.update_of_ne hab, Function.update_self]
  · rw [htile, Function.update_self]
  · rw [htile, Function.update_of_ne htb, Function.update_of_ne hta]
  · rw [h.tiles]
  · rw [h.tiles]

end Server

open Server

variable {s : Server} {a b : TilePtr}

/-- **Swapping two tiles** exchanges the views they show and changes no other tile, and
swapping them twice takes everything back; if the pointers that it follows are in
order, it returns. -/
theorem swapTiles_exchanges (hwf : WellFormed False s) (hvi : s.ViewsInv) (hp : s.PointersAgree)
    (hf : s.FocusAgrees) (hab : a ≠ b) (ha : s.tiles.tileLive a = true)
    (hb : s.tiles.tileLive b = true) (follow : Bool) :
    Ensures (s.swapTiles (some a) (some b) follow) (Exchanged s a b) ∧
    Ensures (do
      let s₁ ← s.swapTiles (some a) (some b) false
      s₁.swapTiles (some a) (some b) false) (fun s₂ => s₂.disp = s.disp) ∧
    (s.Valid → (∃ s', s.swapTiles (some a) (some b) follow = .ok s') ∧
      ∃ s₂, (do
        let s₁ ← s.swapTiles (some a) (some b) false
        s₁.swapTiles (some a) (some b) false) = .ok s₂) := by
  have hback : s.Backed := ⟨hp.tile, fun t v hv => (hvi.shown t v hv).managed⟩
  refine ⟨?_, ?_, fun hv => ⟨?_, ?_⟩⟩
  · exact (swapTiles_showing hwf hback hab).mono fun s' h => h.2.1.exchanged hab h.1
  · refine Ensures.bind (swapTiles_showing hwf hback hab) ?_
    rintro s₁ ⟨hback₁, h₁, hrest₁⟩
    obtain ⟨hk₁, -⟩ := hrest₁ rfl
    refine (swapTiles_showing (hk₁.wellFormed hwf) hback₁ hab).mono ?_
    rintro s₂ ⟨-, h₂, hrest₂⟩
    obtain ⟨-, f, hcur, hfocus⟩ := hrest₂ rfl
    rw [hk₁.curTile] at hcur
    -- the two exchanges cancel, whatever has had the focus in between
    have htwice := Display.exchange_exchange hab (fun v hva => hp.tile a v ⟨ha, hva⟩)
      fun v hvb => hp.tile b v ⟨hb, hvb⟩
    have htile : (s₁.disp.exchange a b).tileView = s.disp.tileView := by
      rw [← htwice, h₁.disp]
      rfl
    have hview : (s₁.disp.exchange a b).viewTile = s.disp.viewTile := by
      rw [← htwice, h₁.disp]
      rfl
    refine Display.eq_of_fields ?_ ?_ ?_
    · rw [h₂.disp]
      exact htile
    · rw [h₂.disp]
      exact hview
    · rw [hfocus, htile, hf f hcur]
  · obtain ⟨s', hs', -⟩ := swapTiles_gives hv hab ha hb
    exact ⟨s', hs'⟩
  · obtain ⟨s₁, hs₁, h₁⟩ := swapTiles_gives hv hab ha hb
    have hlive := (swapTiles_showing hwf hback hab s₁ hs₁).2.1.exchanged hab
      (swapTiles_showing hwf hback hab s₁ hs₁).1
    obtain ⟨s₂, hs₂, -⟩ := swapTiles_gives h₁.valid hab
      (by rw [hlive.live]; exact ha) (by rw [hlive.live]; exact hb)
    exact ⟨s₂, by rw [hs₁, ok_bind, hs₂]⟩

/-- A view is exchanged with an empty tile beside it. -/
theorem swapTiles_exchanges_split : ∃ s s', s.PointersAgree ∧ s.FocusAgrees ∧ s.Valid ∧
    s.tiles.tileWorkspace 0 = s.tiles.tileWorkspace 1 ∧ s.disp.tileView 0 = some 0 ∧
    s.swapTiles (some 0) (some 1) false = .ok s' ∧ Exchanged s 0 1 s' := by
  obtain ⟨s, hs, htest⟩ := exists_of_returns (p := fun s : Server => s.isValid && s.pointBack &&
      s.tiles.tileLive 0 && s.tiles.tileLive 1 &&
      decide (s.tiles.tileWorkspace 0 = s.tiles.tileWorkspace 1) &&
      decide (s.disp.tileView 0 = some 0) && decide (s.disp.focusedView = some 0) &&
      decide (s.curTile = .ok 0))
    (m := run step Server.init
      [.outputNew "HDMI-A-1" ⟨0, 0, 8, 6, by decide, by decide⟩ none,
        .viewNew ⟨false, false, false, 0⟩, .viewMap 0 0 0, .command (.splitVertical half)])
    (by decide +kernel)
  simp only [Bool.and_eq_true, decide_eq_true_eq] at htest
  obtain ⟨⟨⟨⟨⟨⟨⟨hvalid, hback⟩, h0⟩, h1⟩, hws⟩, hview⟩, hfocus⟩, hcur⟩ := htest
  have hr : Reachable s := Steps.of_run hs fun _ _ _ => trivial
  have hp := hr.wellFormed.pointersAgree hback
  have hf : s.FocusAgrees := by
    intro t ht
    obtain rfl := Except.ok.inj (hcur.symm.trans ht)
    rw [hfocus, hview]
  have h := swapTiles_exchanges hr.wellFormed hr.viewsInv hp hf (show 0 ≠ 1 by decide) h0 h1 false
  obtain ⟨s', hs'⟩ := (h.2.2 (hr.wellFormed.valid hvalid)).1
  exact ⟨s, s', hp, hf, hr.wellFormed.valid hvalid, hws, hview, hs', h.1 s' hs'⟩

end Cagebreak
