/-
Moving views between tiles, workspaces and outputs.

A view that moves is taken out of its tile and its list (`takeView_loose`), and
put into another tile and the list of its workspace (`putView_sound`).  The tile it
is put into must not show another view, which would be forgotten there.
-/
import Cagebreak.ShownSteps

namespace Cagebreak

open Exec

namespace Server

open Views

variable {s s' s'' : Server} {t t' f m old : TilePtr} {u v : ViewPtr} {w : WsPtr} {o : OutPtr}
  {view : Option ViewPtr} {fit lit fit' lit' : ViewPtr → Prop} {managed : Bool}

/-! ### Lists -/

theorem unlinkView_stays (h : s.Sound fit lit) : Ensures (s.unlinkView v) fun s' =>
    Stays fit lit s s' ∧ s'.disp = s.disp ∧ s'.views.links.Unlinked (.view v) ∧
      s.views.viewMapped v = true := by
  refine Ensures.bind (wlListRemove_links h.links) ?_
  rintro V ⟨hre, hun, hready⟩
  refine Ensures.ok ⟨⟨⟨hre.inv, ?_⟩, rfl, hre.eq, fun u hu =>
    ⟨hre.unlinked _ hu.unlinked, hu.hidden⟩⟩,
    rfl, hun, hready⟩
  refine h.settled.congr rfl rfl rfl rfl rfl ?_ ?_ h.settled.focus
  · show V.viewMapped = s.views.viewMapped
    rw [hre.eq]
  · show V.viewAttrs = s.views.viewAttrs
    rw [hre.eq]

/-- Linking in a mapped view that is in no list. -/
theorem linkView_sound (h : s.Sound fit lit) (hv : s.views.links.Unlinked (.view v))
    (hm : s.views.viewMapped v = true) : Ensures (s.linkView managed w v) fun s' =>
    s'.Sound fit lit ∧ s'.disp = s.disp ∧ s'.tiles = s.tiles ∧
      s'.views = { s.views with links := s'.views.links } ∧
      ∀ u, u ≠ v → s.Loose u → s'.Loose u := by
  refine Ensures.bind (wlListInsert_links (n := .view v) h.links hv hm) ?_
  rintro V ⟨hinv, heq, -, hun⟩
  refine Ensures.ok ⟨⟨hinv, ?_⟩, rfl, rfl, heq, fun u huv hu =>
    ⟨hun _ (fun e => huv (Node.view.inj e)) hu.unlinked, hu.hidden⟩⟩
  refine h.settled.congr rfl rfl rfl rfl rfl ?_ ?_ h.settled.focus
  · show V.viewMapped = s.views.viewMapped
    rw [heq]
  · show V.viewAttrs = s.views.viewAttrs
    rw [heq]

theorem setViewWorkspace_sound (h : s.Sound fit lit) : (s.setViewWorkspace v w).Sound fit lit :=
  ⟨h.links.congr rfl fun n hn => .inl (by cases n <;> exact hn),
    h.settled.congr rfl rfl rfl rfl rfl rfl rfl h.settled.focus⟩

/-! ### Taking a view out of its tile -/

/-- A view that has been unlinked is in no list, and the lists have got no other
view. -/
theorem connected_of_unlink (h : s.views.links.Mutual) (hs : s.unlinkView v = .ok s') {n : Node} :
    s'.views.links.Connected (.head managed w) n →
      s.views.links.Connected (.head managed w) n ∧ n ≠ .view v := by
  intro hn
  obtain ⟨V, hV, hs⟩ := bind_eq_ok.mp hs
  obtain rfl := Except.ok.inj hs
  obtain ⟨a, c, ha, hc, rfl⟩ := wlListRemove_spec _ hV
  have hclosed := DLinks.ClosedOn.unlink
    (DLinks.closedOn_connected (L := s.views.links) (a := .head managed w)) h ha hc
  exact hclosed.mem_of_connected ⟨Relation.ReflTransGen.refl, nofun⟩ hn

theorem inListOf_of_unlink (h : s.Sound fit lit) (hs : s.unlinkView v = .ok s')
    (hu : s'.InListOf w u) : s.InListOf w u ∧ u ≠ v := by
  obtain ⟨hold, hne⟩ := connected_of_unlink h.links.paired hs hu
  exact ⟨hold, fun e => hne (congrArg Node.view e)⟩

/-- What `keybinding_cycle_views` goes on to without an id is in the list. -/
theorem cycleTarget_inListOf {reverse : Bool} : Ensures (s.cycleTarget w 0 reverse) fun found =>
    ∀ v, found = some v → s.InListOf w v := by
  unfold cycleTarget
  rw [if_pos rfl]
  refine Ensures.bind_any fun found hfound => Ensures.ifSome nofun fun n hn => ?_
  subst hn
  have hstep : ∀ a b, (if reverse then s.views.links.next else s.views.links.prev) a = some b →
      s.views.links.next a = some b ∨ s.views.links.prev a = some b := by
    intro a b hab
    cases reverse with
    | true => exact .inl hab
    | false => exact .inr hab
  have hn : s.views.links.Connected (.head true w) n :=
    DLinks.findNode_along hfound (fun b hb => .single (hstep _ b hb))
      fun b c hb hbc => hb.tail (hstep b c hbc)
  cases n with
  | head managed w' => exact Ensures.bind_any fun _ hu => nomatch hu
  | view u =>
    refine Ensures.ok fun v hv => ?_
    obtain rfl : u = v := Option.some.inj hv
    exact hn

/-- **Taking a view away** changes what one tile shows at most, and that tile goes
on to a hidden view of its workspace. -/
theorem takeView_loose (h : s.Sound fit lit) : Ensures (s.takeView v) fun s' =>
    Stays fit lit s s' ∧ s'.Loose v ∧
      (∀ t, s.disp.viewTile v ≠ some t → s'.disp.tileView t = s.disp.tileView t) ∧
      ∀ t, s.disp.viewTile v = some t →
        (∀ u, s.InListOf (s.tiles.tileWorkspace t) u → u ≠ v → ∃ t', t' ≠ t ∧ s.Shows t' u) →
        s'.disp.tileView t = none := by
  unfold takeView
  cases hold : s.disp.viewTile v with
  | none =>
    refine (unlinkView_stays h).mono ?_
    rintro s' ⟨h', hdisp, hun, -⟩
    refine ⟨h', ⟨hun, fun t ht => ?_⟩, fun t _ => by rw [hdisp], by simp⟩
    have htile := h.settled.tile t v (by rwa [Shows, h'.tiles, hdisp] at ht)
    exact absurd (hold.symm.trans htile) (by simp)
  | some old =>
    refine Ensures.bind (clearTile_stays h) ?_
    rintro s₁ ⟨ha, h₁⟩
    have hgone : ∀ t, ¬ s₁.Shows t v := by
      intro t ht
      rcases ha.shows_iff.mp ht with ⟨-, he⟩ | ⟨hne, ht⟩
      · cases he
      · exact hne (Option.some.inj ((h.settled.tile t v ht).symm.trans hold))
    have htile₁ : s₁.disp.tileView = Function.update s.disp.tileView old none := by
      rw [ha.eq]
      rfl
    refine Ensures.bind ((unlinkView_stays h₁.sound).and fun s₂ hs₂ => hs₂) ?_
    rintro s₂ ⟨⟨h₂, hdisp₂, hun, -⟩, hs₂⟩
    have hshows₂ : ∀ t u, s₂.Shows t u ↔ s₁.Shows t u := by
      intro t u
      rw [Shows, Shows, h₂.tiles, hdisp₂]
    have hloose₂ : s₂.Loose v := ⟨hun, fun t ht => hgone t ((hshows₂ t v).mp ht)⟩
    refine Ensures.bind (keybindingCycleViews_stays h₂.sound) ?_
    rintro s₃ ⟨h₃, t₃, ht₃, htile₃, hnone₃⟩
    obtain rfl : old = t₃ := Except.ok.inj ht₃
    -- if every other view of the list is shown, there is none to go on to
    have hempty : (∀ u, s.InListOf (s.tiles.tileWorkspace old) u → u ≠ v →
        ∃ t', t' ≠ old ∧ s.Shows t' u) → s₃.disp.tileView old = none := by
      intro hall
      have htw : s₂.tiles.tileWorkspace old = s.tiles.tileWorkspace old := by
        rw [h₂.tiles, h₁.tiles]
      have hmiss : ∀ found, s₂.cycleTarget (s₂.tiles.tileWorkspace old) 0 false = .ok found →
          found = none := by
        intro found hfound
        cases found with
        | none => rfl
        | some u =>
          obtain ⟨-, hvis⟩ := cycleTarget_listed h₂.sound _ hfound u rfl
          have hin := cycleTarget_inListOf _ hfound u rfl
          rw [htw] at hin
          obtain ⟨hin₁, huv⟩ := inListOf_of_unlink h₁.sound hs₂ hin
          rw [InListOf, show s₁.views = s.views by rw [ha.eq]] at hin₁
          obtain ⟨t', ht', hshown⟩ := hall u hin₁ huv
          refine absurd ?_ ((h₂.sound.settled.hidden hvis).2 t')
          exact (hshows₂ t' u).mpr (ha.shows_iff.mpr (.inr ⟨ht', hshown⟩))
      rw [hnone₃ hmiss, hdisp₂, htile₁]
      exact Function.update_self _ _ _
    have hother : ∀ t, t ≠ old → s₃.disp.tileView t = s.disp.tileView t := by
      intro t ht
      rw [htile₃ t ht, hdisp₂, htile₁]
      exact Function.update_of_ne ht _ _
    have h' := (h₁.trans h₂).trans h₃
    refine Ensures.bind_any fun f hf => ?_
    refine Ensures.ite (fun hcur => ?_) fun _ => Ensures.ok ⟨h', h₃.loose v hloose₂, ?_, ?_⟩
    · obtain ⟨hnone, rfl⟩ := hcur
      have hfocus := focusShown_refocused h₃.sound hf
      rw [hnone] at hfocus
      refine hfocus.mono fun s₄ h₄ => ⟨h'.trans h₄.toStays, h₄.loose v (h₃.loose v hloose₂), ?_, ?_⟩
      · intro t ht
        rw [h₄.tileView]
        exact hother t fun e => ht (by rw [e])
      · rintro t ⟨⟩ hall
        rw [h₄.tileView]
        exact hnone
    · exact fun t ht => hother t fun e => ht (by rw [e])
    · rintro t ⟨⟩ hall
      exact hempty hall

/-! ### Putting a view into another tile -/

/-- **Putting a view into a tile** that shows no other one.  The view is drawn and
enabled later. -/
theorem putView_sound (h : s.Sound fit lit) (hv : s.Loose v) (hm : s.views.viewMapped v = true)
    (hman : s.views.managed v = true) (hempty : ∀ u, lit u → s.disp.tileView t ≠ some u) :
    Ensures (s.putView v t) fun s' =>
      s'.Sound (fun u => fit u ∧ u ≠ v) (fun u => lit u ∧ u ≠ v) ∧
      s'.views.managed v = true ∧ s'.Shows t v := by
  refine Ensures.deref fun hlive => ?_
  refine Ensures.bind (linkView_sound (setViewWorkspace_sound h) hv.unlinked hm) ?_
  rintro s₁ ⟨h₁, hdisp₁, htiles₁, hviews₁, -⟩
  have hman₁ : s₁.views.managed v = true := by
    rw [hviews₁]
    exact hman
  have hmap₁ : s₁.views.viewMapped v = true := by
    rw [hviews₁]
    exact hm
  have hshows₁ : ∀ t' u, s₁.Shows t' u ↔ s.Shows t' u := by
    intro t' u
    rw [Shows, Shows, hdisp₁, htiles₁]
    rfl
  set s₂ : Server := (s₁.setViewTile v (some t)).setTileView t (some v) with hs₂
  have hlive₂ : s₂.tiles.tileLive t = true := by
    show s₁.tiles.tileLive t = true
    rw [htiles₁]
    exact hlive
  have hself : ∀ u, s₂.Shows t u ↔ u = v := by
    intro u
    have htile : s₂.disp.tileView t = some v := Function.update_self _ _ _
    constructor
    · intro hu
      exact Option.some.inj (hu.2.symm.trans htile)
    · rintro rfl
      exact ⟨hlive₂, htile⟩
  have hother : ∀ t' u, t' ≠ t → (s₂.Shows t' u ↔ s.Shows t' u) := by
    intro t' u ht'
    rw [← hshows₁]
    simp [Shows, hs₂, setTileView, setViewTile, ht']
  -- no other tile shows `v`, since it was hidden before
  have hmem : ∀ t' u, s₂.Shows t' u → t' = t ∧ u = v ∨ t' ≠ t ∧ u ≠ v ∧ s.Shows t' u := by
    intro t' u hu
    by_cases ht' : t' = t
    · subst ht'
      exact .inl ⟨rfl, (hself u).mp hu⟩
    · have hold := (hother t' u ht').mp hu
      exact .inr ⟨ht', fun e => hv.hidden t' (e ▸ hold), hold⟩
  have hsound₂ : s₂.Sound (fun u => fit u ∧ u ≠ v) (fun u => lit u ∧ u ≠ v) := by
    refine ⟨h₁.links, fun t' u hu => ?_, fun t' u hu => ?_, h₁.settled.focus,
      fun t' u hu hshown => ?_,
      fun u hu hmu hmapu => ?_⟩
    · rcases hmem t' u hu with ⟨rfl, rfl⟩ | ⟨-, huv, hold⟩
      · exact Function.update_self _ _ _
      · refine (Function.update_of_ne huv _ _).trans ?_
        exact h₁.settled.tile t' u ((hshows₁ t' u).mpr hold)
    · rcases hmem t' u hu with ⟨rfl, rfl⟩ | ⟨-, -, hold⟩
      · exact hmap₁
      · exact h₁.settled.mapped t' u ((hshows₁ t' u).mpr hold)
    · rcases hmem t' u hshown with ⟨-, huv⟩ | ⟨-, -, hold⟩
      · exact absurd huv hu.2
      · have hfits := h₁.settled.fits t' u hu.1 ((hshows₁ t' u).mpr hold)
        exact ⟨hfits.size, hfits.pos⟩
    · refine (h₁.settled.enabled u hu.1 hmu hmapu).trans (exists_congr fun t' => ?_)
      rw [hshows₁]
      by_cases ht' : t' = t
      · subst ht'
        exact iff_of_false (fun hold => hempty u hu.1 hold.2) fun hu' => hu.2 ((hself u).mp hu')
      · exact (hother t' u ht').symm
  refine Ensures.bind_any fun f hf => Ensures.ite (fun htf => ?_) fun _ =>
    Ensures.ok ⟨hsound₂, hman₁, (hself v).mpr rfl⟩
  subst htf
  have hshown := focusShown_refocused hsound₂ hf
  rw [((hself v).mpr rfl).2] at hshown
  refine hshown.mono fun s₃ h₃ => ⟨h₃.sound, ?_, ?_, ?_⟩
  · rw [h₃.managed]
    exact hman₁
  · rw [h₃.tiles]
    exact hlive₂
  · rw [h₃.tileView]
    exact ((hself v).mpr rfl).2

/-- Leaving a tile without a view does not disable the view. -/
theorem emptyTile_sound (h : s.Sound fit lit) (hempty : ∀ u, lit u → s.disp.tileView t ≠ some u) :
    Ensures (s.emptyTile t) fun s' => s'.Sound fit lit := by
  refine Ensures.deref fun hlive => Ensures.ifSome (fun _ => h) fun v hv => Ensures.deref fun _ =>
    Ensures.ok ?_
  set s₁ : Server := (s.setViewTile v none).setTileView t none with hs₁
  have hshows : ∀ t' u, s₁.Shows t' u ↔ t' ≠ t ∧ s.Shows t' u := by
    intro t' u
    by_cases ht' : t' = t
    · simp [Shows, hs₁, setTileView, ht']
    · simp [Shows, hs₁, setTileView, setViewTile, ht']
  refine ⟨h.links, fun t' u hu => ?_, fun t' u hu => ?_, h.settled.focus, fun t' u hu hshown => ?_,
    fun u hu hmu hmapu => ?_⟩
  · obtain ⟨ht', hold⟩ := (hshows t' u).mp hu
    have huv : u ≠ v := by
      rintro rfl
      exact ht' (h.settled.onlyAt ⟨hlive, hv⟩ t' hold)
    refine (Function.update_of_ne huv _ _).trans ?_
    exact h.settled.tile t' u hold
  · exact h.settled.mapped t' u ((hshows t' u).mp hu).2
  · have hfits := h.settled.fits t' u hu ((hshows t' u).mp hshown).2
    exact ⟨hfits.size, hfits.pos⟩
  · refine (h.settled.enabled u hu hmu hmapu).trans (exists_congr fun t' => ?_)
    rw [hshows]
    refine ⟨fun hold => ⟨?_, hold⟩, And.right⟩
    rintro rfl
    exact hempty u hu hold.2

/-- What holds of the tile a view moves to, if nothing is to be forgotten there: it
shows no other view, and if the view leaves it, no other one of its list is hidden. -/
structure Receives (lit : ViewPtr → Prop) (s : Server) (t : TilePtr) (view : Option ViewPtr) :
    Prop where
  empty : ∀ u, lit u → s.disp.tileView t = some u → view = some u
  leaves : ∀ v, view = some v → s.disp.viewTile v = some t → (∃ u, lit u) →
    ∀ u, s.InListOf (s.tiles.tileWorkspace t) u → u ≠ v → ∃ t', t' ≠ t ∧ s.Shows t' u

/-- **`keybinding_move_view_to_tile`** keeps lists and tiles in order, and does not
disable what the target has shown. -/
theorem keybindingMoveViewToTile_sound (hwf : WellFormed False s) (hvi : s.ViewsInv)
    (h : s.Sound fit lit) {viewId tileId : ℕ} {follow : Bool}
    (hrec : ∀ view t, s.viewFromId viewId = .ok view → s.tileFromId tileId = .ok (some t) →
      Receives lit s t view) :
    Ensures (s.keybindingMoveViewToTile viewId tileId follow) fun s' => s'.Sound fit lit := by
  refine Ensures.bind_any fun view hview => Ensures.bind_any fun tile htile =>
    Ensures.bind_any fun old _ => ?_
  obtain ⟨oldOutput, oldWs⟩ := old
  refine Ensures.ifSome (fun _ => h) fun t ht => ?_
  subst ht
  have hrec' := hrec view t hview htile
  obtain ⟨hplaced, htid⟩ := tileFromId_placed hwf _ htile t rfl
  cases view with
  | none =>
    have hempty : ∀ u, lit u → s.disp.tileView t ≠ some u := fun u hu e =>
      nomatch hrec'.empty u hu e
    refine Ensures.bind ((emptyTile_sound h hempty).and emptyTile_keeps) fun s₁ ⟨h₁, hk₁⟩ => ?_
    refine Ensures.bind (P := fun s₂ => s₂.Sound fit lit) (Ensures.ite
      (fun _ => keybindingFocusTile_keepsSound (hk₁.wellFormed hwf) h₁) fun _ => ?_) fun s₂ h₂ => ?_
    · refine Ensures.ifSome (fun _ => h₁) fun u hu => ?_
      refine (workspaceTileUpdateView_sound h₁ (fun _ => .inl) (fun _ => .inl) ?_).mono
        fun _ h₂ => h₂.2
      rintro hlive _ ⟨⟩
      exact ⟨h₁.settled.mapped t u ⟨hlive, hu⟩, h₁.settled.onlyAt ⟨hlive, hu⟩⟩
    · exact Ensures.bind_any fun oc _ => Ensures.bind_any fun oldId _ =>
        Ensures.ok (emit_stays h₂).sound
  | some v =>
    have hlisted := viewFromId_listed h _ hview v rfl
    have hman := (viewFromId_spec hvi _ hview v rfl).managed
    refine Ensures.bind (P := fun s₁ => KeepsLayout s s₁ ∧
      s₁.Sound (fun u => fit u ∧ u ≠ v) (fun u => lit u ∧ u ≠ v) ∧
      s₁.views.managed v = true ∧ s₁.Shows t v) ?_ ?_
    · refine Ensures.bind ((takeView_loose h).and takeView_keeps) fun s₁ hs₁ => ?_
      obtain ⟨⟨h₁, hloose₁, hother₁, hleft₁⟩, hk₁⟩ := hs₁
      refine ((putView_sound h₁.sound hloose₁ ?_ ?_ ?_).and putView_keeps).mono
        fun s₂ h₂ => ⟨hk₁.trans h₂.2, h₂.1⟩
      · rw [h₁.viewMapped]
        exact h.mapped_of_listed hlisted
      · rw [h₁.managed]
        exact hman
      · intro u hu
        by_cases hvt : s.disp.viewTile v = some t
        · rw [hleft₁ t hvt (hrec'.leaves v rfl hvt ⟨u, hu⟩)]
          exact nofun
        · rw [hother₁ t hvt]
          intro e
          obtain rfl := Option.some.inj (hrec'.empty u hu e)
          -- the view would point back at the tile that shows it
          exact hvt (h.settled.tile t v ⟨hplaced.live, e⟩)
    rintro s₁ ⟨hk₁, h₁, hman₁, hshows₁⟩
    have hlift : ∀ (p : ViewPtr → Prop) u, p u → (p u ∧ u ≠ v) ∨ u = v := fun p u hu => by
      by_cases huv : u = v
      · exact .inr huv
      · exact .inl ⟨hu, huv⟩
    refine Ensures.bind (P := fun s₂ => s₂.Sound fit lit) (Ensures.ite (fun _ => ?_) fun _ => ?_)
      fun s₂ h₂ => Ensures.bind_any fun oc _ => Ensures.bind_any fun oldId _ =>
        Ensures.ok (emit_stays h₂).sound
    · have hfound : s₁.tileFromId (s₁.tiles.tileId t) = .ok (some t) := by
        rw [hk₁.tiles, htid]
        refine Eq.trans ?_ htile
        rw [tileFromId, tileFromId, hk₁.tiles, hk₁.outs]
      refine keybindingFocusTile_sound (hk₁.wellFormed hwf) h₁ (fun u hu => ?_) fun u hu => ?_
      · refine (hlift fit u hu).imp_right ?_
        rintro rfl
        exact ⟨t, hfound, hshows₁.2, hman₁⟩
      · refine (hlift lit u hu).imp_right ?_
        rintro rfl
        exact ⟨t, hfound, hshows₁.2, hman₁⟩
    · refine Ensures.ifSome (fun hnone => ?_) fun u hu => ?_
      · exact nomatch hnone.symm.trans hshows₁.2
      · obtain rfl := Option.some.inj (hu.symm.trans hshows₁.2)
        refine (workspaceTileUpdateView_sound h₁ (fun x hx => ?_) (fun x hx => ?_) ?_).mono
          fun _ h₂ => h₂.2
        · exact (hlift fit x hx).imp_right fun e => by rw [e]
        · exact (hlift lit x hx).imp_right fun e => by rw [e]
        · rintro - _ ⟨⟩
          exact ⟨h₁.settled.mapped t u hshows₁, h₁.settled.onlyAt hshows₁⟩

/-! ### Moving to the next output -/

/-- The view that the focused tile shows is taken away, and stays enabled. -/
theorem leaveView_loose (h : s.Sound fit lit) (hv : s.disp.tileView t = some v)
    (hlive : s.tiles.tileLive t = true) : Ensures (s.leaveView t v) fun s' =>
    Stays fit (fun u => lit u ∧ u ≠ v) s s' ∧ s'.Loose v := by
  refine Ensures.bind (unlinkView_stays h) ?_
  rintro s₁ ⟨h₁, hdisp₁, hun, -⟩
  have hshows : ∀ t' u, (s₁.setTileView t none).Shows t' u ↔ t' ≠ t ∧ s.Shows t' u := by
    intro t' u
    by_cases ht' : t' = t
    · simp [Shows, setTileView, ht']
    · simp [Shows, setTileView, ht', h₁.tiles, hdisp₁]
  have hshows₁ : ∀ t' u, s₁.Shows t' u ↔ s.Shows t' u := by
    intro t' u
    rw [Shows, Shows, h₁.tiles, hdisp₁]
  have hold : ∀ t' u, (s₁.setTileView t none).Shows t' u → s₁.Shows t' u := fun t' u hu =>
    (hshows₁ t' u).mpr ((hshows t' u).mp hu).2
  have h₂ : Stays fit (fun u => lit u ∧ u ≠ v) s₁ (s₁.setTileView t none) := by
    refine ⟨⟨h₁.sound.links, fun t' u hu => h₁.sound.settled.tile t' u (hold t' u hu),
      fun t' u hu => h₁.sound.settled.mapped t' u (hold t' u hu), h₁.sound.settled.focus,
      fun t' u hu hshown => ?_, fun u hu hmu hmapu => ?_⟩, rfl, rfl, fun u hu =>
      ⟨hu.unlinked, fun t' ht' => hu.hidden t' (hold t' u ht')⟩⟩
    · have hfits := h₁.sound.settled.fits t' u hu (hold t' u hshown)
      exact ⟨hfits.size, hfits.pos⟩
    · refine (h₁.sound.settled.enabled u hu.1 hmu hmapu).trans (exists_congr fun t' => ?_)
      rw [hshows, hshows₁]
      refine ⟨fun hold' => ⟨?_, hold'⟩, And.right⟩
      rintro rfl
      exact hu.2 (Option.some.inj (hold'.2.symm.trans hv))
  have hloose₂ : (s₁.setTileView t none).Loose v := by
    refine ⟨hun, fun t' ht' => ?_⟩
    obtain ⟨hne, hold'⟩ := (hshows t' v).mp ht'
    exact hne (h.settled.onlyAt ⟨hlive, hv⟩ t' hold')
  refine Ensures.bind (keybindingCycleViews_stays h₂.sound) ?_
  rintro s₃ ⟨h₃, -⟩
  have h₃' := (h₁.trans h₂).trans h₃
  refine Ensures.bind_any fun f hf => Ensures.ite (fun hnone => ?_) fun _ =>
    Ensures.ok ⟨h₃', h₃.loose v hloose₂⟩
  have hfocus := focusShown_refocused h₃.sound hf
  rw [hnone] at hfocus
  exact hfocus.mono fun s₄ h₄ => ⟨h₃'.trans h₄.toStays, h₄.loose v (h₃.loose v hloose₂)⟩

/-- A view that is in no list and no tile is put into the focused tile. -/
theorem arriveView_sound (h : s.Sound fit (fun u => lit u ∧ u ≠ v)) (hv : s.Loose v)
    (hm : s.views.viewMapped v = true) :
    Ensures (s.arriveView v) fun s' => s'.Sound fit lit := by
  refine Ensures.bind_any fun w hw => ?_
  refine Ensures.bind ((linkView_sound h hv.unlinked hm).and linkView_keeps) ?_
  rintro s₁ ⟨⟨h₁, hdisp₁, htiles₁, hviews₁, -⟩, hk₁⟩
  have hmap₁ : s₁.views.viewMapped v = true := by
    rw [hviews₁]
    exact hm
  have hlift : ∀ u, lit u → (lit u ∧ u ≠ v) ∨ some v = some u := by
    intro u hu
    by_cases huv : u = v
    · exact .inr (by rw [huv])
    · exact .inl ⟨hu, huv⟩
  refine Ensures.bind_any fun f hf => Ensures.bind ((workspaceTileUpdateView_sound h₁
    (fun _ => .inl) hlift fun _ u hu => ⟨?_, fun t ht => ?_⟩).and workspaceTileUpdateView_keeps) ?_
  · obtain rfl := Option.some.inj hu
    exact hmap₁
  · obtain rfl := Option.some.inj hu
    rw [Shows, htiles₁, hdisp₁] at ht
    exact absurd ht (hv.hidden t)
  rintro s₂ ⟨⟨ha, h₂⟩, hk₂⟩
  have h₃ : (s₂.setViewWorkspace v w).Sound fit lit := setViewWorkspace_sound h₂
  refine (seatSetFocus_stays h₃ fun u f' hu hf' _ => ?_).mono fun _ h₄ => h₄.sound
  obtain rfl := Option.some.inj hu
  have hcur : (s₂.setViewWorkspace v w).curTile = .ok f := by
    show (s₂.outs.curWs >>= fun w => s₂.tiles.focusedTile w) = .ok f
    rw [hk₂.outs, hk₁.outs, hw, ok_bind, hk₂.tiles]
    exact hf
  obtain rfl := Except.ok.inj (hcur.symm.trans hf')
  have hshown : (s₂.setViewWorkspace v w).Shows f v := ha.shows_iff.mpr (.inl ⟨rfl, rfl⟩)
  exact ⟨h₃.settled.mapped f v hshown, h₃.settled.onlyAt hshown⟩

/-- **`keybinding_move_view_to_cycle_output`** keeps lists and tiles in order. -/
theorem keybindingMoveViewToCycleOutput_sound (hwf : WellFormed False s) (h : s.Sound fit lit)
    {reverse : Bool} : Ensures (s.keybindingMoveViewToCycleOutput reverse)
      fun s' => s'.Sound fit lit := by
  refine Ensures.ite (fun _ => Ensures.ok h) fun _ => Ensures.bind_any fun old _ =>
    Ensures.bind_any fun f hf => ?_
  have hlive : s.tiles.tileLive f = true := by
    obtain ⟨o, w, -, -, hfw⟩ := curTile_eq_ok.mp hf
    exact (hwf.tiles.focused_mem (by simp) hfw).2.1
  refine Ensures.bind (P := fun s₁ => s₁.Sound fit (fun u => lit u ∧ s.disp.tileView f ≠ some u) ∧
    ∀ v, s.disp.tileView f = some v → s₁.Loose v ∧ s₁.views.viewMapped v = true) ?_ ?_
  · refine Ensures.ifSome (fun hnone => ⟨h.mono (fun _ => id) fun _ hu => hu.1, ?_⟩) fun v hv => ?_
    · intro v hv
      exact nomatch hnone.symm.trans hv
    · refine (leaveView_loose h hv hlive).mono fun s₁ ⟨h₁, hloose₁⟩ =>
        ⟨h₁.sound.mono (fun _ => id) fun u hu => ⟨hu.1, fun e => hu.2 ?_⟩, ?_⟩
      · rw [hv, e]
      · intro u hu
        obtain rfl := Option.some.inj (hv.symm.trans hu)
        refine ⟨hloose₁, ?_⟩
        rw [h₁.viewMapped]
        exact h.settled.mapped f v ⟨hlive, hv⟩
  rintro s₁ ⟨h₁, hview₁⟩
  refine Ensures.bind (keybindingCycleOutputs_refocused h₁) fun s₂ h₂ => ?_
  refine Ensures.bind (P := fun s₃ => s₃.Sound fit lit) ?_ fun s₃ h₃ => ?_
  · refine Ensures.ifSome (fun hnone => h₂.sound.mono (fun _ => id) fun u hu => ⟨hu, ?_⟩)
      fun v hv => ?_
    · rw [hnone]
      exact nofun
    · obtain ⟨hloose, hmap⟩ := hview₁ v hv
      refine arriveView_sound (h₂.sound.mono (fun _ => id) fun u hu => ⟨hu.1, fun e => hu.2 ?_⟩)
        (h₂.loose v hloose) ?_
      · exact (Option.some.inj (hv.symm.trans e)).symm
      · rw [h₂.viewMapped]
        exact hmap
  · exact Ensures.bind_any fun _ _ => Ensures.bind_any fun _ _ => Ensures.bind_any fun _ _ =>
      Ensures.bind_any fun _ _ => Ensures.ok (emit_stays h₃).sound

end Server

end Cagebreak
