/-
Views that come and go, and the lists they are in.

* `viewMap_filed`, `viewUnmap_filed` — a view that is mapped gets into the list of the
  current workspace; when it is unmapped, the view before it in its list takes its place;
* `keybindingSetNws_filed` — the views of a workspace that goes are in the list of the
  last one;
* `outputDestroy_filed` — those of an output that goes are in the current list of another.
-/
import Cagebreak.FiledMoves

namespace Cagebreak

open Exec

namespace Server

open Views

variable {s s' : Server} {t f : TilePtr} {u v : ViewPtr} {w w' : WsPtr} {o : OutPtr}
  {managed kb : Bool} {fit lit : ViewPtr → Prop} {W : WsPtr → Prop}

/-! ### Mapping -/

/-- What is in a list has been made before. -/
theorem Filed.known (hvi : s.ViewsInv) (h : s.Filed none) {v : ℕ}
    (hv : s.views.viewMapped v = true) : v < s.views.viewTop := by
  obtain ⟨w, hvw, hw⟩ := h.home v hv nofun
  obtain ⟨L, hL, hmem⟩ := h.lists
  have hin : v ∈ L (s.views.managed v) w := (hmem _ w v hw).mpr ⟨⟨hv, rfl, hvw⟩, nofun⟩
  obtain ⟨⟨a, ha⟩, -⟩ := (hL _ w hw).chained hin
  exact (hvi.lists.prev _ a ha).left

/-- Only views that are not mapped have changed. -/
theorem Filed.review (h : s.Filed none) (hlinks : s'.views.links = s.views.links)
    (hmapped : ∀ v, s'.views.viewMapped v = true ↔ s.views.viewMapped v = true)
    (hsame : ∀ v, s.views.viewMapped v = true → s'.views.managed v = s.views.managed v ∧
      s'.views.viewWorkspace v = s.views.viewWorkspace v)
    (htiles : s'.tiles = s.tiles) (htile : s'.disp.tileView = s.disp.tileView) :
    s'.Filed none := by
  have hres : ∀ managed w v, s'.views.Resides managed w v ↔ s.views.Resides managed w v := by
    intro managed w v
    constructor
    · intro hv
      have hm := (hmapped v).mp hv.mapped
      obtain ⟨hkind, hws⟩ := hsame v hm
      exact ⟨hm, hkind.symm.trans hv.kind, hws.symm.trans hv.workspace⟩
    · intro hv
      obtain ⟨hkind, hws⟩ := hsame v hv.mapped
      exact ⟨(hmapped v).mpr hv.mapped, hkind.trans hv.kind, hws.trans hv.workspace⟩
  refine ⟨?_, fun v hv hout => ?_, fun t v hv => ?_⟩
  · rw [htiles]
    exact h.lists.congr hlinks fun managed w v _ => by rw [hres]
  · have hm := (hmapped v).mp hv
    rw [htiles, (hsame v hm).2]
    exact h.home v hm hout
  · rw [hres, htiles]
    rw [Shows, htiles, htile] at hv
    exact h.shown t v hv

/-- **`view_init`** makes a view that is in no list. -/
theorem viewInit_filed (hvi : s.ViewsInv) (h : s.Filed none) {attrs : ViewAttrs} :
    Ensures (s.viewInit attrs) (Filed none) := by
  refine Ensures.bind_any fun w _ => Ensures.deref fun _ => Ensures.ok ?_
  have hold : ∀ v : ℕ, s.views.viewMapped v = true → v ≠ s.views.viewTop :=
    fun v hv => ne_of_lt (h.known hvi hv)
  refine h.review rfl (fun v => ?_)
    (fun v hv => ⟨?_, Function.update_of_ne (hold v hv) _ _⟩) rfl rfl
  · show Function.update s.views.viewMapped s.views.viewTop false v = true ↔ _
    by_cases hv : v = s.views.viewTop
    · rw [hv, Function.update_self]
      exact iff_of_false Bool.false_ne_true fun hm => hold _ hm rfl
    · rw [Function.update_of_ne hv]
  · show (Function.update s.views.viewAttrs s.views.viewTop attrs v).managed = _
    rw [Function.update_of_ne (hold v hv)]
    rfl

/-- A view that gets mapped is in no list yet. -/
theorem Filed.map (h : s.Filed none) (hv : s.views.viewMapped v = false) :
    ({ s with views.viewMapped := Function.update s.views.viewMapped v true } : Server).Filed
      (some v) := by
  have hother : ∀ u, some v ≠ some u →
      Function.update s.views.viewMapped v true u = s.views.viewMapped u := by
    intro u hu
    exact Function.update_of_ne (fun e => hu (congrArg some e).symm) _ _
  have hne : ∀ u, s.views.viewMapped u = true → some v ≠ some u := by
    rintro u hu ⟨⟩
    exact Bool.false_ne_true (hv.symm.trans hu)
  have hres : ∀ managed w u, (Resides { s.views with
      viewMapped := Function.update s.views.viewMapped v true } managed w u ∧ some v ≠ some u ↔
      s.views.Resides managed w u ∧ none ≠ some u) := by
    intro managed w u
    constructor
    · rintro ⟨hr, hu⟩
      exact ⟨⟨(hother u hu).symm.trans hr.mapped, hr.kind, hr.workspace⟩, nofun⟩
    · rintro ⟨hr, -⟩
      have hu := hne u hr.mapped
      exact ⟨⟨(hother u hu).trans hr.mapped, hr.kind, hr.workspace⟩, hu⟩
  refine ⟨h.lists.congr rfl fun managed w u _ => hres managed w u, fun u hm hu => ?_,
    fun t u hu => (hres true _ u).mpr (h.shown t u hu)⟩
  exact h.home u ((hother u hu).symm.trans hm) nofun

/-- **`view_map`** links the view into the current list. -/
theorem viewMap_filed (hti : s.tiles.TilesInv False none) (h : s.Filed none)
    (hv : s.views.viewMapped v = false) {x y : ℤ} : Ensures (s.viewMap v x y) (Filed none) := by
  refine Ensures.deref fun _ => Ensures.bind_any fun w hw => Ensures.deref fun hlive => ?_
  have hwlive := (Bool.and_eq_true_iff.mp hlive).1
  set s₁ : Server :=
    { s with views.viewMapped := Function.update s.views.viewMapped v true }.setViewWorkspace v w
    with hs₁
  have hres₁ : s₁.views.Resides (s.views.managed v) w v :=
    ⟨Function.update_self _ _ _, rfl, Function.update_self _ _ _⟩
  refine Ensures.bind
    ((linkView_filed (s := s₁) (setViewWorkspace_filed (h.map hv)) hwlive hres₁).and
    linkView_keeps) ?_
  rintro s₂ ⟨⟨h₂, -⟩, hk₂⟩
  refine Ensures.bind_any fun cur _ => ?_
  have hcur : ∀ s₃ : Server, s₃.outs = s₂.outs → s₃.outs.curWs = .ok w := by
    intro s₃ ho
    rw [ho, hk₂.outs]
    exact hw
  have hfocus : ∀ s₃, StaysFiled none s₂ s₃ → s₃.outs = s₂.outs →
      Ensures (s₃.seatSetFocus (some v)) (StaysFiled none s₃) := by
    intro s₃ h₃ ho
    have hti₃ : s₃.tiles.TilesInv False none := by
      rw [h₃.tiles, h₂.tiles]
      exact hti
    refine seatSetFocus_filed hti₃ h₃.filed fun u f hu hm hf => ⟨?_, nofun⟩
    obtain rfl := Option.some.inj hu
    -- the focused tile is one of the current workspace
    obtain ⟨w', hw', hf⟩ := bind_eq_ok.mp hf
    obtain rfl := Except.ok.inj (hw'.symm.trans (hcur s₃ ho))
    rw [(hti₃.focused_mem (by simp) hf).2.2, (h₂.trans h₃).resides]
    refine ⟨hres₁.mapped, ?_, hres₁.workspace⟩
    rw [h₃.views, h₂.views] at hm
    exact hm
  -- an unmanaged surface keeps its own position
  have hplaced : ∀ sc : Scene,
      StaysFiled none s₂ (if s₂.views.managed v then s₂ else { s₂ with scene := sc }) ∧
        (if s₂.views.managed v then s₂ else { s₂ with scene := sc }).outs = s₂.outs := by
    intro sc
    split
    · exact ⟨h₂.filed.stays, rfl⟩
    · exact ⟨h₂.filed.unchanged rfl rfl rfl, rfl⟩
  exact Ensures.bind (hfocus _ (hplaced _).1 (hplaced _).2) fun s₄ h₄ =>
    Ensures.bind_any fun tileId _ => Ensures.ok (emit_filed h₄.filed).filed

/-! ### Unmapping -/

/-- The view with the focus resides in the current workspace. -/
def FocusHome (s : Server) : Prop := ∀ f u, s.curTile = .ok f → s.disp.focusedView = some u →
  s.views.Resides true (s.tiles.tileWorkspace f) u

/-- It does so when the focused tile shows it. -/
theorem Filed.focusHome (hti : s.tiles.TilesInv False none) (h : s.Filed none)
    (ha : s.FocusAgrees) : s.FocusHome :=
  fun f u hf hu => (h.shown f u (ha.shows hti hf hu)).1

/-- What holds when a view is unmapped, if every view is to stay where it belongs: what is
asked for that no view is shown twice, and when the focus is set, it has been on a view of
the current workspace. -/
structure WithdrawsHome (s : Server) (v : ViewPtr) (kb : Bool) : Prop
    extends Withdraws s v kb where
  home : s.disp.focusedView = some v ∨ kb = true → s.FocusHome

/-- Focusing once more what has the focus. -/
theorem focusAgain_filed (hti : s.tiles.TilesInv False none) (h : s.Filed none)
    (hh : s.FocusHome) : Ensures (s.seatSetFocus s.disp.focusedView) (StaysFiled none s) :=
  seatSetFocus_filed hti h fun _ _ hu _ hf => ⟨hh _ _ hf hu, nofun⟩

/-- **Taking a view out of focus and tile.**  What takes its place is in its list. -/
theorem viewWithdraw_filed (hti : s.tiles.TilesInv False none) (h : s.Filed none)
    (hh : s.disp.focusedView = some v ∨ kb = true → s.FocusHome)
    (hv : s.views.Resides true w v) (hw : s.tiles.wsLive w = true) :
    Ensures (s.viewWithdraw v kb) (StaysFiled none s) := by
  refine Ensures.bind (viewGetPrevView_filed h hv nofun hw) fun prev hprev => ?_
  -- all tiles that come into question are in the workspace of the view
  have hhome : ∀ t u, s.views.Resides true (s.tiles.tileWorkspace t) v → prev = some u →
      s.views.Resides true (s.tiles.tileWorkspace t) u := by
    intro t u ht hu
    have hws := ht.unique hv
    rw [hws]
    exact (hprev u hu).1
  refine StaysFiled.bind (Ensures.ite (fun hfocus => seatSetFocus_filed hti h fun u f hu _ hf =>
    ⟨hhome f u (hh (.inl hfocus) f v hf hfocus) hu, nofun⟩) fun _ => Ensures.ite
    (fun hkb => focusAgain_filed hti h (hh (.inr hkb))) fun _ => Ensures.ok h.stays) fun s₁ h₁ => ?_
  refine Ensures.bind viewGetTile_shows fun tile ⟨_, htile⟩ => ?_
  refine Ensures.ifSome (fun _ => h₁.filed.stays) fun t ht => ?_
  refine (workspaceTileUpdateView_filed h₁.filed fun u hu => ⟨?_, nofun⟩).mono fun _ h' => h'.2
  have hshown := (h₁.filed.shown t v (htile t ht)).1
  rw [h₁.resides, h₁.tiles] at hshown ⊢
  exact hhome t u hshown hu

/-- A view that is in no list is not mapped any more. -/
theorem Filed.unmap (h : s.Filed (some v)) :
    ({ s with views.viewMapped := Function.update s.views.viewMapped v false } : Server).Filed
      none := by
  have hother : ∀ u, some v ≠ some u →
      Function.update s.views.viewMapped v false u = s.views.viewMapped u := by
    intro u hu
    exact Function.update_of_ne (fun e => hu (congrArg some e).symm) _ _
  have hne : ∀ u, Function.update s.views.viewMapped v false u = true → some v ≠ some u := by
    rintro u hu ⟨⟩
    rw [Function.update_self] at hu
    exact Bool.false_ne_true hu
  have hres : ∀ managed w u, (Resides { s.views with
      viewMapped := Function.update s.views.viewMapped v false } managed w u ∧ none ≠ some u ↔
      s.views.Resides managed w u ∧ some v ≠ some u) := by
    intro managed w u
    constructor
    · rintro ⟨hr, -⟩
      have hu := hne u hr.mapped
      exact ⟨⟨(hother u hu).symm.trans hr.mapped, hr.kind, hr.workspace⟩, hu⟩
    · rintro ⟨hr, hu⟩
      exact ⟨⟨(hother u hu).trans hr.mapped, hr.kind, hr.workspace⟩, nofun⟩
  refine ⟨h.lists.congr rfl fun managed w u _ => hres managed w u, fun u hm _ => ?_,
    fun t u hu => (hres true _ u).mpr (h.shown t u hu)⟩
  have hu := hne u hm
  exact h.home u ((hother u hu).symm.trans hm) hu

/-- **`view_unmap`** takes the view out of its list. -/
theorem viewUnmap_filed (hti : s.tiles.TilesInv False none) (hvi : s.ViewsInv)
    (hs : s.Sound fit lit) (h : s.Filed none)
    (hwd : s.views.viewMapped v = true → s.WithdrawsHome v kb) :
    Ensures (s.viewUnmap v kb) (Filed none) := by
  refine Ensures.bind_any fun w _ => Ensures.deref fun _ => Ensures.ite (fun hmap => ?_)
    fun _ => Ensures.ok h
  obtain ⟨w', hvw, hlive⟩ := h.home v hmap nofun
  refine Ensures.bind_any fun tileId _ => Ensures.bind (P := fun s₁ => StaysFiled none s s₁ ∧
    ∀ t, ¬ s₁.Shows t v) ?_ ?_
  · refine Ensures.ite (fun hm => ?_) fun hm => ?_
    · exact ((viewWithdraw_filed hti h (hwd hmap).home ⟨hmap, hm, hvw⟩ hlive).and
        (viewWithdraw_sound hvi hs (hwd hmap).toWithdraws)).mono fun s₁ h₁ => ⟨h₁.1, h₁.2.2.1⟩
    · -- an unmanaged surface is in no tile
      have hhidden : ∀ s₁ : Server, StaysFiled none s s₁ → ∀ t, ¬ s₁.Shows t v := by
        intro s₁ h₁ t ht
        refine hm ?_
        have hkind := (h₁.filed.shown t v ht).1.kind
        rwa [h₁.views] at hkind
      refine Ensures.ite (fun hkb => ?_) fun _ => Ensures.ok ⟨h.stays, hhidden s h.stays⟩
      exact (focusAgain_filed hti h ((hwd hmap).home (.inr hkb))).mono fun s₁ h₁ =>
        ⟨h₁, hhidden s₁ h₁⟩
  · rintro s₁ ⟨h₁, hhidden₁⟩
    refine Ensures.bind (unlinkView_filed h₁.filed ?_ hhidden₁) fun s₂ h₂ =>
      Ensures.ok (emit_filed h₂.1.unmap).filed
    rw [h₁.views]
    exact hmap

/-- **`view_destroy`** unmaps the view first. -/
theorem viewDestroy_filed (hti : s.tiles.TilesInv False none) (hvi : s.ViewsInv)
    (hs : s.Sound fit lit) (h : s.Filed none)
    (hwd : s.views.viewMapped v = true → s.WithdrawsHome v kb) :
    Ensures (s.viewDestroy v kb) (Filed none) := by
  refine Ensures.deref fun _ => Ensures.bind (P := Filed none)
    (Ensures.ite (fun _ => viewUnmap_filed hti hvi hs h hwd) fun _ => Ensures.ok h)
      fun s₁ h₁ => ?_
  refine Ensures.bind_any fun f _ => Ensures.bind_any fun _ _ => Ensures.ok ?_
  exact h₁.review rfl (fun _ => Iff.rfl) (fun _ _ => ⟨rfl, rfl⟩) rfl rfl

/-! ### The number of workspaces -/

/-- **The views of the workspaces that go** are in the lists they have been moved to. -/
theorem Dropped.filed {L : Bool → WsPtr → List ViewPtr} {into : WsPtr → WsPtr} {P : List WsPtr}
    (hd : Dropped L into P s s') (h : s.Filed none)
    (hti : s.tiles.TilesInv False none)
    (hP : ∀ w ∈ P, s.tiles.wsLive w = true)
    (hmem : ∀ managed w v, s.tiles.wsLive w = true →
      (v ∈ L managed w ↔ s.views.Resides managed w v)) :
    s'.Filed none := by
  have hmapped : ∀ v, s'.views.viewMapped v = s.views.viewMapped v := by
    intro v
    rw [hd.views]
  have hkind : ∀ v, s'.views.managed v = s.views.managed v := by
    intro v
    rw [hd.views]
    rfl
  -- where a view is afterwards
  have hmoved : ∀ v w, s.views.viewMapped v = true → s.views.viewWorkspace v = some w →
      s.tiles.wsLive w = true →
      s'.views.viewWorkspace v = if w ∈ P then some (into w) else some w := by
    intro v w hm hvw hw
    have hin : v ∈ L (s.views.managed v) w := (hmem _ w v hw).mpr ⟨hm, rfl, hvw⟩
    split
    · next hwP => exact hd.moved w hwP _ v hin
    · next hwP => exact (hd.stays w hw hwP _ v hin).trans hvw
  obtain ⟨L', hL', hmem'⟩ := hd.lists
  refine ⟨⟨L', hL', fun managed x v hx => ?_⟩, fun v hv _ => ?_, fun t v hv => ⟨?_, nofun⟩⟩
  · rw [hmem' managed x hx, and_iff_left (Option.some_ne_none v).symm]
    obtain ⟨hxlive, hxP⟩ := (hd.wsLive x).mp hx
    constructor
    · rintro (hv | ⟨w, hwP, rfl, hv⟩)
      · have hres := (hmem managed x v hxlive).mp hv
        refine ⟨(hmapped v).trans hres.mapped, (hkind v).trans hres.kind, ?_⟩
        rw [hmoved v x hres.mapped hres.workspace hxlive, if_neg hxP]
      · have hres := (hmem managed w v (hP w hwP)).mp hv
        refine ⟨(hmapped v).trans hres.mapped, (hkind v).trans hres.kind, ?_⟩
        rw [hmoved v w hres.mapped hres.workspace (hP w hwP), if_pos hwP]
    · intro hv
      have hm := (hmapped v).symm.trans hv.mapped
      obtain ⟨w, hvw, hw⟩ := h.home v hm nofun
      have hin : v ∈ L managed w := (hmem managed w v hw).mpr
        ⟨hm, (hkind v).symm.trans hv.kind, hvw⟩
      have hws := (hmoved v w hm hvw hw).symm.trans hv.workspace
      split at hws
      · next hwP => exact .inr ⟨w, hwP, Option.some.inj hws, hin⟩
      · next hwP => exact .inl (Option.some.inj hws ▸ hin)
  · rw [hmapped] at hv
    obtain ⟨w, hvw, hw⟩ := h.home v hv nofun
    rw [hmoved v w hv hvw hw]
    split
    · next hwP => exact ⟨_, rfl, hd.land w hwP⟩
    · next hwP => exact ⟨_, rfl, (hd.wsLive w).mpr ⟨hw, hwP⟩⟩
  · obtain ⟨hlive, hnot⟩ := (hd.tileLive t).mp hv.1
    have hres := (h.shown t v ⟨hlive, hd.disp ▸ hv.2⟩).1
    refine ⟨(hmapped v).trans hres.mapped, (hkind v).trans hres.kind, ?_⟩
    rw [hmoved v _ hres.mapped hres.workspace (hti.tile_ws t hlive).1, if_neg hnot,
      hd.tileWorkspace]

/-- One workspace is drained and freed. -/
theorem dropAt_filed {len : OutPtr → ℕ} {i nws : ℕ} (hlay : LayoutInv False none len s)
    (hvi : s.ViewsInv) (h : s.Filed none) (hi : nws ≤ i) (hnws : 1 ≤ nws) :
    Ensures (s.dropAt nws o i) (Filed none) := by
  refine Ensures.bind_any fun w hw => Ensures.bind_any fun last hlast =>
    Ensures.deref fun hlive => ?_
  obtain ⟨hwlive, hlastlive⟩ := Bool.and_eq_true_iff.mp hlive
  have hne : w ≠ last := by
    rintro rfl
    have hnum := (hlay.outs.place o i w (getElem?_of_wsAt hw)).2.2
    have hnum' := (hlay.outs.place o _ w (getElem?_of_wsAt hlast)).2.2
    omega
  obtain ⟨L, hL, hmem⟩ := h.lists
  have hnil : Dropped L (fun _ => last) [] s s := .nil hL hvi
  refine (hnil.step hlay.tiles hwlive hlastlive hne nofun).ensures.mono fun s' hd => ?_
  refine Dropped.filed hd h hlay.tiles (fun w' hw' => ?_) fun managed w' v hw' => ?_
  · obtain rfl := List.mem_singleton.mp hw'
    exact hwlive
  · rw [hmem managed w' v hw', and_iff_left (Option.some_ne_none v).symm]

/-- A new workspace has empty lists. -/
theorem withWorkspace_filed (hlt : ∀ t : ℕ, s.tiles.tileLive t = true → t < s.tiles.tileTop)
    (hws : ∀ w : ℕ, s.tiles.wsLive w = true → w < s.tiles.wsTop) (h : s.Filed none) {num : ℕ} :
    (s.withWorkspace o num).Filed none := by
  set w₀ : ℕ := s.tiles.wsTop with hw₀
  have hold : ∀ w : ℕ, s.tiles.wsLive w = true → w ≠ w₀ := fun w hw => ne_of_lt (hws w hw)
  have hres : ∀ managed w v, (s.withWorkspace o num).views.Resides managed w v ↔
      s.views.Resides managed w v := fun managed w v => Resides.of_links rfl
  have hlive : (s.withWorkspace o num).tiles.wsLive = Function.update s.tiles.wsLive w₀ true := rfl
  obtain ⟨L, hL, hmem⟩ := h.lists
  refine ⟨⟨fun managed w => if w = w₀ then [] else L managed w, fun managed w hw => ?_,
    fun managed w v hw => ?_⟩, fun v hv _ => ?_, fun t v hv => ?_⟩
  · -- the other lists are out of the way of the two new ones
    show ((s.views.wlListInit (.head true w₀)).wlListInit (.head false w₀)).ListIs managed w
      (if w = w₀ then [] else L managed w)
    by_cases hne : w = w₀
    · rw [if_pos hne, hne]
      cases managed with
      | true => exact listIs_wlListInit.wlListInit (by simp)
      | false => exact listIs_wlListInit
    · rw [hlive, Function.update_of_ne hne] at hw
      have hother : ∀ m : Bool, ¬ (m = managed ∧ w₀ = w) := fun _ hc => hne hc.2.symm
      rw [if_neg hne]
      exact ((hL managed w hw).wlListInit (hother _)).wlListInit (hother _)
  · show v ∈ (if w = w₀ then [] else L managed w) ↔ _
    rw [hres, and_iff_left (Option.some_ne_none v).symm]
    by_cases hne : w = w₀
    · rw [if_pos hne]
      refine iff_of_false List.not_mem_nil fun hr => ?_
      obtain ⟨w', hvw, hw'⟩ := h.home v hr.mapped nofun
      exact hold w' hw' ((Option.some.inj (hvw.symm.trans hr.workspace)).trans hne)
    · rw [hlive, Function.update_of_ne hne] at hw
      rw [if_neg hne, hmem managed w v hw, and_iff_left (Option.some_ne_none v).symm]
  · obtain ⟨w, hvw, hw⟩ := h.home v hv nofun
    refine ⟨w, hvw, ?_⟩
    rw [hlive, Function.update_of_ne (hold w hw)]
    exact hw
  · obtain ⟨hshown, htw⟩ :=
      newTile_showsLess (T := (s.withWorkspace o num).tiles) hlt rfl rfl t v hv
    rw [hres]
    change (s.withWorkspace o num).tiles.tileWorkspace t = s.tiles.tileWorkspace t at htw
    rw [htw]
    exact h.shown t v hshown

/-- **Workspaces are added** to an output. -/
theorem addWorkspaces_filed {l : List ℕ}
    (hlt : ∀ t : ℕ, s.tiles.tileLive t = true → t < s.tiles.tileTop)
    (hws : ∀ w : ℕ, s.tiles.wsLive w = true → w < s.tiles.wsTop) (h : s.Filed none) :
    Ensures (l.foldlM (addWorkspace o) s) (Filed none) := by
  refine Ensures.mono (P := fun s' => s'.Filed none ∧
    (∀ t : ℕ, s'.tiles.tileLive t = true → t < s'.tiles.tileTop) ∧
    ∀ w : ℕ, s'.tiles.wsLive w = true → w < s'.tiles.wsTop) ?_ fun _ h' => h'.1
  refine Ensures.foldlM (fun s₁ i _ ⟨h₁, hlt₁, hws₁⟩ => ?_) ⟨h, hlt, hws⟩
  intro s₂ hs₂
  obtain ⟨-, -, rfl⟩ := addWorkspace_eq_ok.mp hs₂
  refine ⟨(withWorkspace_filed hlt₁ hws₁ h₁).congr rfl rfl rfl, fun t ht => ?_,
    fun w hw => ?_⟩
  · change Function.update s₁.tiles.tileLive s₁.tiles.tileTop true t = true at ht
    show t < s₁.tiles.tileTop + 1
    by_cases hne : t = s₁.tiles.tileTop
    · omega
    · rw [Function.update_of_ne hne] at ht
      exact Nat.lt_succ_of_lt (hlt₁ t ht)
  · change Function.update s₁.tiles.wsLive s₁.tiles.wsTop true w = true at hw
    show w < s₁.tiles.wsTop + 1
    by_cases hne : w = s₁.tiles.wsTop
    · omega
    · rw [Function.update_of_ne hne] at hw
      exact Nat.lt_succ_of_lt (hws₁ w hw)

/-- **`keybinding_set_nws`** for one output. -/
theorem outputSetNws_filed {len : OutPtr → ℕ} {oldNws nws : ℕ} (hlay : LayoutInv False none len s)
    (hvi : s.ViewsInv) (h : s.Filed none) (hnws : s.outs.nws = nws) (hn : 1 ≤ nws) :
    Ensures (outputSetNws oldNws nws s o) (Filed none) := by
  refine Ensures.bind (P := fun s₁ => LayoutInv False none len s₁ ∧ s₁.outs = s.outs ∧
    s₁.ViewsInv ∧ s₁.Filed none) (Ensures.foldlM (fun s₁ i hi hI => ?_)
    ⟨hlay, rfl, hvi, h⟩) fun s₁ hI => ?_
  · obtain ⟨hlay₁, houts₁, hvi₁, h₁⟩ := hI
    have hi' := (List.mem_range'_1.mp hi).1
    have hkept : Ensures (s₁.dropAt nws o i) fun s₂ => s₂.ViewsInv := by
      refine Ensures.bind_any fun _ _ => Ensures.bind_any fun _ _ => Ensures.deref fun _ => ?_
      exact Ensures.bind (moveViews_kept hvi₁) fun s₂ h₂ => Ensures.bind (moveViews_kept h₂.inv)
        fun s₃ h₃ => (workspaceFree_kept h₃.inv).mono fun _ h₄ => h₄.inv
    have hdrop : Ensures (s₁.dropAt nws o i) fun s₂ =>
        LayoutInv False none len s₂ ∧ s₂.outs = s₁.outs := by
      refine dropAt_inv hlay₁ ?_
      rw [houts₁, hnws]
      exact hi'
    exact (hdrop.and (hkept.and (dropAt_filed hlay₁ hvi₁ h₁ hi' hn))).mono
      fun s₂ ⟨⟨hlay₂, houts₂⟩, hvi₂, h₂⟩ => ⟨hlay₂, houts₂.trans houts₁, hvi₂, h₂⟩
  obtain ⟨hlay₁, -, -, h₁⟩ := hI
  have hset : (s₁.setWorkspaces o ((s₁.outs.outWorkspaces o).take nws)).Filed none :=
    h₁.congr rfl rfl rfl
  refine Ensures.bind (addWorkspaces_filed hlay₁.tiles.tile_lt hlay₁.tiles.ws_lt hset)
    fun s₂ h₂ => ?_
  refine Ensures.ite (fun _ => workspaceFocus_spec.mono ?_) fun _ => Ensures.ok h₂
  rintro s₃ (⟨rfl, -⟩ | ⟨rfl, -⟩)
  · exact h₂.congr rfl rfl rfl
  · exact h₂.congr rfl rfl rfl

/-- **`keybinding_set_nws`** leaves every view in a list. -/
theorem keybindingSetNws_filed (hwf : WellFormed False s) (hvi : s.ViewsInv) (h : s.Filed none)
    {nws : ℕ} (hn : 1 ≤ nws) : Ensures (s.keybindingSetNws nws) (Filed none) := by
  refine Ensures.bind (setNws_loop (I := fun _ s₁ => s₁.ViewsInv ∧ s₁.Filed none)
    (fun o l s₁ _ hnws hlay₁ h₁ => ?_) _ _ hwf.outs.nodup (fun _ ho => ho)
    (WellFormed.setNws hwf nws) rfl ⟨?_, ?_⟩) fun s₁ ⟨hlay₁, _, _, h₁⟩ => ?_
  · exact ((outputSetNws_kept h₁.1).mono fun _ h₂ => h₂.inv).and
      (outputSetNws_filed hlay₁ h₁.1 h₁.2 hnws hn)
  · have hkept : Kept s { s with outs.nws := nws } := hvi.unchanged rfl rfl rfl
    exact hkept.inv
  · exact h.congr rfl rfl rfl
  · exact Ensures.bind (refocus_filed hlay₁.tiles h₁) fun s₂ h₂ =>
      Ensures.ok (emit_filed h₂.filed).filed

/-- **`handle_new_output`** starts new lists. -/
theorem handleNewOutput_filed (hwf : WellFormed False s) (h : s.Filed none) {name : String}
    {box : LayoutBox} : Ensures (s.handleNewOutput name box) (Filed none) := by
  refine Ensures.bind (addWorkspaces_filed (by exact hwf.tiles.tile_lt) (by exact hwf.tiles.ws_lt)
    (h.congr rfl rfl rfl)) fun s₁ h₁ => ?_
  refine Ensures.bind (P := Filed none) (workspaceFocus_spec.mono ?_)
    fun s₂ h₂ => Ensures.ok (h₂.congr rfl rfl rfl)
  rintro s₂ (⟨rfl, -⟩ | ⟨rfl, -⟩)
  · exact h₁
  · exact h₁.congr rfl rfl rfl

end Server

end Cagebreak
