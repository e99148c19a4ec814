/-
Workspaces and outputs that come and go, and the views they show.

A workspace that is freed must not show a view any more, since its tiles are freed
without a look at what they show (`outputSetNws_sound`).  An output that goes away
takes what it shows out of its tiles first (`outputDestroy_sound`); the views of its
lists must not be shown by tiles of other workspaces, as they are pointed at the
tile they move to.
-/
import Cagebreak.ShownMoves

namespace Cagebreak

open Exec

namespace Server

open Views

variable {s s' s'' : Server} {t t' f : TilePtr} {u v : ViewPtr} {w w' : WsPtr} {o : OutPtr}
  {view : Option ViewPtr} {fit lit : ViewPtr → Prop} {managed : Bool}

/-! ### The number of workspaces -/

/-- Every tile that shows a view has shown it in the same workspace before. -/
def ShowsLess (s s' : Server) : Prop := ∀ t v, s'.Shows t v →
  s.Shows t v ∧ s'.tiles.tileWorkspace t = s.tiles.tileWorkspace t

theorem ShowsLess.refl : ShowsLess s s := fun _ _ hv => ⟨hv, rfl⟩

theorem ShowsLess.trans (h : ShowsLess s s') (h' : ShowsLess s' s'') : ShowsLess s s'' := by
  intro t v hv
  obtain ⟨hv', hw'⟩ := h' t v hv
  obtain ⟨hv'', hw''⟩ := h t v hv'
  exact ⟨hv'', hw'.trans hw''⟩

theorem showsLess_of_eq (htiles : s'.tiles = s.tiles) (hdisp : s'.disp = s.disp) :
    ShowsLess s s' := by
  intro t v hv
  rw [Shows, htiles, hdisp] at hv
  exact ⟨hv, by rw [htiles]⟩

/-- Views that move to another list stay in their tiles. -/
theorem moveViews_sound (h : s.Sound fit lit) : Ensures (s.moveViews managed w w') fun s' =>
    s'.Sound fit lit ∧ s'.tiles = s.tiles ∧ s'.disp = s.disp := by
  refine forEachViewSafe_ensures (I := fun s' => s'.Sound fit lit ∧ s'.tiles = s.tiles ∧
    s'.disp = s.disp) (fun s₁ v h₁ => ?_) ⟨h, rfl, rfl⟩
  refine Ensures.bind (unlinkView_stays h₁.1) ?_
  rintro s₂ ⟨h₂, hdisp₂, hun, hm⟩
  have hm₂ : s₂.views.viewMapped v = true := by
    rw [h₂.viewMapped]
    exact hm
  refine Ensures.bind (linkView_sound h₂.sound hun hm₂) ?_
  rintro s₃ ⟨h₃, hdisp₃, htiles₃, -⟩
  exact Ensures.ok ⟨setViewWorkspace_sound h₃, (htiles₃.trans h₂.tiles).trans h₁.2.1,
    (hdisp₃.trans hdisp₂).trans h₁.2.2⟩

/-- Freeing a workspace that shows no view. -/
theorem workspaceFree_sound (hwf : s.tiles.TilesInv False none) (h : s.Sound fit lit)
    (hempty : ∀ t v, lit v → s.Shows t v → s.tiles.tileWorkspace t ≠ w) :
    Ensures (s.workspaceFree w) fun s' => s'.Sound fit lit ∧ ShowsLess s s' := by
  refine Ensures.bind ((workspaceFreeTiles_sound hwf h (fun _ => id) hempty).and
    (workspaceFreeTiles_spec hwf)) ?_
  rintro s₁ ⟨⟨h₁, -, -, hshows₁⟩, -, c, T', rfl, hfreed, -⟩
  refine Ensures.ok ⟨⟨h₁.links, h₁.settled.congr rfl rfl rfl rfl rfl rfl rfl h₁.settled.focus⟩,
    fun t v hv => ⟨((hshows₁ t v).mp hv).1, ?_⟩⟩
  show T'.tileWorkspace t = s.tiles.tileWorkspace t
  rw [hfreed.tileWorkspace]

/-- The tile a workspace gets is a new one. -/
theorem fullScreenWorkspaceTiles_tiles : Ensures (s.fullScreenWorkspaceTiles w) fun s' =>
    s'.tiles.wsTop = s.tiles.wsTop ∧ s'.tiles.tileTop = s.tiles.tileTop + 1 ∧
      s'.tiles.tileLive = Function.update s.tiles.tileLive s.tiles.tileTop true ∧
      s'.tiles.tileWorkspace = Function.update s.tiles.tileWorkspace s.tiles.tileTop w ∧
      s'.outs = s.outs := by
  refine Ensures.deref fun _ => workspaceTileUpdateView_keeps.mono fun s' h' => ?_
  rw [h'.tiles, h'.outs]
  exact ⟨rfl, rfl, rfl, rfl, rfl⟩

/-- A new workspace shows nothing, and its lists are empty. -/
theorem newWorkspace_sound
    (hlt : ∀ t : ℕ, s.tiles.tileLive t = true → t < s.tiles.tileTop) (h : s.Sound fit lit)
    {num : ℕ} : Ensures (s.newWorkspace o num) fun p => p.2.Sound fit lit ∧
      ShowsLess s p.2 ∧ (∀ t : ℕ, p.2.tiles.tileLive t = true → t < p.2.tiles.tileTop) ∧
      p.2.outs = s.outs := by
  have hsound₁ : ({ s with tiles := { s.tiles with
      wsTop := s.tiles.wsTop + 1
      wsLive := Function.update s.tiles.wsLive s.tiles.wsTop true
      wsOutput := Function.update s.tiles.wsOutput s.tiles.wsTop o
      wsNum := Function.update s.tiles.wsNum s.tiles.wsTop num } } : Server).Sound fit lit := by
    refine ⟨h.links.congr rfl fun n hn => .inl ?_,
      h.settled.congr rfl rfl rfl rfl rfl rfl rfl h.settled.focus⟩
    cases n with
    | head managed w => exact Nat.lt_succ_of_lt hn
    | view v => exact hn
  -- nothing is linked to the heads of a workspace that does not exist yet
  have hun : ∀ m, s.views.links.Unlinked (.head m s.tiles.wsTop) := fun m =>
    h.links.ready _ (lt_irrefl _)
  refine Ensures.bind (P := fun s₂ => s₂.Sound fit lit ∧ s₂.views = s.views ∧
    (∀ t v, s₂.Shows t v ↔ s.Shows t v) ∧ s₂.tiles.wsTop = s.tiles.wsTop + 1 ∧
    s₂.tiles.tileTop = s.tiles.tileTop + 1 ∧
    s₂.tiles.tileLive = Function.update s.tiles.tileLive s.tiles.tileTop true ∧
    s₂.tiles.tileWorkspace = Function.update s.tiles.tileWorkspace s.tiles.tileTop s.tiles.wsTop ∧
    s₂.outs = s.outs) ?_ ?_
  · refine ((fullScreenWorkspaceTiles_sound (by exact hlt) hsound₁).and
      fullScreenWorkspaceTiles_tiles).mono ?_
    rintro s₂ ⟨⟨h₂, hviews₂, -, hshows₂⟩, htiles⟩
    exact ⟨h₂, hviews₂, hshows₂, htiles⟩
  rintro s₂ ⟨h₂, hviews₂, hshows₂, hws, htop, hlive, htw, houts⟩
  have hready : ∀ m (V : Views), V.Ready s₂.tiles.wsTop (.head m s.tiles.wsTop) := by
    intro m V
    show s.tiles.wsTop < s₂.tiles.wsTop
    rw [hws]
    exact Nat.lt_succ_self _
  have hun₂ : ∀ m, s₂.views.links.Unlinked (.head m s.tiles.wsTop) := by
    rw [hviews₂]
    exact hun
  obtain ⟨hinit, hkeep⟩ := wlListInit_links h₂.links (hun₂ true) (hready true _)
  obtain ⟨hinit', -⟩ := wlListInit_links hinit
    (hkeep (.head false s.tiles.wsTop) (by simp) (hun₂ false))
    (hready false _)
  refine Ensures.ok ⟨⟨hinit', h₂.settled.congr rfl rfl rfl rfl rfl rfl rfl h₂.settled.focus⟩,
    fun t v hv => ?_, fun t ht => ?_, houts⟩
  · have hold := (hshows₂ t v).mp hv
    refine ⟨hold, ?_⟩
    have ht : t ≠ s.tiles.tileTop := fun e => lt_irrefl _ (e ▸ hlt t hold.1)
    show s₂.tiles.tileWorkspace t = s.tiles.tileWorkspace t
    rw [htw, Function.update_of_ne ht]
  · change s₂.tiles.tileLive t = true at ht
    show t < s₂.tiles.tileTop
    rw [htop]
    by_cases hne : t = s.tiles.tileTop
    · omega
    · rw [hlive, Function.update_of_ne hne] at ht
      exact Nat.lt_succ_of_lt (hlt t ht)

/-- Workspaces are added to an output. -/
theorem addWorkspaces_sound {l : List ℕ}
    (hlt : ∀ t : ℕ, s.tiles.tileLive t = true → t < s.tiles.tileTop) (h : s.Sound fit lit) :
    Ensures (l.foldlM (addWorkspace o) s) fun s' =>
      s'.Sound fit lit ∧ ShowsLess s s' ∧
        ∀ o', o' ≠ o → s'.outs.outWorkspaces o' = s.outs.outWorkspaces o' := by
  refine Ensures.mono (P := fun s' => (s'.Sound fit lit ∧ ShowsLess s s' ∧
    ∀ o', o' ≠ o → s'.outs.outWorkspaces o' = s.outs.outWorkspaces o') ∧
    ∀ t : ℕ, s'.tiles.tileLive t = true → t < s'.tiles.tileTop) ?_ fun _ h' => h'.1
  refine Ensures.foldlM (fun s₁ i _ h₁ => ?_) ⟨⟨h, .refl, fun _ _ => rfl⟩, hlt⟩
  obtain ⟨⟨h₁, hless₁, hother₁⟩, hlt₁⟩ := h₁
  refine addWorkspace_ensures ((newWorkspace_sound hlt₁ h₁).mono fun p hp => ?_)
  obtain ⟨w, s₂⟩ := p
  obtain ⟨h₂, hless₂, hlt₂, houts₂⟩ := hp
  refine ⟨⟨?_, ?_, fun o' ho' => ?_⟩, hlt₂⟩
  · exact h₂.congr rfl rfl rfl rfl
  · exact hless₁.trans hless₂
  · rw [← hother₁ o' ho', ← show s₂.outs = s₁.outs from houts₂]
    exact Function.update_of_ne ho' _ _

/-- **`keybinding_set_nws`** for one output.  The workspaces it frees show no view. -/
theorem outputSetNws_sound {len : OutPtr → ℕ} {oldNws nws : ℕ} (hwf : LayoutInv False none len s)
    (h : s.Sound fit lit) (hnws : s.outs.nws = nws)
    (hempty : ∀ i w t v, nws ≤ i → s.outs.wsAt o i = .ok w → lit v → s.Shows t v →
      s.tiles.tileWorkspace t ≠ w) :
    Ensures (outputSetNws oldNws nws s o) fun s' => s'.Sound fit lit ∧ ShowsLess s s' ∧
      ∀ o', o' ≠ o → s'.outs.outWorkspaces o' = s.outs.outWorkspaces o' := by
  refine Ensures.bind (P := fun s₁ => LayoutInv False none len s₁ ∧ s₁.outs = s.outs ∧
    s₁.Sound fit lit ∧ ShowsLess s s₁) (Ensures.foldlM (fun s₁ i hi h₁ => ?_)
    ⟨hwf, rfl, h, .refl⟩) fun s₁ ⟨hwf₁, houts₁, h₁, hless₁⟩ => ?_
  · obtain ⟨hwf₁, houts₁, h₁, hless₁⟩ := h₁
    refine Ensures.bind_any fun w hw => Ensures.bind_any fun last _ => Ensures.deref fun _ => ?_
    refine Ensures.bind ((moveViews_sound h₁).and moveViews_keeps) ?_
    rintro s₂ ⟨⟨h₂, htiles₂, hdisp₂⟩, hk₂⟩
    refine Ensures.bind ((moveViews_sound h₂).and moveViews_keeps) ?_
    rintro s₃ ⟨⟨h₃, htiles₃, hdisp₃⟩, hk₃⟩
    have hk := hk₂.trans hk₃
    have hless₃ : ShowsLess s s₃ := (hless₁.trans (showsLess_of_eq htiles₂ hdisp₂)).trans
      (showsLess_of_eq htiles₃ hdisp₃)
    have hi' := (List.mem_range'_1.mp hi).1
    have hw₃ : s₃.outs.wsAt o i = .ok w := by
      rw [hk.outs]
      exact hw
    have hwf₃ : LayoutInv False none len s₃ := hk.inv hwf₁
    refine ((workspaceFree_sound hwf₃.tiles h₃ fun t v hv hshown => ?_).and
      (workspaceFree_last hwf₃ hw₃ ?_)).mono ?_
    · obtain ⟨hold, htw⟩ := hless₃ t v hshown
      rw [htw]
      refine hempty i w t v hi' ?_ hv hold
      rw [← houts₁]
      exact hw
    · rw [hk.outs, houts₁, hnws]
      exact hi'
    · rintro s₄ ⟨⟨h₄, hless₄⟩, hwf₄, houts₄⟩
      exact ⟨hwf₄, houts₄.trans (hk.outs.trans houts₁), h₄, hless₃.trans hless₄⟩
  have h₁' : (s₁.setWorkspaces o ((s₁.outs.outWorkspaces o).take nws)).Sound fit lit :=
    h₁.congr rfl rfl rfl rfl
  refine Ensures.bind (P := fun s₂ => s₂.Sound fit lit ∧ ShowsLess s s₂ ∧
    ∀ o', o' ≠ o → s₂.outs.outWorkspaces o' = s.outs.outWorkspaces o') ?_ fun s₂ h₂ => ?_
  · refine (addWorkspaces_sound (by exact hwf₁.tiles.tile_lt) h₁').mono fun s₂ h₂ =>
      ⟨h₂.1, hless₁.trans h₂.2.1, fun o' ho' => (h₂.2.2 o' ho').trans ?_⟩
    rw [← houts₁]
    exact Function.update_of_ne ho' _ _
  refine Ensures.ite (fun _ => workspaceFocus_spec.mono ?_) fun _ => Ensures.ok h₂
  rintro s₃ (⟨rfl, -⟩ | ⟨rfl, -⟩)
  · exact ⟨h₂.1.congr rfl rfl rfl rfl, h₂.2.1, h₂.2.2⟩
  · exact ⟨h₂.1.congr rfl rfl rfl rfl, h₂.2.1, h₂.2.2⟩

/-- **`keybinding_set_nws`** keeps lists and tiles in order, if the workspaces it
frees show no view. -/
theorem keybindingSetNws_sound (hwf : WellFormed False s) (h : s.Sound fit lit) {nws : ℕ}
    (hempty : ∀ o ∈ s.outs.outputs, ∀ i w t v, nws ≤ i → s.outs.wsAt o i = .ok w → lit v →
      s.Shows t v → s.tiles.tileWorkspace t ≠ w) :
    Ensures (s.keybindingSetNws nws) fun s' => s'.Sound fit lit := by
  set I : List OutPtr → Server → Prop := fun l s₁ => s₁.Sound fit lit ∧ ShowsLess s s₁ ∧
    ∀ o ∈ l, o ∈ s.outs.outputs ∧ s₁.outs.outWorkspaces o = s.outs.outWorkspaces o with hI
  refine Ensures.bind (setNws_loop (I := I) (fun o l s₁ hol hnws hwf₁ h₁ => ?_) _ _
    hwf.outs.nodup (fun _ ho => ho) (WellFormed.setNws hwf nws) rfl
    ⟨h.congr rfl rfl rfl rfl, .refl, fun o ho => ⟨ho, rfl⟩⟩) fun s₁ ⟨_, _, h₁⟩ => ?_
  · obtain ⟨hs₁, hless₁, harr₁⟩ := h₁
    obtain ⟨ho, heq⟩ := harr₁ o List.mem_cons_self
    refine (outputSetNws_sound hwf₁ hs₁ hnws fun i w t v hi hw hv hshown => ?_).mono
      fun s₂ h₂ => ⟨h₂.1, hless₁.trans h₂.2.1, fun o' ho' => ?_⟩
    · obtain ⟨hold, htw⟩ := hless₁ t v hshown
      rw [htw]
      refine hempty o ho i w t v hi ?_ hv hold
      rw [Outputs.wsAt, hwf.outs.outLive o ho, ← heq, getElem?_of_wsAt hw]
      rfl
    · have hne : o' ≠ o := fun e => hol (e ▸ ho')
      obtain ⟨hmem, heq'⟩ := harr₁ o' (List.mem_cons_of_mem _ ho')
      exact ⟨hmem, (h₂.2.2 o' hne).trans heq'⟩
  · exact Ensures.bind (refocus_refocused h₁.1) fun s₂ h₂ =>
      Ensures.ok (emit_stays h₂.sound).sound

/-- A new output shows nothing. -/
theorem handleNewOutput_sound (hwf : WellFormed False s) (h : s.Sound fit lit) {name : String}
    {box : LayoutBox} : Ensures (s.handleNewOutput name box) fun s' => s'.Sound fit lit := by
  refine Ensures.bind (addWorkspaces_sound (by exact hwf.tiles.tile_lt) (h.congr rfl rfl rfl rfl))
    fun s₁ h₁ => ?_
  refine Ensures.bind (P := fun s₂ => s₂.Sound fit lit) (workspaceFocus_spec.mono ?_)
    fun s₂ h₂ => Ensures.ok (h₂.congr rfl rfl rfl rfl)
  rintro s₂ (⟨rfl, -⟩ | ⟨rfl, -⟩)
  · exact h₁.1
  · exact h₁.1.congr rfl rfl rfl rfl

end Server

end Cagebreak
