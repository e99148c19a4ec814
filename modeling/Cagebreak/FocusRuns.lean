/-
The keyboard focus in every run.

Every input but two leaves the keyboard focus where the layout says, if it has been
there.  The two are a merge that frees the focused tile, and a command that empties it
since the view it is to move there does not exist.

* `step_focus` — what one input does, and exactly when (`LosesFocus`);
* `focus_agrees`, `focusedView_shown` — what that gives for runs.
-/
import Cagebreak.CurrentRuns
import Cagebreak.Focus
import Cagebreak.SetNws

namespace Cagebreak

open Exec

namespace Server

variable {s s' s'' : Server} {t m f : TilePtr} {u v : ViewPtr} {w : WsPtr} {o : OutPtr}
  {view : Option ViewPtr} {managed : Bool}

/-! ### Moving views -/

theorem focusBackground_focused : Ensures (s.seatSetFocus none) Focused := by
  refine seatSetFocus_focused ?_
  simp

theorem clearTile_kept (hvi : s.ViewsInv) :
    Ensures (s.workspaceTileUpdateView t none) (Kept s) := by
  refine workspaceTileUpdateView_kept hvi ?_
  simp

theorem linkView_managed : Ensures (s.linkView managed w v) fun s' =>
    s'.views.managed = s.views.managed := by
  refine Ensures.bind wlListInsert_spec ?_
  rintro V ⟨c, -, rfl⟩
  exact Ensures.ok rfl

/-- Cycling the focused tile focuses the view it goes on to. -/
theorem cycleFocused (hvi : s.ViewsInv) (ht : s.curTile = .ok t) {tile : Option TilePtr}
    (htile : ∀ t', tile = some t' → t' = t) {viewId : ℕ} {reverse : Bool} :
    Ensures (s.keybindingCycleViews tile viewId reverse false) fun s' => s' = s ∨ s'.Focused := by
  refine Ensures.bind (P := fun t' => t' = t) ?_ ?_
  · cases tile with
    | none =>
      intro t' ht'
      exact Except.ok.inj (ht'.symm.trans ht)
    | some t' => exact Ensures.ok (htile t' rfl)
  rintro t' rfl
  refine Ensures.deref fun _ => Ensures.bind (cycleTarget_spec hvi) fun next hnext =>
    Ensures.ifSome (fun _ => .inl rfl) fun v hv => ?_
  have hman := (hnext v hv).1
  refine Ensures.bind (workspaceTileUpdateView_keeps.and (workspaceTileUpdateView_kept hvi
    fun u hu => ?_)) fun s₁ ⟨hk₁, h₁⟩ => Ensures.bind_any fun f hf => ?_
  · obtain rfl := Option.some.inj hu
    exact hman
  obtain rfl : t' = f := by
    rw [hk₁.curTile, ht] at hf
    exact Except.ok.inj hf
  rw [if_pos rfl]
  refine Ensures.bind (seatSetFocus_focused fun u hu => ?_) fun s₂ h₂ => Ensures.ok (.inr h₂)
  obtain rfl := Option.some.inj hu
  exact (h₁.same.manages hman).managed

/-- Taking a view out of the focused tile focuses what that tile goes on to. -/
theorem takeView_refocuses (hvi : s.ViewsInv) : Ensures (s.takeView v) (Refocuses s) := by
  unfold takeView
  cases s.disp.viewTile v with
  | none => exact SameFocus.refocuses unlinkView_sameFocus
  | some old =>
    by_cases hcur : s.curTile = .ok old
    · refine Ensures.bind (workspaceTileUpdateView_keeps.and
        ((clearTile_kept hvi).and workspaceTileUpdateView_spec)) ?_
      rintro s₁ ⟨hk₁, h₁, -, sc, heq⟩
      have hnone₁ : s₁.disp.tileView old = none := by
        rw [heq]
        exact Function.update_self _ _ _
      refine Ensures.bind ((unlinkView_kept h₁.inv).and unlinkView_sameFocus) fun s₂ ⟨h₂, hs₂⟩ => ?_
      have hcur₁ : s₁.curTile = .ok old := hk₁.curTile.trans hcur
      have hcur₂ : s₂.curTile = .ok old := hs₂.curTile.trans hcur₁
      refine Ensures.bind (cycleFocused h₂.inv hcur₂ (by simp)) fun s₃ h₃ =>
        Ensures.bind_any fun f hf =>
          Ensures.ite (fun _ => Focused.refocuses focusBackground_focused) fun hshown => ?_
      rcases h₃ with rfl | h₃
      · -- nothing has been found, so the tile is empty
        refine absurd ⟨(hs₂.tileView old hcur₁).trans hnone₁, ?_⟩ hshown
        exact Except.ok.inj (hcur₂.symm.trans hf)
      · exact Ensures.ok (.inr h₃)
    · refine Refocuses.bind (SameFocus.refocuses (workspaceTileUpdateView_sameFocus
        fun h => absurd h hcur)) fun s₁ hs₁ => ?_
      have h₁ := clearTile_kept hvi s₁ hs₁
      refine Refocuses.bind (SameFocus.refocuses unlinkView_sameFocus) fun s₂ hs₂ => ?_
      have h₂ := unlinkView_kept h₁.inv s₂ hs₂
      refine Refocuses.bind (keybindingCycleViews_refocuses h₂.inv) fun s₃ _ =>
        Ensures.bind_any fun f _ => Ensures.ite (fun _ => ?_) fun _ => Ensures.ok .refl
      exact Focused.refocuses focusBackground_focused

/-- Another tile shows another view. -/
theorem setTileView_sameFocus (h : s.curTile ≠ .ok t) : SameFocus s (s.setTileView t view) := by
  refine ⟨curTile_congr rfl fun w _ => ⟨rfl, rfl⟩, rfl, fun f hf => ?_, rfl⟩
  refine Function.update_of_ne ?_ _ _
  rintro rfl
  exact h hf

theorem putView_refocuses (hv : s.views.managed v = true) :
    Ensures (s.putView v t) (Refocuses s) := by
  refine Ensures.deref fun _ => ?_
  have h₀ : SameFocus s (s.setViewWorkspace v (s.tiles.tileWorkspace t)) :=
    sameFocus_of_eq rfl rfl rfl rfl
  refine Ensures.bind (linkView_sameFocus.and linkView_managed) fun s₁ ⟨h₁, hl₁⟩ => ?_
  have h₂ : SameFocus s₁ (s₁.setViewTile v (some t)) := sameFocus_of_eq rfl rfl rfl rfl
  refine Ensures.bind_any fun f hf => Ensures.ite (fun _ => ?_) fun htf => Ensures.ok (.inl ?_)
  · refine Focused.refocuses (seatSetFocus_focused fun u hu => ?_)
    obtain rfl := Option.some.inj hu
    show s₁.views.managed v = true
    rw [hl₁]
    exact hv
  · refine ((h₀.trans h₁).trans h₂).trans (setTileView_sameFocus fun hcur => htf ?_)
    exact Except.ok.inj (hcur.symm.trans hf)

/-- The focused tile has been emptied, and its view keeps the focus. -/
structure FocusEmptied (s : Server) (t : TilePtr) (s' : Server) : Prop where
  curTile : s'.curTile = .ok t
  focusedView : s'.disp.focusedView = s.disp.focusedView
  tileView : s'.disp.tileView t = none

theorem SameFocus.emptied (h : SameFocus s' s'') (h' : FocusEmptied s t s') :
    FocusEmptied s t s'' where
  curTile := h.curTile.trans h'.curTile
  focusedView := h.focusedView.trans h'.focusedView
  tileView := (h.tileView t h'.curTile).trans h'.tileView

theorem FocusEmptied.disagrees (h : FocusEmptied s t s') (hs : s.FocusAgrees)
    (ht : s.curTile = .ok t) (hv : s.disp.tileView t ≠ none) : ¬ s'.FocusAgrees := by
  intro hs'
  refine hv ?_
  rw [← hs t ht, ← h.focusedView, hs' t h.curTile, h.tileView]

theorem emptyTile_focus : Ensures (s.emptyTile t) fun s' =>
    SameFocus s s' ∧ ¬ (s.curTile = .ok t ∧ s.disp.tileView t ≠ none) ∨
      s.curTile = .ok t ∧ s.disp.tileView t ≠ none ∧ FocusEmptied s t s' := by
  refine Ensures.deref fun _ => Ensures.ifSome (fun hnone => .inl ⟨.refl, fun h => h.2 hnone⟩)
    fun u hu => Ensures.deref fun _ => Ensures.ok ?_
  have h₁ : SameFocus s (s.setViewTile u none) := sameFocus_of_eq rfl rfl rfl rfl
  by_cases hcur : s.curTile = .ok t
  · refine .inr ⟨hcur, by simp [hu], ?_, rfl, ?_⟩
    · rw [← hcur]
      exact curTile_congr rfl fun w _ => ⟨rfl, rfl⟩
    · exact Function.update_self _ _ _
  · exact .inl ⟨h₁.trans (setTileView_sameFocus (h₁.curTile ▸ hcur)), fun h => hcur h.1⟩

/-- The command moves a view that does not exist to the focused tile. -/
def EmptiesFocused (s : Server) (viewId tileId : ℕ) : Prop :=
  ∃ t, s.viewFromId viewId = .ok none ∧ s.tileFromId tileId = .ok (some t) ∧
    s.curTile = .ok t ∧ s.disp.tileView t ≠ none

/-- **`keybinding_move_view_to_tile`** leaves the focus where the layout says, or
empties the focused tile. -/
theorem keybindingMoveViewToTile_focus (hwf : WellFormed False s) (hvi : s.ViewsInv)
    {viewId tileId : ℕ} {follow : Bool} :
    Ensures (s.keybindingMoveViewToTile viewId tileId follow) fun s' =>
      Refocuses s s' ∧ ¬ (follow = false ∧ s.EmptiesFocused viewId tileId) ∨
      follow = false ∧ s.EmptiesFocused viewId tileId ∧
        ∃ t, s.curTile = .ok t ∧ s.disp.tileView t ≠ none ∧ FocusEmptied s t s' := by
  refine Ensures.bind ((viewFromId_spec hvi).and fun view hview => hview)
    fun view ⟨hman, hview⟩ => Ensures.bind_any fun tile htile => Ensures.bind_any fun old _ => ?_
  obtain ⟨oldOutput, oldWs⟩ := old
  refine Ensures.ifSome (fun hnone => .inl ⟨.refl, ?_⟩) fun t ht => ?_
  · rintro ⟨-, t, -, ht, -⟩
    rw [hnone] at htile
    exact nomatch htile.symm.trans ht
  subst ht
  have hplaced := (tileFromId_placed hwf _ htile t rfl).1
  cases view with
  | none =>
    refine Ensures.bind (emptyTile_focus.and ((emptyTile_kept hvi).and emptyTile_keeps))
      fun s₁ ⟨h₁, hkept₁, hk₁⟩ => ?_
    -- a tile that is focused afterwards, and one that has been emptied
    refine Ensures.bind (P := fun s₂ => follow = true ∧ s₂.Focused ∨ follow = false ∧ s₂ = s₁ ∨
      follow = false ∧ SameFocus s₁ s₂) (Ensures.ite (fun hfollow => ?_) fun hfollow => ?_)
      fun s₂ h₂ => Ensures.bind_any fun oc _ => Ensures.bind_any fun oldId _ => Ensures.ok ?_
    · refine (keybindingFocusTile_focused hkept₁.inv).mono ?_
      rintro s₂ (⟨hnot, -⟩ | hfocused)
      · obtain ⟨found, hfound, -, hnone⟩ := tileFromId_spec (hk₁.wellFormed hwf) (s₁.tiles.tileId t)
        have hfn : found = none := Except.ok.inj (hfound.symm.trans hnot)
        exact absurd rfl (hnone hfn t (hplaced.congr hk₁.sameArrays))
      · exact .inl ⟨hfollow, hfocused⟩
    · have hff : follow = false := by simpa using hfollow
      refine Ensures.ifSome (fun _ => .inr (.inl ⟨hff, rfl⟩)) fun u hu => ?_
      refine (workspaceTileUpdateView_sameFocus fun _ => hu).mono fun s₂ h₂ => ?_
      exact .inr (.inr ⟨hff, h₂⟩)
    · have hsame : ∀ s₂ : Server, SameFocus s₁ s₂ → follow = false →
          ∀ e, Refocuses s (s₂.emit e) ∧ ¬ (follow = false ∧ s.EmptiesFocused viewId tileId) ∨
            follow = false ∧ s.EmptiesFocused viewId tileId ∧
              ∃ t, s.curTile = .ok t ∧ s.disp.tileView t ≠ none ∧ FocusEmptied s t (s₂.emit e) := by
        intro s₂ h₂ hfollow e
        rcases h₁ with ⟨hs₁, hnot⟩ | ⟨hcur, hshown, hlost⟩
        · refine .inl ⟨.inl ((hs₁.trans h₂).trans emit_sameFocus), ?_⟩
          rintro ⟨-, t', -, ht', hcur, hshown⟩
          obtain rfl : t = t' := Option.some.inj (Except.ok.inj (htile.symm.trans ht'))
          exact hnot ⟨hcur, hshown⟩
        · exact .inr ⟨hfollow, ⟨t, hview, htile, hcur, hshown⟩, t, hcur, hshown,
            (h₂.trans emit_sameFocus).emptied hlost⟩
      rcases h₂ with ⟨hfollow, hfocused⟩ | ⟨hfollow, rfl⟩ | ⟨hfollow, h₂⟩
      · refine .inl ⟨.inr (emit_focused hfocused), fun h => ?_⟩
        exact Bool.noConfusion (hfollow.symm.trans h.1)
      · exact hsame _ .refl hfollow _
      · exact hsame _ h₂ hfollow _
  | some v =>
    refine Ensures.mono (P := Refocuses s) ?_ fun s' h' => .inl ⟨h', ?_⟩
    · have hv := hman v rfl
      have hmove : Ensures (s.takeView v >>= fun s => s.putView v t) (Refocuses s) := by
        refine Refocuses.bind (takeView_refocuses hvi) fun s₁ hs₁ => putView_refocuses ?_
        exact ((takeView_kept hvi _ hs₁).same.manages hv).managed
      have hkept : Ensures (s.takeView v >>= fun s => s.putView v t) (Kept s) :=
        Kept.bind (takeView_kept hvi) fun s₁ h₁ => putView_kept h₁.inv (h₁.same.manages hv)
      refine Refocuses.bind hmove fun s₁ hs₁ => ?_
      have h₁ := hkept _ hs₁
      refine Refocuses.bind (Ensures.ite (fun _ => keybindingFocusTile_refocuses h₁.inv)
        fun _ => Ensures.ifSome (fun _ => .refl) fun u hu =>
          SameFocus.refocuses (workspaceTileUpdateView_sameFocus fun _ => hu)) fun s₂ _ => ?_
      exact Ensures.bind_any fun _ _ => Ensures.bind_any fun _ _ => Ensures.ok (.inl emit_sameFocus)
    · rintro ⟨-, t', hnone, -⟩
      exact nomatch hview.symm.trans hnone

/-- Letting the focused tile go on from its view. -/
theorem leaveView_focused (hvi : s.ViewsInv) (hf : s.curTile = .ok f) :
    Ensures (s.leaveView f v) Focused := by
  refine Ensures.bind ((unlinkView_kept hvi).and unlinkView_sameFocus) fun s₁ ⟨h₁, hs₁⟩ => ?_
  have h₂ : Kept s₁ (s₁.setTileView f none) := h₁.inv.setTileView rfl rfl nofun
  have hcur₂ : (s₁.setTileView f none).curTile = .ok f := by
    rw [← hf, ← hs₁.curTile]
    exact curTile_congr rfl fun w _ => ⟨rfl, rfl⟩
  refine Ensures.bind (cycleFocused h₂.inv hcur₂ (by simp)) fun s₃ h₃ =>
    Ensures.bind_any fun f' hf' =>
    Ensures.ite (fun _ => focusBackground_focused) fun hshown => ?_
  rcases h₃ with rfl | h₃
  · refine absurd ?_ hshown
    obtain rfl : f = f' := Except.ok.inj (hcur₂.symm.trans hf')
    exact Function.update_self _ _ _
  · exact Ensures.ok h₃

theorem arriveView_focused (hv : s.views.managed v = true) : Ensures (s.arriveView v) Focused := by
  refine Ensures.bind_any fun w _ => Ensures.bind linkView_managed fun s₁ h₁ =>
    Ensures.bind_any fun f _ => Ensures.bind workspaceTileUpdateView_sameLayout fun s₂ h₂ => ?_
  refine seatSetFocus_focused fun u hu => ?_
  obtain rfl := Option.some.inj hu
  show s₂.views.managed v = true
  rw [h₂.managed, h₁]
  exact hv

theorem keybindingMoveViewToCycleOutput_refocuses (hvi : s.ViewsInv) {reverse : Bool} :
    Ensures (s.keybindingMoveViewToCycleOutput reverse) (Refocuses s) := by
  refine Ensures.ite (fun _ => Ensures.ok .refl) fun _ => Ensures.bind_any fun old _ =>
    Ensures.bind_any fun f hf => ?_
  refine Refocuses.bind (Ensures.ifSome (fun _ => .refl)
    fun _ _ => Focused.refocuses (leaveView_focused hvi hf)) fun s₁ hs₁ => ?_
  have h₁ := Kept.ifSome hvi (fun _ _ => leaveView_kept hvi) _ hs₁
  refine Refocuses.bind (Focused.refocuses (keybindingCycleOutputs_focused h₁.inv)) fun s₂ hs₂ => ?_
  have h₂ := keybindingCycleOutputs_kept h₁.inv _ hs₂
  refine Refocuses.bind (Ensures.ifSome (fun _ => .refl) fun v hv => Focused.refocuses
    (arriveView_focused ((h₁.trans h₂).same.manages (hvi.shown f v hv)).managed)) fun s₃ _ => ?_
  exact Ensures.bind_any fun _ _ => Ensures.bind_any fun _ _ => Ensures.bind_any fun _ _ =>
    Ensures.bind_any fun _ _ => Ensures.ok (.inl emit_sameFocus)

theorem keybindingSetNws_focused (hvi : s.ViewsInv) {nws : ℕ} :
    Ensures (s.keybindingSetNws nws) Focused := by
  have h₁ : Kept s { s with outs.nws := nws } := hvi.unchanged rfl rfl rfl
  refine Ensures.bind (Ensures.foldlM (fun s₂ o _ h₂ => ?_) h₁) fun s₂ h₂ => ?_
  · exact (outputSetNws_kept h₂.inv).mono fun _ h' => h₂.trans h'
  · exact Ensures.bind (refocus_focused h₂.inv) fun s₃ h₃ => Ensures.ok (emit_focused h₃)

/-! ### Views that come and go -/

/-- The focus agrees with the layout, and is nowhere before the first output. -/
structure FocusInv (s : Server) : Prop where
  agrees : s.FocusAgrees
  background : s.outs.currOutput = none → s.disp.focusedView = none

theorem Focused.inv (h : s.Focused) : s.FocusInv := ⟨h.agrees, fun hn => absurd hn h.output⟩

theorem SameFocus.inv (h : SameFocus s s') (hs : s.FocusInv) : s'.FocusInv := by
  refine ⟨h.agrees_iff.mpr hs.agrees, ?_⟩
  rw [h.currOutput, h.focusedView]
  exact hs.background

theorem Refocuses.inv (h : Refocuses s s') (hs : s.FocusInv) : s'.FocusInv :=
  h.elim (fun hsame => hsame.inv hs) Focused.inv

theorem seatSetFocus_refocuses : Ensures (s.seatSetFocus (some v)) (Refocuses s) := by
  by_cases hv : s.views.managed v = true
  · refine Focused.refocuses (seatSetFocus_focused fun u hu => ?_)
    obtain rfl := Option.some.inj hu
    exact hv
  · exact SameFocus.refocuses (seatSetFocus_unmanaged_sameFocus (by simpa using hv))

theorem viewInit_sameFocus {attrs : ViewAttrs} : Ensures (s.viewInit attrs) (SameFocus s) :=
  Ensures.bind_any fun _ _ => Ensures.deref fun _ =>
    Ensures.ok (sameFocus_of_eq rfl rfl rfl rfl)

theorem viewMap_refocuses {x y : ℤ} : Ensures (s.viewMap v x y) (Refocuses s) := by
  refine Ensures.deref fun _ => Ensures.bind_any fun w _ => Ensures.deref fun _ => ?_
  have h₁ : ∀ mapped : ViewPtr → Bool,
      SameFocus s (({ s with views.viewMapped := mapped } : Server).setViewWorkspace v w) :=
    fun _ => sameFocus_of_eq rfl rfl rfl rfl
  refine Ensures.bind linkView_sameFocus fun s₂ h₂ => Ensures.bind_any fun cur _ => ?_
  have hplaced : ∀ sc : Scene, SameFocus s₂ (if s₂.views.managed v then s₂
      else { s₂ with scene := sc }) := by
    intro sc
    split
    · exact .refl
    · exact sameFocus_of_eq rfl rfl rfl rfl
  refine Ensures.bind seatSetFocus_refocuses fun s₃ h₃ => Ensures.bind_any fun tileId _ =>
    Ensures.ok ?_
  exact (Refocuses.trans (.inl (((h₁ _).trans h₂).trans (hplaced _))) h₃).trans
    (.inl emit_sameFocus)

/-- A view that has lost the focus is not in the focused tile. -/
theorem FocusInv.withdraw (hs : s.FocusInv) (hv : s.disp.focusedView ≠ some v) :
    Ensures (do
      let tile ← s.viewGetTile v
      ifSome tile s fun t => s.workspaceTileUpdateView t view) FocusInv := by
  refine Ensures.bind viewGetTile_shows fun tile htile =>
    Ensures.ifSome (fun _ => hs) fun t ht => ?_
  refine (workspaceTileUpdateView_sameFocus fun hcur => absurd ?_ hv).mono fun _ h => h.inv hs
  exact (hs.agrees t hcur).trans (htile.2 t ht).2

theorem viewWithdraw_focus (hvi : s.ViewsInv) (hs : s.FocusInv) (hv : s.views.Manages v)
    {kb : Bool} :
    Ensures (s.viewWithdraw v kb) FocusInv := by
  refine Ensures.bind (viewGetPrevView_spec hvi hv) fun prev hprev => ?_
  refine Ensures.bind (P := fun s₁ => s₁.FocusInv ∧ s₁.disp.focusedView ≠ some v)
    (Ensures.ite (fun _ => ?_) fun hfocus => Ensures.ite (fun _ => ?_)
      fun _ => Ensures.ok ⟨hs, hfocus⟩) fun s₁ ⟨h₁, hfocus₁⟩ => h₁.withdraw hfocus₁
  · -- the view before it gets the focus
    have hman : ∀ u, prev = some u → s.views.managed u = true := fun u hu => (hprev u hu).1.managed
    refine ((seatSetFocus_focused hman).and (seatSetFocus_shows_iff hman)).mono ?_
    rintro s₁ ⟨h₁, hview, -⟩
    refine ⟨h₁.inv, fun e => ?_⟩
    exact (hprev v (hview.symm.trans e)).2 rfl
  · -- the view that has the focus gets it again
    have hman : ∀ u, s.disp.focusedView = some u → s.views.managed u = true :=
      fun u hu => (hvi.focused u hu).managed
    refine ((seatSetFocus_focused hman).and (seatSetFocus_shows_iff hman)).mono ?_
    rintro s₁ ⟨h₁, hview, -⟩
    refine ⟨h₁.inv, ?_⟩
    rwa [hview]

/-- **`view_unmap`** leaves the focus where the layout says. -/
theorem viewUnmap_focus (hvi : s.ViewsInv) (hs : s.FocusInv) {kb : Bool} :
    Ensures (s.viewUnmap v kb) FocusInv := by
  refine Ensures.bind_any fun w hw => Ensures.deref fun _ => Ensures.ite (fun _ => ?_)
    fun _ => Ensures.ok hs
  obtain ⟨_, hlive, -⟩ := bind_eq_ok.mp hw
  have hv : v < s.views.viewTop := hvi.lists.live v (deref_eq_ok.mp hlive)
  refine Ensures.bind_any fun tileId _ => ?_
  refine Ensures.bind (P := FocusInv) (Ensures.ite (fun hm => viewWithdraw_focus hvi hs ⟨hv, hm⟩)
    fun _ => Ensures.ite (fun _ => ?_) fun _ => Ensures.ok hs) fun s₁ h₁ => ?_
  · exact (seatSetFocus_focused fun u hu => (hvi.focused u hu).managed).mono fun _ h => h.inv
  refine Ensures.bind unlinkView_sameFocus fun s₂ h₂ => Ensures.ok ?_
  have h₃ : SameFocus s₂ { s₂ with
      views.viewMapped := Function.update s₂.views.viewMapped v false } :=
    sameFocus_of_eq rfl rfl rfl rfl
  exact ((h₂.trans h₃).trans emit_sameFocus).inv h₁

theorem viewDestroy_focus (hvi : s.ViewsInv) (hs : s.FocusInv) {kb : Bool} :
    Ensures (s.viewDestroy v kb) FocusInv := by
  refine Ensures.deref fun _ => Ensures.bind (P := FocusInv) (Ensures.ite
    (fun _ => viewUnmap_focus hvi hs) fun _ => Ensures.ok hs) fun s₁ h₁ => ?_
  have h₂ : SameFocus s₁ { s₁ with
      views.viewLive := Function.update s₁.views.viewLive v false } :=
    sameFocus_of_eq rfl rfl rfl rfl
  exact Ensures.bind_any fun f _ => Ensures.bind_any fun _ _ => Ensures.ok (h₂.inv h₁)

/-! ### Outputs that come and go -/

/-- The current workspace depends on the current output and its workspaces only. -/
theorem curWs_congr {O O' : Outputs} (hcur : O'.currOutput = O.currOutput)
    (ho : ∀ p, O.currOutput = some p → O'.outLive p = O.outLive p ∧
      O'.outWorkspaces p = O.outWorkspaces p ∧ O'.outCurr p = O.outCurr p) :
    O'.curWs = O.curWs := by
  rw [Outputs.curWs, Outputs.curWs, Outputs.curOut, Outputs.curOut, hcur]
  cases hp : O.currOutput with
  | none => rfl
  | some p =>
    obtain ⟨hlive, hws, hcurr⟩ := ho p hp
    show O'.wsAt p (O'.outCurr p) = O.wsAt p (O.outCurr p)
    rw [Outputs.wsAt, Outputs.wsAt, hlive, hws, hcurr]

/-- Outputs other than the current one may change. -/
theorem setOuts_sameFocus {O : Outputs} (hcur : O.currOutput = s.outs.currOutput)
    (ho : ∀ p, s.outs.currOutput = some p → O.outLive p = s.outs.outLive p ∧
      O.outWorkspaces p = s.outs.outWorkspaces p ∧ O.outCurr p = s.outs.outCurr p) :
    SameFocus s { s with outs := O } := by
  refine ⟨curTile_congr ?_ fun w _ => ⟨rfl, rfl⟩, rfl, fun _ _ => rfl, hcur⟩
  exact curWs_congr hcur ho

/-- The new output has workspaces with one empty tile each, and the focus is as it was. -/
structure Adding (o : OutPtr) (s s' : Server) : Prop where
  same : SameFocus s s'
  outs : s'.outs = { s.outs with outWorkspaces := s'.outs.outWorkspaces }
  other : ∀ p, p ≠ o → s'.outs.outWorkspaces p = s.outs.outWorkspaces p
  ws : s.tiles.wsTop ≤ s'.tiles.wsTop
  tile : s.tiles.tileTop ≤ s'.tiles.tileTop
  empty : ∀ w ∈ s'.outs.outWorkspaces o, w < s'.tiles.wsTop ∧ ∀ f : ℕ,
    s'.tiles.wsFocused w = some f → f < s'.tiles.tileTop ∧ s'.disp.tileView f = none

theorem Adding.curWs (h : Adding o s s') (hcur : s.outs.currOutput ≠ some o) :
    s'.outs.curWs = s.outs.curWs := by
  refine curWs_congr h.same.currOutput fun p hp => ⟨?_, h.other p fun e => hcur (e ▸ hp), ?_⟩
  · rw [h.outs]
  · rw [h.outs]

/-- **A new workspace** of an output that is not the current one. -/
theorem Adding.addWorkspace (h : Adding o s s') (hcur : s.outs.currOutput ≠ some o)
    (hws : ∀ w, s.outs.curWs = .ok w → w < s.tiles.wsTop)
    (hlt : ∀ t, s.curTile = .ok t → t < s.tiles.tileTop) {i : ℕ} :
    Ensures (addWorkspace o s' i) (Adding o s) := by
  intro s'' hs''
  obtain ⟨-, -, rfl⟩ := addWorkspace_eq_ok.mp hs''
  have hwne : ∀ w : ℕ, w < s'.tiles.wsTop → w ≠ s'.tiles.wsTop := fun w hw => ne_of_lt hw
  have htne : ∀ f : ℕ, f < s'.tiles.tileTop → f ≠ s'.tiles.tileTop := fun f hf => ne_of_lt hf
  have hsame : SameFocus s' (s'.withWorkspace o i) := by
    refine ⟨curTile_congr rfl fun w hw => ?_, rfl, fun f hf => ?_, rfl⟩
    · have hne := hwne w ((hws w ((h.curWs hcur).symm.trans hw)).trans_le h.ws)
      exact ⟨Function.update_of_ne hne _ _, Function.update_of_ne hne _ _⟩
    · rw [h.same.curTile] at hf
      exact Function.update_of_ne (htne f ((hlt f hf).trans_le h.tile)) _ _
  have hne : ∀ p, s'.outs.currOutput = some p → p ≠ o := by
    rintro p hp rfl
    exact hcur (h.same.currOutput.symm.trans hp)
  -- the array that gets longer is not that of the current output
  have hset : SameFocus (s'.withWorkspace o i) ((s'.withWorkspace o i).setWorkspaces o
      ((s'.withWorkspace o i).outs.outWorkspaces o ++ [s'.tiles.wsTop])) := by
    refine setOuts_sameFocus rfl fun p hp => ⟨rfl, ?_, rfl⟩
    exact Function.update_of_ne (hne p hp) _ _
  refine ⟨(h.same.trans hsame).trans hset, ?_, fun p hp => ?_, ?_, ?_, ?_⟩
  · have houts : (s'.withWorkspace o i).outs = _ := h.outs
    rw [setWorkspaces, houts]
  · exact (Function.update_of_ne hp _ _).trans (h.other p hp)
  · exact h.ws.trans (Nat.le_succ _)
  · exact h.tile.trans (Nat.le_succ _)
  · intro w hw
    change w ∈ Function.update s'.outs.outWorkspaces o (_ ++ [s'.tiles.wsTop]) o at hw
    rw [Function.update_self] at hw
    show w < s'.tiles.wsTop + 1 ∧ ∀ f : ℕ,
      Function.update s'.tiles.wsFocused s'.tiles.wsTop (some s'.tiles.tileTop) w = some f →
        f < s'.tiles.tileTop + 1 ∧ Function.update s'.disp.tileView s'.tiles.tileTop none f = none
    rcases List.mem_append.mp hw with hold | hnew
    · obtain ⟨hlt', hempty⟩ := h.empty w hold
      refine ⟨Nat.lt_succ_of_lt hlt', fun f hf => ?_⟩
      rw [Function.update_of_ne (hwne w hlt')] at hf
      obtain ⟨hf', hnone⟩ := hempty f hf
      refine ⟨Nat.lt_succ_of_lt hf', ?_⟩
      rw [Function.update_of_ne (htne f hf'), hnone]
    · obtain rfl := List.mem_singleton.mp hnew
      refine ⟨Nat.lt_succ_self _, fun f hf => ?_⟩
      rw [Function.update_self] at hf
      obtain rfl := Option.some.inj hf
      exact ⟨Nat.lt_succ_self _, Function.update_self _ _ _⟩

/-- **A new output** does not get the focus, unless it is the first one. -/
theorem handleNewOutput_focus (hwf : WellFormed False s) (hr : s.Running) (hs : s.FocusInv)
    {name : String} {box : LayoutBox} : Ensures (s.handleNewOutput name box) FocusInv := by
  have hcur : s.outs.currOutput ≠ some s.outs.outTop := fun e =>
    lt_irrefl _ (hwf.outs.out_lt _ (hr.current.output _ e))
  have hne : ∀ p, s.outs.currOutput = some p → p ≠ s.outs.outTop := by
    rintro p hp rfl
    exact hcur hp
  refine Ensures.bind (P := fun s₁ => ∃ s₀, Adding s.outs.outTop s₀ s₁ ∧ SameFocus s s₀ ∧
    s₀.tiles = s.tiles ∧ s₀.outs.curWs = s.outs.curWs)
    (Ensures.foldlM (fun s₁ i _ h₁ => ?_) ⟨_, ⟨.refl, rfl, fun _ _ => rfl, le_rfl, le_rfl, ?_⟩,
      ?_, rfl, ?_⟩) ?_
  · obtain ⟨s₀, h₁, h₀, htiles, hws⟩ := h₁
    refine (h₁.addWorkspace ?_ ?_ ?_).mono fun s₂ h₂ => ⟨s₀, h₂, h₀, htiles, hws⟩
    · rw [h₀.currOutput]
      exact hcur
    · rw [hws, htiles]
      intro w hw
      obtain ⟨p, -, hw⟩ := bind_eq_ok.mp hw
      exact (hwf.outs.place p _ w (getElem?_of_wsAt hw)).1
    · rw [h₀.curTile, htiles]
      exact fun t ht => curTile_lt hwf ht
  · intro w hw
    change w ∈ Function.update s.outs.outWorkspaces s.outs.outTop [] s.outs.outTop at hw
    rw [Function.update_self] at hw
    exact absurd hw List.not_mem_nil
  · refine setOuts_sameFocus rfl fun p hp => ⟨?_, ?_, ?_⟩ <;>
      exact Function.update_of_ne (hne p hp) _ _
  · refine curWs_congr rfl fun p hp => ⟨?_, ?_, ?_⟩ <;>
      exact Function.update_of_ne (hne p hp) _ _
  rintro s₁ ⟨s₀, h₁, h₀, -⟩
  have hsame₁ : SameFocus s s₁ := h₀.trans h₁.same
  refine Ensures.bind workspaceFocus_spec fun s₂ h₂ => Ensures.ok ?_
  refine emit_sameFocus.inv ?_
  have h₂' : SameFocus s₁ s₂ ∧ s₂.tiles = s₁.tiles ∧ s₂.disp = s₁.disp ∧
      s₂.outs.outWorkspaces = s₁.outs.outWorkspaces := by
    rcases h₂ with ⟨rfl, -⟩ | ⟨rfl, -⟩
    · exact ⟨.refl, rfl, rfl, rfl⟩
    · refine ⟨setOuts_sameFocus rfl fun p hp => ⟨rfl, rfl, ?_⟩, rfl, rfl, rfl⟩
      exact Function.update_of_ne (hne p (hsame₁.currOutput.symm.trans hp)) _ _
  obtain ⟨hsame₂, htiles₂, hdisp₂, hws₂⟩ := h₂'
  have hsame := hsame₁.trans hsame₂
  cases hold : s₂.outs.currOutput with
  | some p =>
    refine SameFocus.inv (s := s₂) ?_ (hsame.inv hs)
    exact setOuts_sameFocus hold.symm fun _ _ => ⟨rfl, rfl, rfl⟩
  | none =>
    refine ⟨fun t ht => ?_, fun hn => nomatch hn⟩
    -- the focused tile is that of a new workspace
    obtain ⟨p, w, hp, hw, hf⟩ := curTile_eq_ok.mp ht
    obtain rfl : s.outs.outTop = p := Option.some.inj hp
    have hmem : w ∈ s₁.outs.outWorkspaces s.outs.outTop := by
      rw [← hws₂]
      exact List.mem_of_getElem? (getElem?_of_wsAt hw)
    obtain ⟨_, -, hfoc⟩ := bind_eq_ok.mp hf
    have hfoc' : s₁.tiles.wsFocused w = some t := by
      rw [← htiles₂]
      exact nonNull_eq_ok.mp hfoc
    show s₂.disp.focusedView = s₂.disp.tileView t
    rw [hsame.focusedView, hdisp₂, ((h₁.empty w hmem).2 t hfoc').2]
    exact hs.background (hsame.currOutput.symm.trans hold)

/-- A tile of another workspace than the current one is not focused. -/
theorem curTile_ne (hwf : WellFormed False s) (hw : s.outs.curWs ≠ .ok w)
    (ht : t ∈ s.tiles.tilesOf w) : s.curTile ≠ .ok t := by
  intro hcur
  obtain ⟨w', hw', -, htw⟩ := mem_of_curTile hwf hcur
  obtain rfl : w' = w := htw.symm.trans ht.2
  exact hw hw'

/-- The views of a list go on to the current workspace. -/
theorem rehomeViews_refocuses {w' : WsPtr} :
    Ensures (s.rehomeViews managed w w') (Refocuses s) := by
  refine forEachViewSafe_ensures (I := Refocuses s) (fun s₁ v h₁ => ?_) .refl
  refine Ensures.mono (P := Refocuses s₁) ?_ fun _ h' => h₁.trans h'
  refine Refocuses.bind (SameFocus.refocuses unlinkView_sameFocus) fun s₂ _ => ?_
  refine Ensures.ite (fun _ => Ensures.ok (.inl (sameFocus_of_eq rfl rfl rfl rfl))) fun _ => ?_
  refine Refocuses.bind (SameFocus.refocuses linkView_sameFocus) fun s₃ _ =>
    Ensures.bind_any fun f _ => ?_
  have hset : SameFocus s₃ ((s₃.setViewWorkspace v w').setViewTile v (some f)) :=
    sameFocus_of_eq rfl rfl rfl rfl
  refine Ensures.ite (fun _ => ?_) fun _ => Ensures.ok (.inl hset)
  exact seatSetFocus_refocuses.mono fun _ h' => Refocuses.trans (.inl hset) h'

/-- One workspace of an output that is not the current one is emptied. -/
theorem clearWorkspace_refocuses (hwf : WellFormed False s) {i : ℕ}
    (hne : ∀ w, s.outs.wsAt o i = .ok w → s.outs.curWs ≠ .ok w) : Ensures (do
      let w ← s.outs.wsAt o i
      let l ← s.tiles.ringOf w
      let s ← l.foldlM (fun s t => s.workspaceTileUpdateView t none) s
      let wNew ← s.outs.curWs
      let s ← s.rehomeViews true w wNew
      s.rehomeViews false w wNew) (Refocuses s) := by
  refine Ensures.bind_any fun w hw => Ensures.bind_any fun l hl => ?_
  have hlive : s.tiles.wsLive w = true := by
    obtain ⟨f, hf, -⟩ := bind_eq_ok.mp hl
    obtain ⟨_, hlive, -⟩ := bind_eq_ok.mp hf
    exact deref_eq_ok.mp hlive
  obtain ⟨f, l', -, hl', -, hmem⟩ := hwf.tiles.ringOf hlive
  obtain rfl := Except.ok.inj (hl'.symm.trans hl)
  refine Ensures.bind (P := SameFocus s) (Ensures.foldlM (fun s₁ t ht h₁ => ?_) .refl)
    fun s₁ h₁ => ?_
  · refine (workspaceTileUpdateView_sameFocus fun hcur => ?_).mono fun _ h' => h₁.trans h'
    rw [h₁.curTile] at hcur
    exact absurd hcur (curTile_ne hwf (hne w hw) ((hmem t).mp ht))
  · refine Ensures.bind_any fun wNew _ => Ensures.mono (P := Refocuses s₁) ?_
      fun _ h' => Refocuses.trans (.inl h₁) h'
    exact Refocuses.bind rehomeViews_refocuses fun _ _ => rehomeViews_refocuses

/-- Freeing a workspace that is not the current one. -/
theorem workspaceFree_sameFocus (hwf : s.tiles.TilesInv False none) (hw : s.outs.curWs ≠ .ok w) :
    Ensures (s.workspaceFree w) (SameFocus s) := by
  refine Ensures.bind ((workspaceFreeTiles_sameFocus hwf hw).and (workspaceFreeTiles_spec hwf))
    fun s₁ ⟨h₁, _, c, T, heq, _⟩ => Ensures.ok (h₁.trans ?_)
  refine ⟨curTile_congr rfl fun w' hw' => ⟨?_, rfl⟩, rfl, fun _ _ => rfl, rfl⟩
  refine Function.update_of_ne ?_ _ _
  rintro rfl
  rw [heq] at hw'
  exact hw hw'

/-- There is no focused tile once the current output is gone. -/
theorem FocusInv.of_unplugged (hcur : s.outs.currOutput = some o)
    (hlive : s.outs.outLive o = false) : s.FocusInv := by
  refine ⟨fun t ht => ?_, fun hn => ?_⟩
  · obtain ⟨p, w, hp, hw, -⟩ := curTile_eq_ok.mp ht
    obtain rfl := Option.some.inj (hcur.symm.trans hp)
    obtain ⟨_, hdead, -⟩ := bind_eq_ok.mp hw
    rw [deref_eq_ok, hlive] at hdead
    exact nomatch hdead
  · rw [hcur] at hn
    exact absurd hn (Option.some_ne_none o)

/-- The last output goes away. -/
theorem outputDestroy_last (hr : s.Running) (ho : s.outs.outputs = [o]) :
    Ensures (s.outputDestroy o) FocusInv := by
  obtain ⟨p, hp⟩ := Option.ne_none_iff_exists'.mp (hr.started (by simp [ho]))
  have hmem := hr.current.output p hp
  rw [ho, List.mem_singleton] at hmem
  subst hmem
  refine Ensures.bind (P := fun s₁ => s₁.outs.currOutput = some p) ?_ fun s₁ h₁ => ?_
  · refine Ensures.bind (P := fun s₁ => s₁ = s) (Ensures.ite (fun hc => ?_) fun _ =>
      Ensures.ok rfl) ?_
    · exact absurd hc.2 (by simp [ho])
    · rintro s₁ rfl
      refine Ensures.mono (Ensures.foldlM (fun s₂ i _ h₂ =>
        clearWorkspace_keeps.mono fun _ h' => h₂.trans h') KeepsLayout.refl) fun s₂ h₂ => ?_
      rw [h₂.outs]
      exact hp
  refine Ensures.bind (P := fun s₂ => s₂.outs = s₁.outs) (Ensures.foldlM (fun s₂ i _ h₂ =>
    Ensures.bind_any fun w _ => Ensures.deref fun _ => workspaceFree_outs.mono
      fun s₃ h₃ => h₃.trans h₂) rfl) fun s₂ h₂ => Ensures.ok ?_
  have hcur : s₂.outs.currOutput = some p := by
    rw [h₂]
    exact h₁
  have hdead : ∀ live : OutPtr → Bool, Function.update live p false p = false :=
    fun _ => Function.update_self _ _ _
  split
  · exact FocusInv.of_unplugged hcur (hdead _)
  · exact FocusInv.of_unplugged hcur (hdead _)

/-- Another output than the last one goes away: the focus leaves it first. -/
theorem outputDestroy_other (hwf : WellFormed False s) (hvi : s.ViewsInv) (hr : s.Running)
    (ho : o ∈ s.outs.outputs) (hother : s.outs.outputs.erase o ≠ []) :
    Ensures (s.outputDestroy o) (Refocuses s) := by
  -- the workspaces of the output are not the current one
  have hne : ∀ s₁ : Server, WellFormed False s₁ → s₁.outs.currOutput ≠ some o →
      ∀ i w, s₁.outs.wsAt o i = .ok w → s₁.outs.curWs ≠ .ok w :=
    fun s₁ h₁ hcur i w hw hc => WellFormed.not_owns h₁ hcur hc ⟨i, hw⟩
  refine Ensures.bind (P := fun s₁ => Refocuses s s₁ ∧ WellFormed False s₁ ∧
    s₁.outs.currOutput ≠ some o ∧ o ∉ s₁.outs.outputs) ?_ ?_
  · refine Ensures.bind (P := fun s₁ => Refocuses s s₁ ∧ WellFormed False s₁ ∧ Turns s s₁ ∧
      s₁.outs.currOutput ≠ some o) ?_ ?_
    · refine Ensures.mono (Ensures.and (P := fun s₁ => Refocuses s s₁ ∧ WellFormed False s₁)
        (Ensures.ite (fun _ => ?_) fun _ => Ensures.ok ⟨.refl, hwf⟩)
        (leaveOutput_turns hr.current hwf.outs.nodup ho)) fun s₁ h₁ =>
          ⟨h₁.1.1, h₁.1.2, h₁.2.1, h₁.2.2 hother⟩
      exact (Focused.refocuses (keybindingCycleOutputs_focused hvi)).and
        (keybindingCycleOutputs_wellFormed hwf)
    rintro s₁ ⟨h₁, hwf₁, ht₁, hcur₁⟩
    have h₂ : SameFocus s₁ { s₁ with outs.outputs := s₁.outs.outputs.erase o } :=
      setOuts_sameFocus rfl fun _ _ => ⟨rfl, rfl, rfl⟩
    have hwf₂ := WellFormed.eraseOutput hwf₁ o
    refine Ensures.mono (P := fun s₃ => Refocuses s s₃ ∧
      KeepsLayout { s₁ with outs.outputs := s₁.outs.outputs.erase o } s₃)
      (Ensures.foldlM (fun s₃ i _ h₃ => ?_) ⟨h₁.trans (.inl h₂), .refl⟩) fun s₃ h₃ =>
        ⟨h₃.1, h₃.2.wellFormed hwf₂, ?_, ?_⟩
    · have hwf₃ := h₃.2.wellFormed hwf₂
      refine ((clearWorkspace_refocuses hwf₃ (hne s₃ hwf₃ ?_ i)).and clearWorkspace_keeps).mono
        fun s₄ h₄ => ⟨h₃.1.trans h₄.1, h₃.2.trans h₄.2⟩
      rw [h₃.2.outs]
      exact hcur₁
    · rw [h₃.2.outs]
      exact hcur₁
    · rw [h₃.2.outs]
      exact List.Nodup.not_mem_erase hwf₁.outs.nodup
  rintro s₁ ⟨h₁, hwf₁, hcur₁, hmem₁⟩
  refine Ensures.bind (P := fun s₂ => Refocuses s s₂ ∧
    LayoutInv False none (fun _ => s₁.outs.nws) s₂ ∧ s₂.outs = s₁.outs)
    (Ensures.foldlM (fun s₂ i _ h₂ => ?_) ⟨h₁, hwf₁, rfl⟩) ?_
  · obtain ⟨hs₂, hwf₂, ho₂⟩ := h₂
    refine Ensures.bind_any fun w hw => Ensures.deref fun _ => ?_
    have hw₁ : s₁.outs.wsAt o i = .ok w := by rwa [← ho₂]
    refine ((workspaceFree_sameFocus hwf₂.tiles ?_).and (workspaceFree_inv hwf₂ ?_)).mono
      fun s₃ h₃ => ⟨hs₂.trans (.inl h₃.1), h₃.2.1, h₃.2.2.trans ho₂⟩
    · rw [ho₂]
      exact hne s₁ hwf₁ hcur₁ i w hw₁
    · intro o' ho' j _ hw'
      have h1 := (hwf₂.outs.place o i w (getElem?_of_wsAt hw)).2.1
      have h2 := (hwf₂.outs.place o' j w hw').2.1
      rw [ho₂] at ho'
      exact hmem₁ (h1.symm.trans h2 ▸ ho')
  · rintro s₂ ⟨h₂, -, ho₂⟩
    refine Ensures.ok (h₂.trans (.inl ?_))
    have h₃ : ∀ (live scene : OutPtr → Bool), (∀ p, p ≠ o → live p = s₂.outs.outLive p) →
        ∀ e, SameFocus s₂ (({ s₂ with
          outs.outLive := live, outs.sceneOutput := scene } : Server).emit e) := by
      intro live scene hlive e
      have hset : SameFocus s₂ { s₂ with outs.outLive := live, outs.sceneOutput := scene } := by
        refine setOuts_sameFocus ?_ fun p hp => ⟨hlive p ?_, rfl, rfl⟩
        · rfl
        · rintro rfl
          rw [ho₂] at hp
          exact hcur₁ hp
      exact hset.trans emit_sameFocus
    have h₄ := h₃ _ (Function.update s₂.outs.sceneOutput o false)
      (fun p hp => Function.update_of_ne hp false s₂.outs.outLive)
      (.destroyOutput (s.outs.outName o) (s.outs.outputGetNum o) false)
    split
    · exact h₄.trans (sameFocus_of_eq rfl rfl rfl rfl)
    · exact h₄

/-- **`output_destroy`** leaves the focus where the layout says. -/
theorem outputDestroy_focus (hwf : WellFormed False s) (hvi : s.ViewsInv) (hr : s.Running)
    (ho : o ∈ s.outs.outputs) (hs : s.FocusInv) : Ensures (s.outputDestroy o) FocusInv := by
  by_cases hlast : s.outs.outputs.erase o = []
  · refine outputDestroy_last hr ?_
    obtain ⟨l₁, l₂, -, heq, herase⟩ := List.exists_erase_eq ho
    obtain ⟨rfl, rfl⟩ := List.append_eq_nil_iff.mp (herase.symm.trans hlast)
    exact heq
  · exact (outputDestroy_other hwf hvi hr ho hlast).mono fun _ h => h.inv hs

/-! ### Every input -/

end Server

/-- The flag `follow` of a command that moves a view. -/
def Action.follow : Action → Bool
  | .moveToTile _ follow | .moveToWorkspace _ follow | .moveToOutput _ follow
  | .moveViewToTile _ _ follow | .moveViewToWorkspace _ _ follow
  | .moveViewToOutput _ _ follow => follow
  | _ => true

namespace Server

/-- **The command leaves the focus on a view that the focused tile does not show**: it
merges the focused tile into one that shows something else, or empties it. -/
def LosesFocus (s : Server) : Action → Prop
  | .merge dir tileId => ∃ t m, s.Absorbs dir tileId t m ∧ s.curTile = .ok m ∧
    s.disp.tileView t ≠ s.disp.tileView m
  | a => a.follow = false ∧ ∃ viewId tileId, s.moveTarget a = .ok (some (viewId, tileId)) ∧
    s.EmptiesFocused viewId tileId

/-- The input is no such command. -/
def KeepsFocus (s : Server) : Input → Prop
  | .command a => s.terminated = true ∨ ¬ s.LosesFocus a
  | _ => True

/-- What a command that loses the focus exactly if `c` holds leaves behind. -/
def Verdict (c : Prop) (s' : Server) : Prop := ¬ c ∧ s'.FocusInv ∨ c ∧ ¬ s'.FocusAgrees

theorem Refocuses.verdict {c : Prop} {m : Exec Server} (hc : ¬ c) (hs : s.FocusInv)
    (hm : Ensures m (Refocuses s)) : Ensures m (Verdict c) :=
  hm.mono fun _ h => .inl ⟨hc, h.inv hs⟩

theorem mergeTile_verdict (hwf : WellFormed False s) (hs : s.FocusInv) (hrun : s.terminated = false)
    {dir : Direction} {tileId : ℕ} : Ensures (s.runAction (.merge dir tileId))
      (Verdict (s.LosesFocus (.merge dir tileId))) := by
  refine Ensures.bind_any fun tile htile => Ensures.ifSome (fun hnone => .inl ⟨?_, hs⟩)
    fun t ht => ?_
  · rintro ⟨t, m, habs, -⟩
    rw [hnone] at htile
    exact nomatch htile.symm.trans habs.tile
  subst ht
  refine (mergeTile_focus hwf hrun htile).mono ?_
  rintro s' (⟨hsame, hnot⟩ | ⟨m, habs, hcur, hlost⟩)
  · refine .inl ⟨?_, hsame.inv hs⟩
    rintro ⟨t', m, habs, hcur, -⟩
    obtain rfl : t = t' := Option.some.inj (Except.ok.inj (htile.symm.trans habs.tile))
    exact hnot m habs hcur
  · have hiff := hlost.agrees_iff hs.agrees hcur
    by_cases heq : s.disp.tileView t = s.disp.tileView m
    · refine .inl ⟨?_, hiff.mpr heq, fun hn => absurd hn (output_of_curTile hlost.curTile)⟩
      rintro ⟨t', m', habs', hcur', hne⟩
      obtain rfl : t = t' := Option.some.inj (Except.ok.inj (htile.symm.trans habs'.tile))
      obtain rfl : m = m' := Except.ok.inj (hcur.symm.trans hcur')
      exact hne heq
    · exact .inr ⟨⟨t, m, habs, hcur, heq⟩, fun h => heq (hiff.mp h)⟩

/-- A command that passes its operands on to `keybinding_move_view_to_tile`. -/
theorem moveView_verdict (hwf : WellFormed False s) (hvi : s.ViewsInv) (hs : s.FocusInv)
    {viewId tileId : ℕ} {follow : Bool} {c : Prop}
    (hc : c ↔ follow = false ∧ s.EmptiesFocused viewId tileId) :
    Ensures (s.keybindingMoveViewToTile viewId tileId follow) (Verdict c) := by
  refine (keybindingMoveViewToTile_focus hwf hvi).mono ?_
  rintro s' (⟨h, hnot⟩ | ⟨hfollow, hempties, t, hcur, hshown, hlost⟩)
  · exact .inl ⟨fun hl => hnot (hc.mp hl), h.inv hs⟩
  · exact .inr ⟨hc.mpr ⟨hfollow, hempties⟩, hlost.disagrees hs.agrees hcur hshown⟩

/-- **What a command does to the focus.** -/
theorem runAction_focus (hwf : WellFormed False s) (hvi : s.ViewsInv) (hr : s.Running)
    (hs : s.FocusInv) (hrun : s.terminated = false) {a : Action} :
    Ensures (s.runAction a) (Verdict (s.LosesFocus a)) := by
  have hnone : ∀ {p : Prop} {m : Exec (Option (ℕ × ℕ))}, m = .ok none →
      ¬ (p ∧ ∃ viewId tileId, m = .ok (some (viewId, tileId)) ∧
        s.EmptiesFocused viewId tileId) := by
    rintro p m rfl ⟨-, viewId, tileId, htarget, -⟩
    exact nomatch htarget
  have hsome : ∀ {p : Prop} {m : Exec (Option (ℕ × ℕ))} {viewId tileId : ℕ},
      m = .ok (some (viewId, tileId)) →
      (p ∧ (∃ viewId tileId, m = .ok (some (viewId, tileId)) ∧
        s.EmptiesFocused viewId tileId) ↔ p ∧ s.EmptiesFocused viewId tileId) := by
    rintro p m viewId tileId rfl
    simp
  -- the commands that never lose the focus
  have hmoved : ∀ m : Exec Server, Ensures m (Refocuses s) →
      Ensures m (Verdict (true = false ∧ ∃ viewId tileId,
        (.ok none : Exec (Option (ℕ × ℕ))) = .ok (some (viewId, tileId)) ∧
          s.EmptiesFocused viewId tileId)) :=
    fun m hm => Refocuses.verdict (hnone rfl) hs hm
  -- a move to a workspace or an output is one to the focused tile there
  have hworkspace : ∀ {p : Prop} (m : Exec (Option (ℕ × ℕ))) (viewId ws : ℕ) (follow : Bool),
      m = s.workspaceTarget viewId ws → (p ↔ follow = false) →
      Ensures (s.keybindingMoveViewToWorkspace viewId ws follow)
        (Verdict (p ∧ ∃ viewId tileId, m = .ok (some (viewId, tileId)) ∧
          s.EmptiesFocused viewId tileId)) := by
    intro p m viewId ws follow hm hp
    refine Ensures.ite (fun hle => Ensures.ok (.inl ⟨hnone ?_, hs⟩)) fun hle =>
      Ensures.bind_any fun o ho => Ensures.bind_any fun w hw => Ensures.bind_any fun f hf =>
        moveView_verdict hwf hvi hs ((hsome ?_).trans (and_congr_left' hp))
    · rw [hm, workspaceTarget, if_pos hle]
    · rw [hm, workspaceTarget, if_neg hle, ho, ok_bind, hw, ok_bind, hf, ok_bind]
  have houtput : ∀ {p : Prop} (m : Exec (Option (ℕ × ℕ))) (viewId output : ℕ) (follow : Bool),
      m = s.outputTarget viewId output → (p ↔ follow = false) →
      Ensures (s.keybindingMoveViewToOutput viewId output follow)
        (Verdict (p ∧ ∃ viewId tileId, m = .ok (some (viewId, tileId)) ∧
          s.EmptiesFocused viewId tileId)) := by
    intro p m viewId output follow hm hp
    refine Ensures.ifSome (fun ho => .inl ⟨hnone ?_, hs⟩) fun o ho =>
      Ensures.bind_any fun w hw => Ensures.bind_any fun f hf =>
        moveView_verdict hwf hvi hs ((hsome ?_).trans (and_congr_left' hp))
    · rw [hm, outputTarget, ho, ifSome_none]
    · rw [hm, outputTarget, ho, ifSome_some, hw, ok_bind, hf, ok_bind]
  cases a with
  | layoutFullscreen => exact hmoved _ (keybindingWorkspaceFullscreen_refocuses hwf hvi)
  | splitHorizontal =>
    exact hmoved _ (Ensures.bind_any fun _ _ =>
      SameFocus.refocuses (keybindingSplitOutput_sameFocus hwf))
  | splitVertical =>
    exact hmoved _ (Ensures.bind_any fun _ _ =>
      SameFocus.refocuses (keybindingSplitOutput_sameFocus hwf))
  | cycleViews => exact hmoved _ (keybindingCycleViews_refocuses hvi)
  | cycleTiles =>
    exact hmoved _ (Ensures.ite (fun _ => keybindingCycleTiles_refocuses hvi)
      fun _ => keybindingFocusTile_refocuses hvi)
  | cycleOutput => exact hmoved _ (Focused.refocuses (keybindingCycleOutputs_focused hvi))
  | switchWorkspace => exact hmoved _ (keybindingSwitchWs_refocuses hvi)
  | switchOutput => exact hmoved _ (keybindingSwitchOutput_refocuses hvi)
  | resizeTileHorizontal => exact hmoved _ (SameFocus.refocuses resizeTile_sameFocus)
  | resizeTileVertical => exact hmoved _ (SameFocus.refocuses resizeTile_sameFocus)
  | moveToTile tileId follow =>
    refine Ensures.bind_any fun id hid => moveView_verdict hwf hvi hs (hsome ?_)
    rw [moveTarget, hid, ok_bind]
  | moveToWorkspace ws follow =>
    refine Ensures.bind_any fun id hid => hworkspace _ _ _ _ ?_ Iff.rfl
    rw [moveTarget, hid, ok_bind]
  | moveToOutput output follow =>
    refine Ensures.bind_any fun id hid => houtput _ _ _ _ ?_ Iff.rfl
    rw [moveTarget, hid, ok_bind]
  | moveViewToTile => exact moveView_verdict hwf hvi hs (hsome rfl)
  | moveViewToWorkspace => exact hworkspace _ _ _ _ rfl Iff.rfl
  | moveViewToOutput => exact houtput _ _ _ _ rfl Iff.rfl
  | merge => exact mergeTile_verdict hwf hs hrun
  | swapDir => exact hmoved _ (swapTile_refocuses hwf hr.current hvi)
  | swap =>
    exact hmoved _ (Ensures.bind_any fun _ _ => Ensures.bind (tileFromId_placed hwf) fun b hb =>
      swapTiles_refocuses hwf hvi fun t ht => (hb t ht).1)
  | focus => exact hmoved _ (Ensures.bind_any fun _ _ => focusTile_refocuses hvi)
  | moveViewToCycleOutput => exact hmoved _ (keybindingMoveViewToCycleOutput_refocuses hvi)
  | workspaces => exact hmoved _ (Focused.refocuses (keybindingSetNws_focused hvi))

/-- **What an input does to the focus.** -/
theorem step_focus (hwf : WellFormed False s) (hvi : s.ViewsInv)
    (hr : s.terminated = false → s.Running) (hs : s.FocusInv) {i : Input} :
    Ensures (step s i) (Verdict (¬ s.KeepsFocus i)) := by
  have hkept : ∀ m : Exec Server, s.KeepsFocus i → Ensures m FocusInv →
      Ensures m (Verdict (¬ s.KeepsFocus i)) :=
    fun m hk hm => hm.mono fun _ h => .inl ⟨not_not.mpr hk, h⟩
  refine Ensures.ite (fun hterm => hkept _ ?_ (Ensures.ok hs)) fun hrun => ?_
  · cases i with
    | command a => exact .inl hterm
    | _ => trivial
  have hrun' : s.terminated = false := by simpa using hrun
  have hr' := hr hrun'
  have hcursor : ∀ c, ({ s with cursorAt := c } : Server).FocusInv := by
    intro c
    have hsame : SameFocus s { s with cursorAt := c } := sameFocus_of_eq rfl rfl rfl rfl
    exact hsame.inv hs
  cases i with
  | command a =>
    refine (runAction_focus hwf hvi hr' hs hrun').mono ?_
    rintro s' (⟨hnot, h⟩ | ⟨hloses, h⟩)
    · exact .inl ⟨not_not.mpr (.inr hnot), h⟩
    · exact .inr ⟨fun hk => hk.elim hrun (not_not.mpr hloses), h⟩
  | outputNew name box cursor =>
    exact hkept _ trivial (handleNewOutput_focus (hwf.setCursorAt cursor) (hr'.setCursorAt cursor)
      (hcursor cursor))
  | outputDestroy o cursor =>
    exact Ensures.deref fun ho => hkept _ trivial (outputDestroy_focus (hwf.setCursorAt cursor)
      (hvi.setCursorAt cursor) (hr'.setCursorAt cursor) (of_decide_eq_true ho) (hcursor cursor))
  | layoutChange o box =>
    refine hkept _ trivial (Ensures.ok (SameFocus.inv (s := s) ?_ hs))
    exact setOuts_sameFocus rfl fun _ _ => ⟨rfl, rfl, rfl⟩
  | cursorMotion cursor =>
    exact hkept _ trivial (processCursorMotion_sameFocus.mono fun _ h => h.inv (hcursor cursor))
  | viewNew attrs =>
    exact hkept _ trivial (viewInit_sameFocus.mono fun _ h => h.inv hs)
  | viewMap v x y =>
    exact Ensures.deref fun _ => hkept _ trivial (viewMap_refocuses.mono fun _ h => h.inv hs)
  | viewUnmap v kb => exact Ensures.deref fun _ => hkept _ trivial (viewUnmap_focus hvi hs)
  | viewDestroy v kb => exact hkept _ trivial (viewDestroy_focus hvi hs)

theorem FocusInv.init : Server.init.FocusInv := by
  refine ⟨fun t ht => ?_, fun _ => rfl⟩
  exact nomatch ht

end Server

open Server

variable {s s' : Server}

/-- The keyboard focus after any run of inputs that keep it. -/
theorem focusInv_of_steps (h : Steps step (fun s i => s.KeepsFocus i) Server.init s) :
    (WellFormed False s ∧ s.ViewsInv ∧ (s.terminated = false → s.Running)) ∧ s.FocusInv := by
  refine h.invariant (I := fun s => (WellFormed False s ∧ s.ViewsInv ∧
    (s.terminated = false → s.Running)) ∧ s.FocusInv) ⟨⟨.init, .init, fun _ => .init⟩, .init⟩ ?_
  rintro s i ⟨⟨hwf, hvi, hr⟩, hs⟩ hi
  refine ((step_wellFormed (fun _ => rfl) hwf).and ((step_viewsInv hvi).and
    (step_running hwf hr))).and ((step_focus hwf hvi hr hs).mono ?_)
  rintro s' (⟨-, h'⟩ | ⟨hnot, -⟩)
  · exact h'
  · exact absurd hi hnot

end Cagebreak
