/-
The keyboard focus and the layout.

Which view has the keyboard focus is stored in the seat, and once more by the current
output, its current workspace and the focused tile of that.  Only `seat_set_focus`
brings the two together.  An operation either leaves both records alone
(`SameFocus`), or ends with them in agreement.

* `keybindingFocusTile_focused`, `outputMakeWorkspaceFullscreen_refocuses` — commands
  that end with the two in agreement;
* `mergeTile_focus` — the merge that does not, where it frees the focused tile.
-/
import Cagebreak.Merge
import Cagebreak.ShownRuns
import Cagebreak.Valid

namespace Cagebreak

open Exec

namespace Server

variable {s s' s'' : Server} {t m : TilePtr} {u v : ViewPtr} {w : WsPtr} {o : OutPtr}
  {view : Option ViewPtr}

/-! ### Operations that leave the focus alone -/

/-- The focused tile, what it shows and the view with the focus are the same. -/
structure SameFocus (s s' : Server) : Prop where
  curTile : s'.curTile = s.curTile
  focusedView : s'.disp.focusedView = s.disp.focusedView
  tileView : ∀ t, s.curTile = .ok t → s'.disp.tileView t = s.disp.tileView t
  currOutput : s'.outs.currOutput = s.outs.currOutput

theorem SameFocus.refl : SameFocus s s := ⟨rfl, rfl, fun _ _ => rfl, rfl⟩

theorem SameFocus.trans (h : SameFocus s s') (h' : SameFocus s' s'') : SameFocus s s'' where
  curTile := h'.curTile.trans h.curTile
  focusedView := h'.focusedView.trans h.focusedView
  tileView t ht := by
    rw [h'.tileView t (h.curTile.trans ht), h.tileView t ht]
  currOutput := h'.currOutput.trans h.currOutput

theorem SameFocus.agrees_iff (h : SameFocus s s') : s'.FocusAgrees ↔ s.FocusAgrees := by
  rw [FocusAgrees, FocusAgrees, h.curTile, h.focusedView]
  constructor
  · intro hs t ht
    rw [hs t ht, h.tileView t ht]
  · intro hs t ht
    rw [hs t ht, h.tileView t ht]

/-- The focused tile depends on the current workspace and its focused tile only. -/
theorem curTile_congr (hcur : s'.outs.curWs = s.outs.curWs)
    (htiles : ∀ w, s.outs.curWs = .ok w → s'.tiles.wsLive w = s.tiles.wsLive w ∧
      s'.tiles.wsFocused w = s.tiles.wsFocused w) : s'.curTile = s.curTile := by
  rw [Server.curTile, Server.curTile, hcur]
  cases hw : s.outs.curWs with
  | error e => rfl
  | ok w =>
    obtain ⟨hlive, hfocused⟩ := htiles w hw
    show s'.tiles.focusedTile w = s.tiles.focusedTile w
    rw [Tiles.focusedTile, Tiles.focusedTile, hlive, hfocused]

theorem KeepsLayout.sameFocus (h : KeepsLayout s s')
    (hfocus : s'.disp.focusedView = s.disp.focusedView)
    (htile : ∀ t, s.curTile = .ok t → s'.disp.tileView t = s.disp.tileView t) : SameFocus s s' :=
  ⟨h.curTile, hfocus, htile, by rw [h.outs]⟩

theorem sameFocus_of_eq (htiles : s'.tiles = s.tiles) (houts : s'.outs = s.outs)
    (hfocus : s'.disp.focusedView = s.disp.focusedView)
    (htile : s'.disp.tileView = s.disp.tileView) : SameFocus s s' := by
  refine ⟨?_, hfocus, fun t _ => congrFun htile t, by rw [houts]⟩
  rw [Server.curTile, Server.curTile, htiles, houts]

theorem emit_sameFocus {e : Event} : SameFocus s (s.emit e) := sameFocus_of_eq rfl rfl rfl rfl

/-- What another tile shows does not matter, nor putting in what the focused tile
shows already. -/
theorem workspaceTileUpdateView_sameFocus (h : s.curTile = .ok t → s.disp.tileView t = view) :
    Ensures (s.workspaceTileUpdateView t view) (SameFocus s) := by
  refine (workspaceTileUpdateView_keeps.and workspaceTileUpdateView_spec).mono ?_
  rintro s' ⟨hk, -, sc, rfl⟩
  refine hk.sameFocus rfl fun f hf => ?_
  show Function.update s.disp.tileView t view f = _
  by_cases hft : f = t
  · subst hft
    rw [Function.update_self, h hf]
  · rw [Function.update_of_ne hft]

theorem viewMaximize_sameFocus : Ensures (s.viewMaximize v t) (SameFocus s) := by
  refine viewMaximize_spec.mono ?_
  rintro s' ⟨-, sc, rfl⟩
  exact sameFocus_of_eq rfl rfl rfl rfl

theorem unlinkView_sameFocus : Ensures (s.unlinkView v) (SameFocus s) := by
  refine Ensures.bind wlListRemove_spec ?_
  rintro V ⟨a, c, -, -, rfl⟩
  exact Ensures.ok (sameFocus_of_eq rfl rfl rfl rfl)

theorem linkView_sameFocus {managed : Bool} : Ensures (s.linkView managed w v) (SameFocus s) :=
  Ensures.bind_any fun _ _ => Ensures.ok (sameFocus_of_eq rfl rfl rfl rfl)

theorem processCursorMotion_sameFocus : Ensures s.processCursorMotion (SameFocus s) := by
  refine processCursorMotion_spec.mono ?_
  rintro s' ⟨c, e, rfl, -⟩
  exact sameFocus_of_eq rfl rfl rfl rfl

/-- Sequencing operations that leave the focus alone. -/
theorem SameFocus.bind {m : Exec Server} {f : Server → Exec Server}
    (hm : Ensures m (SameFocus s)) (hf : ∀ s₁, SameFocus s s₁ → Ensures (f s₁) (SameFocus s₁)) :
    Ensures (m >>= f) (SameFocus s) :=
  hm.bind fun s₁ h₁ => (hf s₁ h₁).mono fun _ h₂ => h₁.trans h₂

/-! ### Operations that set the focus -/

/-- The focus agrees with the layout of the current output. -/
structure Focused (s : Server) : Prop where
  agrees : s.FocusAgrees
  output : s.outs.currOutput ≠ none

theorem SameFocus.focused (h : SameFocus s s') (hs : s.Focused) : s'.Focused := by
  refine ⟨h.agrees_iff.mpr hs.agrees, ?_⟩
  rw [h.currOutput]
  exact hs.output

theorem output_of_curTile (h : s.curTile = .ok t) : s.outs.currOutput ≠ none := by
  obtain ⟨o, w, ho, -⟩ := curTile_eq_ok.mp h
  rw [ho]
  exact Option.some_ne_none o

/-- **`seat_set_focus`** puts what gets the focus into the focused tile. -/
theorem seatSetFocus_focused (hview : ∀ v, view = some v → s.views.managed v = true) :
    Ensures (s.seatSetFocus view) Focused := by
  have hset : ∀ f, s.curTile = .ok f → ∀ s' : Server, KeepsLayout s s' →
      s'.disp.focusedView = view → s'.disp.tileView f = view → s'.Focused := by
    intro f hf s' hk hfocus htile
    refine ⟨fun t ht => ?_, ?_⟩
    · rw [hk.curTile, hf] at ht
      obtain rfl := Except.ok.inj ht
      rw [hfocus, htile]
    · rw [hk.outs]
      exact output_of_curTile hf
  cases view with
  | none =>
    refine (seatSetFocus_keeps.and seatSetFocus_none_spec).mono ?_
    rintro s' ⟨hk, f, sc, c, e, hf, rfl, -⟩
    refine hset f hf _ hk rfl ?_
    show Function.update s.disp.tileView f none f = none
    rw [Function.update_self]
  | some v =>
    refine (seatSetFocus_keeps.and (seatSetFocus_managed_spec (hview v rfl))).mono ?_
    rintro s' ⟨hk, w, f, V₁, V₂, sc, c, e, hw, hf, -, -, rfl, -⟩
    have hcur : s.curTile = .ok f := by
      rw [Server.curTile, hw, ok_bind, hf]
    refine hset f hcur _ hk rfl ?_
    show Function.update s.disp.tileView f (some v) f = some v
    rw [Function.update_self]

/-- Focusing a view that is not managed changes nothing about it. -/
theorem seatSetFocus_unmanaged_sameFocus (hv : s.views.managed v = false) :
    Ensures (s.seatSetFocus (some v)) (SameFocus s) := by
  refine (seatSetFocus_unmanaged_spec hv).mono ?_
  rintro s' ⟨c, e, rfl, -⟩
  exact sameFocus_of_eq rfl rfl rfl rfl

/-- The focus is as it was, or agrees with the layout. -/
def Refocuses (s s' : Server) : Prop := SameFocus s s' ∨ s'.Focused

theorem Refocuses.refl : Refocuses s s := .inl .refl

theorem Refocuses.trans (h : Refocuses s s') (h' : Refocuses s' s'') : Refocuses s s'' := by
  rcases h' with hsame' | hfocused'
  · rcases h with hsame | hfocused
    · exact .inl (hsame.trans hsame')
    · exact .inr (hsame'.focused hfocused)
  · exact .inr hfocused'

theorem Refocuses.agrees (h : Refocuses s s') (hs : s.FocusAgrees) : s'.FocusAgrees := by
  rcases h with hsame | hfocused
  · exact hsame.agrees_iff.mpr hs
  · exact hfocused.agrees

theorem Refocuses.bind {m : Exec Server} {f : Server → Exec Server}
    (hm : Ensures m (Refocuses s)) (hf : ∀ s₁, m = .ok s₁ → Ensures (f s₁) (Refocuses s₁)) :
    Ensures (m >>= f) (Refocuses s) :=
  Ensures.bind_any fun s₁ h₁ => (hf s₁ h₁).mono fun _ h₂ => (hm s₁ h₁).trans h₂

theorem SameFocus.refocuses {m : Exec Server} (hm : Ensures m (SameFocus s)) :
    Ensures m (Refocuses s) :=
  hm.mono fun _ h => .inl h

theorem Focused.refocuses {m : Exec Server} (hm : Ensures m Focused) : Ensures m (Refocuses s) :=
  hm.mono fun _ h => .inr h

/-! ### Changing the current output, workspace and tile -/

theorem focusShown_focused (hvi : s.ViewsInv) :
    Ensures (s.seatSetFocus (s.disp.tileView t)) Focused :=
  seatSetFocus_focused fun v hv => (hvi.shown t v hv).managed

theorem refocus_focused (hvi : s.ViewsInv) : Ensures s.refocus Focused :=
  Ensures.bind_any fun _ _ => focusShown_focused hvi

theorem emit_focused {e : Event} (h : s.Focused) : (s.emit e).Focused := emit_sameFocus.focused h

theorem setOutput_focused (hvi : s.ViewsInv) : Ensures (s.setOutput o) Focused := by
  have hset : Kept s { s with outs.currOutput := some o } := hvi.unchanged rfl rfl rfl
  exact refocus_focused hset.inv

theorem keybindingCycleOutputs_focused (hvi : s.ViewsInv) {reverse triggerEvent : Bool} :
    Ensures (s.keybindingCycleOutputs reverse triggerEvent) Focused := by
  refine Ensures.bind_any fun old _ => Ensures.nonNull fun o _ =>
    Ensures.bind (setOutput_focused hvi) fun s₁ h₁ => Ensures.ok ?_
  cases triggerEvent with
  | false => exact h₁
  | true => exact emit_focused h₁

theorem keybindingSwitchOutput_refocuses (hvi : s.ViewsInv) {num : ℕ} :
    Ensures (s.keybindingSwitchOutput num) (Refocuses s) :=
  Ensures.bind_any fun _ _ => Ensures.ifSome (fun _ => .refl) fun _ _ =>
    Ensures.bind (setOutput_focused hvi) fun _ h₁ => Ensures.ok (.inr (emit_focused h₁))

theorem keybindingSwitchWs_refocuses (hvi : s.ViewsInv) {ws : ℕ} :
    Ensures (s.keybindingSwitchWs ws) (Refocuses s) := by
  refine Ensures.ite (fun _ => Ensures.ok .refl) fun _ => Ensures.bind_any fun o _ => ?_
  refine Ensures.bind (workspaceFocus_kept hvi) fun s₁ h₁ => ?_
  refine Ensures.bind_any fun w _ => Ensures.bind_any fun f _ => ?_
  exact Ensures.bind (focusShown_focused h₁.inv) fun s₂ h₂ => Ensures.ok (.inr (emit_focused h₂))

/-- **`keybinding_focus_tile`** changes nothing if there is no such tile. -/
theorem keybindingFocusTile_focused (hvi : s.ViewsInv) {id : ℕ} :
    Ensures (s.keybindingFocusTile id) fun s' =>
      s.tileFromId id = .ok none ∧ s' = s ∨ s'.Focused := by
  refine Ensures.bind_any fun o _ => Ensures.bind_any fun w _ => Ensures.bind_any fun old _ =>
    Ensures.bind_any fun tile htile => Ensures.ifSome ?_ fun t _ => Ensures.bind_any fun ot _ => ?_
  · rintro rfl
    exact .inl ⟨htile, rfl⟩
  refine Ensures.bind (Ensures.ite (fun _ => Ensures.ok hvi.kept) fun _ => setOutput_kept hvi)
    fun s₁ h₁ => Ensures.bind_any fun oc _ => ?_
  refine Ensures.bind (Ensures.ite (fun _ => Ensures.ok h₁.inv.kept)
    fun _ => keybindingSwitchWs_kept h₁.inv) fun s₂ h₂ => ?_
  refine Ensures.bind (workspaceFocusTile_kept h₂.inv) fun s₃ h₃ => ?_
  exact Ensures.bind (focusShown_focused h₃.inv) fun s₄ h₄ => Ensures.ok (.inr (emit_focused h₄))

theorem keybindingFocusTile_refocuses (hvi : s.ViewsInv) {id : ℕ} :
    Ensures (s.keybindingFocusTile id) (Refocuses s) := by
  refine (keybindingFocusTile_focused hvi).mono ?_
  rintro s' (⟨-, rfl⟩ | hfocused)
  · exact .refl
  · exact .inr hfocused

theorem keybindingCycleTiles_refocuses (hvi : s.ViewsInv) {reverse : Bool} :
    Ensures (s.keybindingCycleTiles reverse) (Refocuses s) :=
  Ensures.bind_any fun _ _ => Ensures.deref fun _ => Ensures.nonNull fun _ _ =>
    Ensures.deref fun _ => keybindingFocusTile_refocuses hvi

theorem focusTile_refocuses (hvi : s.ViewsInv) {dir : Direction} :
    Ensures (s.focusTile dir t) (Refocuses s) :=
  Ensures.bind_any fun _ _ => Ensures.ifSome (fun _ => .refl) fun _ _ =>
    Ensures.bind (workspaceFocusTile_kept hvi) fun _ h₁ =>
      Focused.refocuses (focusShown_focused h₁.inv)

/-! ### Merging, swapping and cycling -/

/-- The focused tile is absorbed by `t`: its view keeps the focus. -/
structure FocusLost (s : Server) (t : TilePtr) (s' : Server) : Prop where
  curTile : s'.curTile = .ok t
  focusedView : s'.disp.focusedView = s.disp.focusedView
  tileView : s'.disp.tileView t = s.disp.tileView t

theorem FocusLost.agrees_iff (h : FocusLost s t s') (hs : s.FocusAgrees) (hm : s.curTile = .ok m) :
    s'.FocusAgrees ↔ s.disp.tileView t = s.disp.tileView m := by
  rw [FocusAgrees, h.curTile, h.focusedView, hs m hm]
  constructor
  · intro hall
    rw [← h.tileView, hall t rfl]
  · rintro heq t' ht'
    obtain rfl := Except.ok.inj ht'
    rw [h.tileView, heq]

/-- **`merge_tile`** leaves the focus alone, unless it frees the focused tile. -/
theorem mergeTile_focus (hwf : WellFormed False s) {dir : Direction} {tileId : ℕ}
    (hrun : s.terminated = false) (ht : s.addressedTile tileId = .ok (some t)) :
    Ensures (s.mergeTile dir t) fun s' => (SameFocus s s' ∧
        ∀ m, s.Absorbs dir tileId t m → s.curTile ≠ .ok m) ∨
      ∃ m, s.Absorbs dir tileId t m ∧ s.curTile = .ok m ∧ FocusLost s t s' := by
  refine Ensures.bind (P := fun found => s.tiles.findTileTowards dir t = .ok found ∧
    ∀ m, found = some m → m ∈ s.tiles.tilesOf (s.tiles.tileWorkspace t))
    (fun found hfound => ⟨hfound, fun m hm =>
      ((findTileTowards_spec hwf.tiles found hfound).2 m hm).1⟩)
    fun found hfound => ?_
  obtain ⟨hfound, hmem⟩ := hfound
  have hnone : ∀ m, s.Absorbs dir tileId t m → found = some m := fun m hm =>
    Except.ok.inj (hfound.symm.trans hm.neighbour)
  refine Ensures.ifSome (fun hn => .inl ⟨.refl, fun m hm => ?_⟩) fun m hm => ?_
  · exact absurd (hnone m hm) (by simp [hn])
  subst hm
  refine Ensures.ite (fun hc => Ensures.ok (.inl ⟨.refl, fun m' hm' => ?_⟩)) fun hc => ?_
  · obtain rfl := Option.some.inj (hnone m' hm')
    rcases hc with he | hd | hp
    · exact absurd he hm'.ne
    · exact absurd hm'.dim hd
    · exact absurd hm'.coord hp
  rw [not_or, not_or, not_not, not_not] at hc
  have habs : s.Absorbs dir tileId t m := ⟨hrun, ht, hfound, hc.1, hc.2.1, hc.2.2⟩
  refine Ensures.bind workspaceTileUpdateView_spec ?_
  rintro s₁ ⟨-, sc, rfl⟩
  refine Ensures.nonNull fun p _ => Ensures.nonNull fun n _ => ?_
  -- the view of the tile that grows is maximized, which changes nothing about the focus
  refine Ensures.bind (Ensures.ifSome (fun _ => .refl) fun v _ => viewMaximize_sameFocus)
    fun s₂ h₂ => Ensures.bind_any fun place _ => Ensures.ok ?_
  obtain ⟨ws, output, outputId⟩ := place
  have htile : ∀ f, f ≠ m → Function.update s.disp.tileView m none f = s.disp.tileView f :=
    fun f hf => Function.update_of_ne hf _ _
  by_cases hcur : s.curTile = .ok m
  · refine .inr ⟨m, habs, hcur, ?_⟩
    obtain ⟨o, w, ho, hw, hf⟩ := curTile_eq_ok.mp hcur
    have hmw := hwf.tiles.focused_mem (by simp) hf
    have hfoc : s.tiles.wsFocused w = some m := by
      obtain ⟨_, -, hfoc⟩ := bind_eq_ok.mp hf
      exact nonNull_eq_ok.mp hfoc
    have hcur₂ : s₂.curTile = .ok t := by
      rw [h₂.curTile]
      refine curTile_eq_ok.mpr ⟨o, w, ho, hw, ?_⟩
      rw [Tiles.focusedTile]
      refine bind_eq_ok.mpr ⟨(), deref_eq_ok.mpr hmw.1, nonNull_eq_ok.mpr ?_⟩
      show (if s.tiles.wsFocused (s.tiles.tileWorkspace m) = some m then
        Function.update s.tiles.wsFocused (s.tiles.tileWorkspace m) (some t)
          else s.tiles.wsFocused) w = some t
      rw [hmw.2.2, if_pos hfoc, Function.update_self]
    refine ⟨hcur₂, h₂.focusedView, (h₂.tileView t ?_).trans (htile t habs.ne.symm)⟩
    rw [← h₂.curTile]
    exact hcur₂
  · refine .inl ⟨SameFocus.trans ?_ (h₂.trans emit_sameFocus), fun m' hm' => ?_⟩
    · refine ⟨curTile_congr rfl fun w hw => ⟨rfl, ?_⟩, rfl, fun f hf => htile f ?_, rfl⟩
      · show (if s.tiles.wsFocused (s.tiles.tileWorkspace m) = some m then
          Function.update s.tiles.wsFocused (s.tiles.tileWorkspace m) (some t)
            else s.tiles.wsFocused) w = s.tiles.wsFocused w
        split
        · next hfoc =>
          refine Function.update_of_ne ?_ _ _
          -- were it the current workspace, `m` would be the focused tile
          rintro rfl
          refine hcur ?_
          rw [Server.curTile, hw, ok_bind, Tiles.focusedTile]
          have hlive := (hwf.tiles.tile_ws m (hmem m rfl).1).1
          rw [deref_eq_ok.mpr hlive, ok_bind, hfoc]
          rfl
        · rfl
      · rintro rfl
        exact hcur hf
    · obtain rfl := Option.some.inj (hnone m' hm')
      exact hcur

theorem swapTiles_refocuses (hwf : WellFormed False s) (hvi : s.ViewsInv)
    {tile swapTile : Option TilePtr} (hplaced : ∀ b, swapTile = some b → s.Placed b)
    {follow : Bool} : Ensures (s.swapTiles tile swapTile follow) (Refocuses s) := by
  unfold swapTiles
  split
  · next a b =>
    refine Ensures.ite (fun _ => Ensures.ok .refl) fun _ => Ensures.deref fun _ => ?_
    have hk : ∀ s₁, SameLayout s s₁ → Kept s s₁ → ∀ t view,
        (∀ v, view = some v → s.views.Manages v) →
        Ensures (s₁.workspaceTileUpdateView t view) fun s₂ => SameLayout s s₂ ∧ Kept s s₂ := by
      intro s₁ h₁ hk₁ t view hview
      refine (workspaceTileUpdateView_sameLayout.and (workspaceTileUpdateView_kept hk₁.inv
        fun v hv => hk₁.same.manages (hview v hv))).mono ?_
      rintro s₂ ⟨h₂, hk₂⟩
      exact ⟨h₁.trans h₂, hk₁.trans hk₂⟩
    refine Ensures.bind (hk s .refl hvi.kept a none (by simp)) fun s₁ h₁ => ?_
    refine Ensures.bind (hk s₁ h₁.1 h₁.2 b _ fun v hv => hvi.shown a v hv) fun s₂ h₂ => ?_
    refine Ensures.bind (hk s₂ h₂.1 h₂.2 a _ fun v hv => hvi.shown b v hv) fun s₃ h₃ => ?_
    refine Ensures.bind (P := Focused) (Ensures.ite (fun _ => ?_) fun _ => refocus_focused h₃.2.inv)
      fun s₄ h₄ => Ensures.bind_any fun place _ => ?_
    · refine (keybindingFocusTile_focused h₃.2.inv).mono ?_
      rintro s₄ (⟨hnot, -⟩ | hfocused)
      · -- the id of a tile that is placed is found
        have hwf₃ := h₃.1.toKeepsLayout.wellFormed hwf
        have hb := (hplaced b rfl).congr h₃.1.toKeepsLayout.sameArrays
        obtain ⟨found, hfound, -, hnone⟩ := tileFromId_spec hwf₃ (s₃.tiles.tileId b)
        have hfn : found = none := Except.ok.inj (hfound.symm.trans hnot)
        exact absurd rfl (hnone hfn b hb)
      · exact hfocused
    · obtain ⟨ws, output, outputId⟩ := place
      exact Ensures.ok (.inr (emit_focused h₄))
  · exact Ensures.ok .refl

theorem swapTile_refocuses (hwf : WellFormed False s) (hc : CurrentInv s.outs) (hvi : s.ViewsInv)
    {tileId : ℕ} {dir : Direction} {follow : Bool} :
    Ensures (s.swapTile tileId dir follow) (Refocuses s) := by
  refine Ensures.bind (addressedTile_placed hwf hc) fun tile htile =>
    Ensures.ifSome (fun _ => .refl) fun t ht => ?_
  refine Ensures.bind (findTileTowards_spec hwf.tiles) fun n hn => ?_
  refine swapTiles_refocuses hwf hvi fun b hb => ?_
  exact (htile t ht).same (hn.2 b hb).1

theorem keybindingCycleViews_refocuses (hvi : s.ViewsInv) {tile : Option TilePtr} {viewId : ℕ}
    {reverse ipc : Bool} :
    Ensures (s.keybindingCycleViews tile viewId reverse ipc) (Refocuses s) := by
  refine Ensures.bind_any fun t _ => Ensures.deref fun _ => Ensures.bind (cycleTarget_spec hvi)
    fun next hnext => Ensures.ifSome (fun _ => .refl) fun v hv => ?_
  have hman := (hnext v hv).1
  refine Ensures.bind (workspaceTileUpdateView_keeps.and ((workspaceTileUpdateView_kept hvi
    fun u hu => ?_).and workspaceTileUpdateView_spec)) fun s₁ h₁ => Ensures.bind_any fun f hf => ?_
  · obtain rfl := Option.some.inj hu
    exact hman
  obtain ⟨hk₁, h₁, -, sc, heq⟩ := h₁
  refine Ensures.bind (P := Refocuses s) (Ensures.ite (fun _ => ?_) fun htf => Ensures.ok (.inl ?_))
    fun s₂ h₂ => Ensures.ite (fun _ => ?_) fun _ => Ensures.ok h₂
  · refine Focused.refocuses (seatSetFocus_focused fun u hu => ?_)
    obtain rfl := Option.some.inj hu
    exact (h₁.same.manages hman).managed
  · refine hk₁.sameFocus (by rw [heq]; rfl) fun f' hf' => ?_
    rw [hk₁.curTile, hf'] at hf
    obtain rfl := Except.ok.inj hf
    rw [heq]
    exact Function.update_of_ne (Ne.symm htf) _ _
  · refine emitCycleViews_spec.mono ?_
    rintro s₃ ⟨e, rfl⟩
    exact h₂.trans (.inl emit_sameFocus)

/-! ### Splitting, resizing and full screen workspaces -/

theorem curTile_lt (hwf : WellFormed False s) (ht : s.curTile = .ok t) : t < s.tiles.tileTop := by
  obtain ⟨o, w, -, -, hf⟩ := curTile_eq_ok.mp ht
  exact hwf.tiles.tile_lt t (hwf.tiles.focused_mem (by simp) hf).2.1

/-- A new tile that is not focused, and the view that is put into it. -/
theorem newTile_sameFocus (hlt : ∀ t, s.curTile = .ok t → t < s.tiles.tileTop) {T : Tiles}
    (hlive : T.wsLive = s.tiles.wsLive)
    (hfocused : ∀ w, s.outs.curWs = .ok w → T.wsFocused w = s.tiles.wsFocused w) :
    Ensures (({ s with
        tiles := T
        disp.tileView := Function.update s.disp.tileView s.tiles.tileTop none } :
      Server).workspaceTileUpdateView s.tiles.tileTop view) fun s' =>
      SameFocus s s' ∧ s'.tiles = T := by
  set s₁ : Server := { s with
    tiles := T
    disp.tileView := Function.update s.disp.tileView s.tiles.tileTop none }
  have hne : ∀ f, s.curTile = .ok f → f ≠ s.tiles.tileTop := fun f hf => ne_of_lt (hlt f hf)
  have h₁ : SameFocus s s₁ := by
    refine ⟨curTile_congr rfl fun w hw => ⟨congrFun hlive w, hfocused w hw⟩, rfl,
      fun f hf => ?_, rfl⟩
    exact Function.update_of_ne (hne f hf) _ _
  refine ((workspaceTileUpdateView_sameFocus fun ht => ?_).and workspaceTileUpdateView_keeps).mono
    fun s₂ h₂ => ⟨h₁.trans h₂.1, h₂.2.tiles⟩
  rw [h₁.curTile] at ht
  exact absurd rfl (hne _ ht)

/-- Focusing the focused tile of a workspace again. -/
theorem workspaceFocusTile_sameFocus (hw : s.tiles.focusedTile w = .ok t) :
    Ensures (s.workspaceFocusTile w t) (SameFocus s) := by
  refine workspaceFocusTile_spec.mono ?_
  rintro s' ⟨-, rfl⟩
  refine ⟨curTile_congr rfl fun w' _ => ⟨rfl, ?_⟩, rfl, fun _ _ => rfl, rfl⟩
  show Function.update s.tiles.wsFocused w (some t) w' = _
  by_cases hww : w' = w
  · subst hww
    obtain ⟨_, -, hf⟩ := bind_eq_ok.mp hw
    rw [Function.update_self, nonNull_eq_ok.mp hf]
  · rw [Function.update_of_ne hww]

theorem keybindingSplitOutput_sameFocus (hwf : WellFormed False s) {vertical : Bool}
    {percentage : Percentage} :
    Ensures (s.keybindingSplitOutput o vertical percentage) (SameFocus s) := by
  refine Ensures.bind_any fun w _ => Ensures.bind_any fun f hf => Ensures.deref fun _ =>
    Ensures.ite (fun _ => Ensures.ok .refl) fun _ => Ensures.bind_any fun nextView _ =>
    Ensures.nonNull fun c _ => ?_
  refine Ensures.bind (newTile_sameFocus (fun _ => curTile_lt hwf) ?_ ?_) fun s₂ h₂ => ?_
  · rfl
  · exact fun _ _ => rfl
  refine Ensures.mono (P := SameFocus s₂) ?_ fun s' h' => h₂.1.trans h'
  refine SameFocus.bind (workspaceFocusTile_sameFocus ?_) fun s₃ _ => ?_
  · rw [h₂.2]
    exact hf
  refine SameFocus.bind (Ensures.ifSome (fun _ => .refl) fun _ _ => viewMaximize_sameFocus)
    fun s₄ _ => ?_
  refine SameFocus.bind (Ensures.ifSome (fun _ => .refl) fun _ _ => viewMaximize_sameFocus)
    fun s₅ _ => Ensures.bind_any fun place _ => ?_
  obtain ⟨ws, output, outputId⟩ := place
  exact Ensures.ok emit_sameFocus

theorem resize_sameFocus {a : Axis} {orig tile : TilePtr} {parent : Option TilePtr} {n : ℕ}
    {coordOffset dimOffset : ℤ} :
    Ensures (resize a orig n s tile parent coordOffset dimOffset) (SameFocus s) := by
  induction n generalizing s tile parent coordOffset dimOffset with
  | zero => exact Ensures.error
  | succ n ih =>
    refine Ensures.ite (fun _ => Ensures.ok .refl) fun _ => Ensures.bind_any fun its _ => ?_
    refine SameFocus.bind (Ensures.foldlM (fun s₁ it _ h₁ => ?_) .refl) fun s₁ _ => ?_
    · refine Ensures.ite (fun _ => Ensures.ok h₁) fun _ => ?_
      cases handedOn s₁.tiles a tile it coordOffset dimOffset with
      | none => exact Ensures.ok h₁
      | some cd => exact ih.mono fun _ h₂ => h₁.trans h₂
    · -- the tile gets its new box, and its view is maximized
      set s₂ : Server := { s₁ with tiles.tileBox := _ }
      have h₂ : SameFocus s₁ s₂ := by
        refine ⟨?_, rfl, fun _ _ => rfl, rfl⟩
        exact curTile_congr rfl fun _ _ => ⟨rfl, rfl⟩
      refine Ensures.mono (P := SameFocus s₂) ?_ fun _ h' => h₂.trans h'
      refine SameFocus.bind (Ensures.ifSome (fun _ => .refl) fun _ _ => viewMaximize_sameFocus)
        fun s₃ _ => Ensures.bind_any fun place _ => ?_
      obtain ⟨ws, output, outputId⟩ := place
      exact Ensures.ok emit_sameFocus

theorem resizeAlong_sameFocus {a : Axis} {pixs : ℤ} :
    Ensures (s.resizeAlong a o t pixs) (SameFocus s) :=
  Ensures.deref fun _ => Ensures.ite (fun _ => Ensures.bind_any fun _ _ =>
    Ensures.ite (fun _ => resize_sameFocus) fun _ => Ensures.ok .refl) fun _ => Ensures.ok .refl

theorem resizeTile_sameFocus {hpixs vpixs : ℤ} {tileId : ℕ} :
    Ensures (s.resizeTile hpixs vpixs tileId) (SameFocus s) :=
  Ensures.bind_any fun _ _ => Ensures.bind_any fun _ _ => Ensures.bind_any fun _ _ =>
    Ensures.ifSome (fun _ => .refl) fun _ _ =>
      SameFocus.bind resizeAlong_sameFocus fun _ _ => resizeAlong_sameFocus

/-- Freeing the tiles of a workspace that is not the current one. -/
theorem workspaceFreeTiles_sameFocus (hwf : s.tiles.TilesInv False none)
    (hw : s.outs.curWs ≠ .ok w) : Ensures (s.workspaceFreeTiles w) (SameFocus s) := by
  refine (workspaceFreeTiles_spec hwf).mono ?_
  rintro s' ⟨-, c, T, rfl, hT, -⟩
  refine ⟨curTile_congr rfl fun w' hw' => ⟨congrFun hT.wsLive w', hT.wsFocused w' ?_⟩, rfl,
    fun _ _ => rfl, rfl⟩
  rintro rfl
  exact hw hw'

/-- The tile that fills a workspace which is not the current one. -/
theorem fullScreenWorkspaceTiles_sameFocus
    (hlt : ∀ t, s.curTile = .ok t → t < s.tiles.tileTop) (hw : s.outs.curWs ≠ .ok w) :
    Ensures (s.fullScreenWorkspaceTiles w) fun s' => SameFocus s s' ∧ s'.outs = s.outs ∧
      s'.tiles.wsFocused w = some s.tiles.tileTop := by
  refine Ensures.deref fun _ => ?_
  refine (Ensures.and (newTile_sameFocus hlt ?_ ?_) workspaceTileUpdateView_keeps).mono ?_
  · rfl
  · intro w' hw'
    refine Function.update_of_ne ?_ _ _
    rintro rfl
    exact hw hw'
  · rintro s' ⟨⟨hsame, htiles⟩, hk⟩
    refine ⟨hsame, hk.outs, ?_⟩
    rw [htiles]
    exact Function.update_self _ _ _

theorem pointViewsAt_sameFocus {l : List ViewPtr} : SameFocus s (s.pointViewsAt l t) := by
  rw [pointViewsAt]
  induction l generalizing s with
  | nil => exact .refl
  | cons v l ih =>
    have hset : SameFocus s (s.setViewTile v (some t)) := sameFocus_of_eq rfl rfl rfl rfl
    exact hset.trans ih

/-- The current workspace is not the one that another index or another output has. -/
theorem curWs_ne (hwf : WellFormed False s) {ws : ℕ} (hw : s.outs.wsAt o ws = .ok w)
    (hne : ¬ (s.outs.outCurr o = ws ∧ s.outs.currOutput = some o)) : s.outs.curWs ≠ .ok w := by
  intro hcur
  obtain ⟨p, hp, hwp⟩ := bind_eq_ok.mp hcur
  have hp' := nonNull_eq_ok.mp hp
  obtain ⟨-, hout, hnum⟩ := hwf.outs.place o ws w (getElem?_of_wsAt hw)
  obtain ⟨-, hout', hnum'⟩ := hwf.outs.place p _ w (getElem?_of_wsAt hwp)
  obtain rfl : o = p := hout.symm.trans hout'
  exact hne ⟨hnum'.symm.trans hnum, hp'⟩

theorem outputMakeWorkspaceFullscreen_refocuses (hwf : WellFormed False s) (hvi : s.ViewsInv)
    {ws : ℕ} : Ensures (s.outputMakeWorkspaceFullscreen o ws) (Refocuses s) := by
  refine Ensures.ite (fun _ => Ensures.ok .refl) fun _ => Ensures.bind_any fun w hw =>
    Ensures.bind_any fun f _ => Ensures.deref fun _ =>
    Ensures.bind (fullscreenView_spec hvi) fun current hcurrent => ?_
  have hman : ∀ s₁, Kept s s₁ → ∀ v, current = some v → s₁.views.Manages v :=
    fun s₁ hk v hv => hk.same.manages (hcurrent v hv)
  by_cases hcur : s.outs.outCurr o = ws ∧ s.outs.currOutput = some o
  · -- the current workspace: the focus goes to the view that fills it
    refine Ensures.bind ((workspaceFreeTiles_kept hvi).and (workspaceFreeTiles_inv hwf))
      fun s₁ ⟨hk₁, h₁, hlive, ho₁⟩ => ?_
    refine Ensures.bind ((fullScreenWorkspaceTiles_kept hk₁.inv).and
      (fullScreenWorkspaceTiles_inv h₁ hlive)) fun s₂ ⟨hk₂, _, ho₂⟩ => ?_
    refine Ensures.bind_any fun f' _ => Ensures.bind_any fun l _ => ?_
    have hk₃ : Kept s (s₂.pointViewsAt l f') := (hk₁.trans hk₂).trans (pointViewsAt_kept hk₂.inv)
    refine Ensures.bind ((workspaceTileUpdateView_kept hk₃.inv (hman _ hk₃)).and
      workspaceTileUpdateView_keeps) fun s₄ ⟨hk₄, hl₄⟩ => ?_
    have hcur₄ : s₄.outs.outCurr o = ws ∧ s₄.outs.currOutput = some o := by
      rw [hl₄.outs, pointViewsAt_keeps.outs, ho₂, ho₁]
      exact hcur
    rw [if_pos hcur₄]
    exact Focused.refocuses (seatSetFocus_focused fun v hv =>
      (hman _ (hk₃.trans hk₄) v hv).managed)
  -- the workspace is not the current one, so that the focus stays
  · have hne := curWs_ne hwf hw hcur
    refine Ensures.bind ((workspaceFreeTiles_sameFocus hwf.tiles hne).and
      (workspaceFreeTiles_spec hwf.tiles)) fun s₁ ⟨h₁, hlive, c, T, heq, hT, _⟩ => ?_
    have hlt : ∀ t, s₁.curTile = .ok t → t < s₁.tiles.tileTop := by
      intro t ht
      rw [h₁.curTile] at ht
      rw [heq]
      show t < T.tileTop
      rw [hT.tileTop]
      exact curTile_lt hwf ht
    have hne₁ : s₁.outs.curWs ≠ .ok w := by
      rw [heq]
      exact hne
    refine Ensures.bind (fullScreenWorkspaceTiles_sameFocus hlt hne₁)
      fun s₂ ⟨h₂, ho₂, hfoc⟩ => ?_
    refine Ensures.bind_any fun f' hf' => Ensures.bind_any fun l _ => ?_
    obtain ⟨_, -, hf'⟩ := bind_eq_ok.mp hf'
    obtain rfl : s₁.tiles.tileTop = f' := Option.some.inj (hfoc.symm.trans (nonNull_eq_ok.mp hf'))
    have h₃ : SameFocus s (s₂.pointViewsAt l s₁.tiles.tileTop) :=
      (h₁.trans h₂).trans pointViewsAt_sameFocus
    refine SameFocus.refocuses (Ensures.mono ?_ fun _ h' => h₃.trans h')
    refine Ensures.bind ((workspaceTileUpdateView_sameFocus fun ht => ?_).and
      workspaceTileUpdateView_keeps) fun s₄ ⟨h₄, hk₄⟩ => Ensures.ite (fun hc => absurd ?_ hcur)
        fun _ => Ensures.ok h₄
    · -- the new tile is not the focused one
      rw [pointViewsAt_sameFocus.curTile, h₂.curTile] at ht
      exact absurd (hlt _ ht) (lt_irrefl _)
    · rwa [hk₄.outs, pointViewsAt_keeps.outs, ho₂, heq] at hc

theorem keybindingWorkspaceFullscreen_refocuses (hwf : WellFormed False s) (hvi : s.ViewsInv)
    {screen workspace : ℕ} :
    Ensures (s.keybindingWorkspaceFullscreen screen workspace) (Refocuses s) :=
  Ensures.bind_any fun _ _ => Ensures.ifSome (fun _ => .refl) fun _ _ =>
    Ensures.ite (fun _ => Ensures.ok .refl) fun _ =>
    Ensures.bind (outputMakeWorkspaceFullscreen_refocuses hwf hvi) fun _ h₁ =>
      Ensures.bind_any fun _ _ => Ensures.bind_any fun _ _ =>
        Ensures.ok (h₁.trans (.inl emit_sameFocus))

end Server

end Cagebreak
