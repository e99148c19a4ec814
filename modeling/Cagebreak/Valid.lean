/-
Operations that return.

Showing and focusing views follows pointers to tiles, workspaces, outputs, views
and list heads.  `Valid` says that those of a state lead to what is there; every
operation here that begins in such a state returns, and ends in one again.

* `workspaceTileUpdateView_gives`, `seatSetFocus_gives` — the two operations that
  every command is made of;
* `keybindingSwitchWs_gives`, `keybindingFocusTile_gives` — changing the current
  workspace and the focused tile.
-/
import Cagebreak.Shown

namespace Cagebreak

open Exec

namespace Server

variable {s s' s'' : Server} {t f : TilePtr} {u v : ViewPtr} {w : WsPtr} {o : OutPtr}
  {view : Option ViewPtr}

/-! ### Pointers that may be followed -/

/-- What the view points at is there. -/
structure Usable (s : Server) (v : ViewPtr) : Prop where
  live : s.views.viewLive v = true
  workspace : ∃ w, s.views.viewWorkspace v = some w ∧ s.tiles.wsLive w = true
  linked : s.views.links.Chained (.view v)

/-- The pointers that are followed to show and to focus views lead to what is there. -/
structure Valid (s : Server) : Prop where
  layout : WellFormed False s
  current : CurrentInv s.outs
  output : ∃ o, s.outs.currOutput = some o
  homes : ∀ w, s.tiles.wsLive w = true → s.outs.outLive (s.tiles.wsOutput w) = true
  cursorAt : ∀ o x y, s.cursorAt = some (o, x, y) → o ∈ s.outs.outputs
  heads : ∀ w, s.tiles.wsLive w = true → s.views.links.Chained (.head true w)
  shown : ∀ t v, s.Shows t v → s.Usable v
  focused : ∀ v, s.disp.focusedView = some v → s.views.viewLive v = true

/-- The pointers are in order again, and so are those of each view they were of. -/
structure StaysValid (s s' : Server) : Prop where
  valid : s'.Valid
  usable : ∀ v, s.Usable v → s'.Usable v

theorem StaysValid.trans (h : StaysValid s s') (h' : StaysValid s' s'') : StaysValid s s'' :=
  ⟨h'.valid, fun v hv => h'.usable v (h.usable v hv)⟩

theorem Valid.stays (h : s.Valid) : StaysValid s s := ⟨h, fun _ hv => hv⟩

/-- Sequencing operations that return. -/
theorem StaysValid.bind {m : Exec Server} {f : Server → Exec Server} (hm : Gives m (StaysValid s))
    (hf : ∀ s₁, StaysValid s s₁ → Gives (f s₁) (StaysValid s₁)) :
    Gives (m >>= f) (StaysValid s) :=
  hm.bind fun s₁ h₁ => (hf s₁ h₁).mono fun _ h₂ => h₁.trans h₂

theorem Usable.congr (h : s.Usable v) (htiles : s'.tiles = s.tiles)
    (hlive : s'.views.viewLive = s.views.viewLive)
    (hws : s'.views.viewWorkspace = s.views.viewWorkspace)
    (hlinked : s'.views.links.Chained (.view v)) : s'.Usable v := by
  constructor
  · rw [hlive]
    exact h.live
  · rw [hws, htiles]
    exact h.workspace
  · exact hlinked

/-- Tiles and outputs are the same, the lists are in order, and what comes into a
tile or gets the focus may be used. -/
theorem Valid.congr (h : s.Valid) (hk : KeepsLayout s s') (hcursor : s'.cursorAt = s.cursorAt)
    (hheads : ∀ w, s.views.links.Chained (.head true w) → s'.views.links.Chained (.head true w))
    (husable : ∀ v, s.Usable v → s'.Usable v)
    (hshown : ∀ t v, s'.Shows t v → s.Usable v)
    (hfocused : ∀ v, s'.disp.focusedView = some v → s'.views.viewLive v = true) :
    StaysValid s s' := by
  refine ⟨⟨hk.wellFormed h.layout, ?_, ?_, ?_, ?_, ?_, ?_, hfocused⟩, husable⟩
  · rw [hk.outs]
    exact h.current
  · rw [hk.outs]
    exact h.output
  · rw [hk.outs, hk.tiles]
    exact h.homes
  · rw [hk.outs, hcursor]
    exact h.cursorAt
  · rw [hk.tiles]
    exact fun w hw => hheads w (h.heads w hw)
  · exact fun t v hv => husable v (hshown t v hv)

theorem emit_staysValid (h : s.Valid) {e : Event} : StaysValid s (s.emit e) :=
  h.congr emit_sameLayout.toKeepsLayout rfl (fun _ hw => hw)
    (fun _ hv => hv.congr rfl rfl rfl hv.linked) h.shown h.focused

theorem Usable.workspaceOf (h : s.Usable v) : ∃ w, s.views.workspaceOf v = .ok w ∧
    s.views.viewWorkspace v = some w ∧ s.tiles.wsLive w = true := by
  obtain ⟨w, hw, hlive⟩ := h.workspace
  refine ⟨w, ?_, hw, hlive⟩
  rw [Views.workspaceOf, deref_eq_ok.mpr h.live, ok_bind, nonNull_eq_ok]
  exact hw

/-- The output of a tile is there. -/
theorem Valid.outputOfTile (h : s.Valid) (ht : s.tiles.tileLive t = true) :
    s.outputOfTile t = .ok (s.tiles.wsOutput (s.tiles.tileWorkspace t)) := by
  have hw := (h.layout.tiles.tile_ws t ht).1
  rw [Server.outputOfTile, deref_eq_ok.mpr ht, ok_bind, deref_eq_ok.mpr hw, ok_bind]
  show (deref (s.outs.outLive (s.tiles.wsOutput (s.tiles.tileWorkspace t))) >>= _) = _
  rw [deref_eq_ok.mpr (h.homes _ hw), ok_bind]

theorem Valid.placeOf (h : s.Valid) (ht : s.tiles.tileLive t = true) :
    Gives (s.placeOf t) fun _ => True := by
  rw [Server.placeOf, h.outputOfTile ht, ok_bind]
  exact Gives.ok trivial

/-- There is a focused tile, in a workspace that is there. -/
theorem Valid.curTile (h : s.Valid) : ∃ o w f, s.outs.currOutput = some o ∧
    s.outs.curWs = .ok w ∧ s.tiles.focusedTile w = .ok f ∧ s.curTile = .ok f ∧ s.Placed f := by
  obtain ⟨o, ho⟩ := h.output
  obtain ⟨f, hf, hplaced⟩ := exists_curTile h.layout h.current ho
  obtain ⟨o', w, ho', hw, hfw⟩ := curTile_eq_ok.mp hf
  refine ⟨o', w, f, ho', ?_, hfw, hf, hplaced⟩
  rw [Outputs.curWs, Outputs.curOut, nonNull_eq_ok.mpr ho', ok_bind, hw]

/-- The keyboard focus is on what the focused tile shows. -/
def FocusAgrees (s : Server) : Prop :=
  ∀ t, s.curTile = .ok t → s.disp.focusedView = s.disp.tileView t

/-! ### Showing a view -/

theorem Assigned.usable (ha : Assigned s t view s') (hv : s.Usable v) : s'.Usable v := by
  refine hv.congr (by rw [ha.eq]) (by rw [ha.eq]) (by rw [ha.eq]) ?_
  rw [ha.eq]
  exact hv.linked

theorem Assigned.staysValid (ha : Assigned s t view s') (h : s.Valid)
    (hview : ∀ v, view = some v → s.Usable v) : StaysValid s s' := by
  have hviews : s'.views = s.views := by rw [ha.eq]
  refine h.congr ⟨by rw [ha.eq], by rw [ha.eq], ?_⟩ (by rw [ha.eq]) (fun w hw => ?_)
    (fun v => ha.usable) (fun t' v hv => ?_) fun v hv => ?_
  · rw [ha.eq]
    exact fun _ => .inl
  · rw [hviews]
    exact hw
  · rcases ha.shows_iff.mp hv with ⟨-, hv⟩ | ⟨-, hv⟩
    · exact hview v hv
    · exact h.shown t' v hv
  · rw [hviews]
    rw [ha.eq] at hv
    exact h.focused v hv

/-- **`workspace_tile_update_view`** returns. -/
theorem workspaceTileUpdateView_gives (h : s.Valid) (ht : s.tiles.tileLive t = true)
    (hview : ∀ v, view = some v → s.Usable v) :
    Gives (s.workspaceTileUpdateView t view) fun s' => Assigned s t view s' ∧ StaysValid s s' := by
  suffices hret : Gives (s.workspaceTileUpdateView t view) fun _ => True by
    refine (hret.and workspaceTileUpdateView_assigned).mono ?_
    rintro s' ⟨-, ha⟩
    exact ⟨ha, ha.staysValid h hview⟩
  rw [workspaceTileUpdateView, deref_eq_ok.mpr ht, ok_bind]
  -- the view the tile has shown is still there
  refine Gives.bind (P := fun s₁ => s₁.tiles = s.tiles ∧ s₁.outs = s.outs ∧ s₁.views = s.views)
    (Gives.ifSome (fun _ => ⟨rfl, rfl, rfl⟩) fun old hold => ?_) ?_
  · exact Gives.deref (h.shown t old ⟨ht, hold⟩).live (Gives.ok ⟨rfl, rfl, rfl⟩)
  · rintro s₁ ⟨htiles, houts, hviews⟩
    refine Gives.ifSome (fun _ => trivial) fun v hv => ?_
    obtain ⟨w, hw, -, hlive⟩ := (hview v hv).workspaceOf
    refine Gives.bind (P := fun _ => True) ?_ fun _ _ => Gives.ok trivial
    refine Gives.deref ?_ ?_
    · show s₁.tiles.tileLive t = true
      rw [htiles]
      exact ht
    · show Gives (s₁.views.workspaceOf v >>= _) _
      rw [hviews, hw, ok_bind]
      refine Gives.deref ?_ (Gives.ok trivial)
      show (s₁.tiles.wsLive w && s₁.outs.outLive (s₁.tiles.wsOutput w)) = true
      rw [htiles, houts, hlive, h.homes w hlive]
      rfl

/-! ### The keyboard focus -/

theorem processCursorMotion_staysValid (h : s.Valid) :
    Ensures s.processCursorMotion (StaysValid s) := by
  refine processCursorMotion_spec.mono ?_
  rintro s' ⟨c, e, rfl, hc⟩
  exact h.congr ⟨rfl, rfl, hc⟩ rfl (fun _ hw => hw)
    (fun _ hv => hv.congr rfl rfl rfl hv.linked) h.shown h.focused

/-- **`process_cursor_motion`** returns. -/
theorem processCursorMotion_gives (h : s.Valid) :
    Gives s.processCursorMotion (StaysValid s) := by
  suffices hret : Gives s.processCursorMotion fun _ => True by
    exact (hret.and (processCursorMotion_staysValid h)).mono fun _ hs => hs.2
  refine Gives.ifSome (fun _ => trivial) ?_
  rintro ⟨o, x, y⟩ hcursor
  have ho := h.cursorAt o x y hcursor
  obtain ⟨w, hw, hlive, hout, -⟩ := h.layout.outs.wsAt (fun _ => rfl) ho (h.current.workspace o ho)
  obtain ⟨f, l, hf, -⟩ := h.layout.tiles.exists_ring hlive
  obtain ⟨found, hfound, -⟩ := h.layout.tiles.findTile hlive
    (q := fun t => decide (((s.tiles.tileBox t).x : ℚ) ≤ x ∧ ((s.tiles.tileBox t).y : ℚ) ≤ y ∧
      x ≤ ((s.tiles.tileBox t).x + (s.tiles.tileBox t).width : ℤ) ∧
      y ≤ ((s.tiles.tileBox t).y + (s.tiles.tileBox t).height : ℤ))) fun _ _ => rfl
  refine Gives.deref (decide_eq_true ho) ?_
  rw [hw, ok_bind, hf, ok_bind]
  refine Gives.bind (P := fun _ => True) ⟨found, hfound, trivial⟩ fun found' _ => ?_
  refine Gives.bind (P := fun _ => True) (Gives.ifSome (fun _ => trivial) fun c hc => ?_)
    fun _ _ => Gives.ok trivial
  refine Gives.ite (fun _ => Gives.ok trivial) fun _ => ?_
  rw [h.outputOfTile (h.layout.cursor c hc), ok_bind]
  exact Gives.ok trivial

/-- Another view, or none, has got the focus. -/
theorem Valid.setFocusedView (h : s.Valid) (hview : ∀ v, view = some v → s.Usable v) :
    StaysValid s (s.setFocusedView view) :=
  h.congr ⟨rfl, rfl, fun _ => .inl⟩ rfl (fun _ hw => hw)
    (fun _ hv => hv.congr rfl rfl rfl hv.linked) h.shown
    fun v hv => (hview v hv).live

theorem Valid.viewActivate (h : s.Valid) (hs' : s'.views.viewLive = s.views.viewLive) :
    s'.viewActivate s.disp.focusedView = .ok () := by
  rw [Server.viewActivate]
  cases hv : s.disp.focusedView with
  | none => rfl
  | some v =>
    rw [ifSome_some, deref_eq_ok, hs']
    exact h.focused v hv

/-- The head of a list is moved behind a view. -/
theorem Valid.moveHead (h : s.Valid) (hw : s.tiles.wsLive w = true) (hv : s.Usable v) :
    ∃ V₁ V₂, s.views.wlListRemove (.head true w) = .ok V₁ ∧
      V₁.wlListInsert (.view v) (.head true w) = .ok V₂ ∧ StaysValid s { s with views := V₂ } := by
  obtain ⟨⟨a, ha⟩, c, hc⟩ := h.heads w hw
  -- what is left of the lists once the head is out of them
  have hleft : ∀ n, n ≠ .head true w → s.views.links.Chained n →
      (s.views.links.unlink a (.head true w) c).Chained n := fun n hn hlinked => hlinked.unlink hn
  obtain ⟨d, hd⟩ := (hleft (.view v) nofun hv.linked).next
  refine ⟨{ s.views with links := s.views.links.unlink a (.head true w) c },
    { s.views with
      links := (s.views.links.unlink a (.head true w) c).insert (.view v) (.head true w) d },
    ?_, ?_, ?_⟩
  · rw [Views.wlListRemove, ha, hc]
    rfl
  · show (nonNull ((s.views.links.unlink a (.head true w) c).next (.view v)) >>= _) = _
    rw [hd]
    rfl
  · refine h.congr ⟨rfl, rfl, fun _ => .inl⟩ rfl (fun w' hw' => ?_) (fun u hu => ?_) h.shown
      h.focused
    · by_cases hww : w' = w
      · rw [hww]
        exact DLinks.chained_insert
      · refine (hleft _ (fun e => hww ?_) hw').insert
        exact (Node.head.inj e).2
    · exact hu.congr rfl rfl rfl (hleft (.view u) nofun hu.linked).insert

/-- **`seat_set_focus`** returns. -/
theorem seatSetFocus_gives (h : s.Valid) (hview : ∀ v, view = some v → s.Usable v) :
    Gives (s.seatSetFocus view) (StaysValid s) := by
  obtain ⟨o, w, f, -, hw, hf, hcur, hplaced⟩ := h.curTile
  cases view with
  | none =>
    rw [seatSetFocus, hcur, ok_bind]
    refine Gives.bind (workspaceTileUpdateView_gives h hplaced.live nofun) ?_
    rintro s₁ ⟨ha, h₁⟩
    have hfocus : StaysValid s₁ (s₁.setFocusedView none) := h₁.valid.setFocusedView nofun
    show Gives ((s₁.setFocusedView none).viewActivate s.disp.focusedView >>= fun _ => _) _
    rw [h.viewActivate (by rw [ha.eq]; rfl), ok_bind]
    refine (processCursorMotion_gives hfocus.valid).mono fun s₂ h₂ => ?_
    exact (h₁.trans hfocus).trans h₂
  | some v =>
    have hv := hview v rfl
    rw [seatSetFocus, deref_eq_ok.mpr hv.live, ok_bind]
    have henter : ∀ s₁, s₁.Valid → s₁.Usable v → Gives (s₁.seatEnter v) (StaysValid s₁) := by
      intro s₁ h₁ hv₁
      refine Gives.bind (processCursorMotion_gives h₁) fun s₂ h₂ => ?_
      obtain ⟨w', hw', -, hlive⟩ := (h₂.usable v hv₁).workspaceOf
      rw [hw', ok_bind]
      refine Gives.deref ?_ (Gives.ok h₂)
      rw [hlive, h₂.valid.homes w' hlive]
      rfl
    -- a view that is not managed gets no tile
    by_cases hm : s.views.managed v = true
    · rw [if_pos hm, hw, ok_bind, hf, ok_bind]
      refine Gives.bind (workspaceTileUpdateView_gives h hplaced.live hview) ?_
      rintro s₁ ⟨ha, h₁⟩
      have hwlive : s₁.tiles.wsLive w = true := by
        obtain ⟨_, hwlive, -⟩ := bind_eq_ok.mp hf
        rw [ha.eq]
        exact deref_eq_ok.mp hwlive
      obtain ⟨V₁, V₂, hV₁, hV₂, h₂⟩ := h₁.valid.moveHead hwlive (h₁.usable v hv)
      have hlive₂ : V₂.viewLive = s.views.viewLive := by
        obtain ⟨_, _, -, -, rfl⟩ := wlListRemove_spec _ hV₁
        obtain ⟨_, -, rfl⟩ := wlListInsert_spec _ hV₂
        show s₁.views.viewLive = s.views.viewLive
        rw [ha.eq]
      rw [hV₁, ok_bind, hV₂, ok_bind]
      show Gives (Server.viewActivate { s₁ with views := V₂ } s.disp.focusedView >>= fun _ => _) _
      rw [h.viewActivate hlive₂, ok_bind]
      have hv₂ := h₂.usable v (h₁.usable v hv)
      have hfocus : StaysValid _ (Server.setFocusedView { s₁ with views := V₂ } (some v)) :=
        h₂.valid.setFocusedView fun u hu => Option.some.inj hu ▸ hv₂
      refine (henter _ hfocus.valid (hfocus.usable v hv₂)).mono fun s₃ h₃ => ?_
      exact ((h₁.trans h₂).trans hfocus).trans h₃
    · rw [if_neg hm]
      exact Gives.ite (fun _ => henter s h hv) fun _ => Gives.ok h.stays

theorem refocus_gives (h : s.Valid) : Gives s.refocus (StaysValid s) := by
  obtain ⟨o, w, f, -, -, -, hcur, hplaced⟩ := h.curTile
  rw [refocus, hcur, ok_bind]
  exact seatSetFocus_gives h fun v hv => h.shown f v ⟨hplaced.live, hv⟩

/-! ### Other outputs, workspaces and tiles -/

/-- Another current output, another current workspace. -/
theorem Valid.setOuts (h : s.Valid) {O : Outputs} (hs' : s' = { s with outs := O })
    (hlayout : WellFormed False s') (hcurrent : CurrentInv O) (houtput : ∃ o, O.currOutput = some o)
    (hlive : O.outLive = s.outs.outLive) (houtputs : O.outputs = s.outs.outputs) :
    StaysValid s s' := by
  subst hs'
  refine ⟨⟨hlayout, hcurrent, houtput, ?_, ?_, h.heads, fun t v hv => ?_, h.focused⟩,
    fun v hv => ?_⟩
  · intro w hw
    show O.outLive (s.tiles.wsOutput w) = true
    rw [hlive]
    exact h.homes w hw
  · intro o x y hc
    show o ∈ O.outputs
    rw [houtputs]
    exact h.cursorAt o x y hc
  · have hv' := h.shown t v hv
    exact hv'.congr rfl rfl rfl hv'.linked
  · exact hv.congr rfl rfl rfl hv.linked

theorem Valid.setCurrOutput (h : s.Valid) (ho : o ∈ s.outs.outputs) :
    StaysValid s { s with outs.currOutput := some o } :=
  h.setOuts rfl (LayoutInv.setCurrent h.layout (some o) s.outs.outCurr)
    (CurrentInv.setOutput h.current ho) ⟨o, rfl⟩ rfl rfl

theorem Valid.setOutCurr (h : s.Valid) {ws : ℕ} (hws : ws < s.outs.nws) :
    StaysValid s { s with outs.outCurr := Function.update s.outs.outCurr o ws } :=
  h.setOuts rfl (LayoutInv.setCurrent h.layout s.outs.currOutput _)
    (CurrentInv.setWorkspace h.current hws) h.output rfl rfl

theorem setOutput_gives (h : s.Valid) (ho : o ∈ s.outs.outputs) :
    Gives (s.setOutput o) (StaysValid s) :=
  (refocus_gives (h.setCurrOutput ho).valid).mono fun _ h' => (h.setCurrOutput ho).trans h'

/-- **`keybinding_switch_ws`** returns. -/
theorem keybindingSwitchWs_gives (h : s.Valid) {ws : ℕ} :
    Gives (s.keybindingSwitchWs ws) (StaysValid s) := by
  refine Gives.ite (fun _ => Gives.ok h.stays) fun hws => ?_
  have hws' : ws < s.outs.nws := not_le.mp hws
  obtain ⟨o, ho⟩ := h.output
  have hmem := h.current.output o ho
  obtain ⟨wOld, hwOld, hliveOld, -⟩ := h.layout.outs.wsAt (fun _ => rfl) hmem
    (h.current.workspace o hmem)
  obtain ⟨w, hw, hlive, -⟩ := h.layout.outs.wsAt (fun _ => rfl) hmem hws'
  obtain ⟨f, l, hf, -, -, hring⟩ := h.layout.tiles.exists_ring hlive
  have hflive : s.tiles.tileLive f = true := ((hring f).mp List.mem_cons_self).1
  have hcurr := h.setOutCurr (o := o) hws'
  rw [Outputs.curOut, nonNull_eq_ok.mpr ho, ok_bind]
  show Gives (s.workspaceFocus o ws >>= fun s₁ => _) _
  rw [workspaceFocus, if_neg hws, hwOld, ok_bind, hw, ok_bind, hliveOld, hlive]
  show Gives (s.outs.wsAt o ws >>= fun w => _) _
  rw [hw, ok_bind]
  show Gives (s.tiles.focusedTile w >>= fun f => _) _
  rw [hf, ok_bind]
  refine Gives.bind (seatSetFocus_gives hcurr.valid fun v hv => hcurr.valid.shown f v ⟨hflive, hv⟩)
    fun s₂ h₂ => Gives.ok ?_
  exact (hcurr.trans h₂).trans (emit_staysValid h₂.valid)

/-- Focusing a tile of a workspace. -/
theorem workspaceFocusTile_gives (h : s.Valid) (ht : s.tiles.tileLive t = true) :
    Gives (s.workspaceFocusTile (s.tiles.tileWorkspace t) t) (StaysValid s) := by
  have hw := (h.layout.tiles.tile_ws t ht).1
  refine Gives.deref (by rw [hw, ht]; rfl) (Gives.ok ⟨⟨?_, h.current, h.output, h.homes, h.cursorAt,
    h.heads, fun t' v hv => ?_, h.focused⟩, fun v hv => ?_⟩)
  · exact ⟨h.layout.tiles.focus ⟨ht, rfl⟩, h.layout.cursor,
      h.layout.outs.congr ⟨rfl, rfl, rfl, rfl⟩ ⟨rfl, rfl, rfl, rfl, rfl⟩⟩
  · have hv' := h.shown t' v hv
    exact ⟨hv'.live, hv'.workspace, hv'.linked⟩
  · exact ⟨hv.live, hv.workspace, hv.linked⟩

/-- **`keybinding_focus_tile`** returns. -/
theorem keybindingFocusTile_gives (h : s.Valid) {id : ℕ} :
    Gives (s.keybindingFocusTile id) (StaysValid s) := by
  obtain ⟨o, w, f, ho, hw, hf, -⟩ := h.curTile
  obtain ⟨found, hfound, hsome, -⟩ := tileFromId_spec h.layout id
  rw [keybindingFocusTile, Outputs.curOut, nonNull_eq_ok.mpr ho, ok_bind, hw, ok_bind, hf, ok_bind,
    hfound, ok_bind]
  refine Gives.ifSome (fun _ => h.stays) fun t ht => ?_
  obtain ⟨hplaced, -⟩ := hsome t ht
  rw [h.outputOfTile hplaced.live, ok_bind]
  -- the tiles stay what they are until the tile is focused
  refine Gives.bind (P := fun s₁ => StaysValid s s₁ ∧ s₁.tiles = s.tiles)
    (Gives.ite (fun _ => Gives.ok ⟨h.stays, rfl⟩) fun _ =>
      (setOutput_gives h hplaced.output).and setOutput_tiles) ?_
  rintro s₁ ⟨h₁, htiles₁⟩
  obtain ⟨oc, hoc⟩ := h₁.valid.output
  rw [Outputs.curOut, nonNull_eq_ok.mpr hoc, ok_bind]
  refine Gives.bind (P := fun s₂ => StaysValid s s₂ ∧ s₂.tiles = s.tiles)
    (Gives.ite (fun _ => Gives.ok ⟨h₁, htiles₁⟩) fun _ =>
      ((keybindingSwitchWs_gives h₁.valid).and keybindingSwitchWs_tiles).mono
        fun _ hs => ⟨h₁.trans hs.1, hs.2.trans htiles₁⟩) ?_
  rintro s₂ ⟨h₂, htiles₂⟩
  have hlive₂ : s₂.tiles.tileLive t = true := by
    rw [htiles₂]
    exact hplaced.live
  rw [← htiles₂]
  refine Gives.bind ((workspaceFocusTile_gives h₂.valid hlive₂).and workspaceFocusTile_spec) ?_
  rintro s₃ ⟨h₃, -, heq⟩
  have hlive₃ : s₃.tiles.tileLive t = true := by
    rw [heq]
    exact hlive₂
  refine Gives.bind (seatSetFocus_gives h₃.valid fun v hv => h₃.valid.shown t v ⟨hlive₃, hv⟩)
    fun s₄ h₄ => Gives.ok ?_
  exact ((h₂.trans h₃).trans h₄).trans (emit_staysValid h₄.valid)

/-! ### Looking at a state -/

/-- `Usable`, decided. -/
def isUsable (s : Server) (v : ViewPtr) : Bool :=
  s.views.viewLive v && (s.views.viewWorkspace v).any s.tiles.wsLive &&
    (s.views.links.prev (.view v)).isSome && (s.views.links.next (.view v)).isSome

theorem usable_of_isUsable (h : s.isUsable v = true) : s.Usable v := by
  simp only [isUsable, Bool.and_eq_true, Option.any_eq_true, Option.isSome_iff_exists] at h
  obtain ⟨⟨⟨hlive, w, hw, hwlive⟩, hprev⟩, hnext⟩ := h
  exact ⟨hlive, ⟨w, hw, hwlive⟩, hprev, hnext⟩

/-- `Valid` without what holds of every layout, decided: there are no more tiles and
workspaces than have been made. -/
def isValid (s : Server) : Bool :=
  s.outs.currOutput.isSome && s.outs.currOutput.all (· ∈ s.outs.outputs) &&
    s.outs.outputs.all (fun o => s.outs.outCurr o < s.outs.nws) &&
    (List.range s.tiles.wsTop).all (fun w => !s.tiles.wsLive w ||
      s.outs.outLive (s.tiles.wsOutput w) && (s.views.links.prev (.head true w)).isSome &&
        (s.views.links.next (.head true w)).isSome) &&
    s.cursorAt.all (fun c => c.1 ∈ s.outs.outputs) &&
    (List.range s.tiles.tileTop).all (fun t => !s.tiles.tileLive t ||
      (s.disp.tileView t).all s.isUsable) &&
    s.disp.focusedView.all s.views.viewLive

end Server

open Server in
theorem WellFormed.valid {s : Server} (h : WellFormed False s) (hs : s.isValid = true) :
    s.Valid := by
  simp only [isValid, Bool.and_eq_true, Bool.or_eq_true, Bool.not_eq_true', List.all_eq_true,
    List.mem_range, Option.all_eq_true, Option.isSome_iff_exists, decide_eq_true_eq] at hs
  obtain ⟨⟨⟨⟨⟨⟨houtput, hcur⟩, hws⟩, hheads⟩, hcursor⟩, hshown⟩, hfocused⟩ := hs
  have hhead : ∀ w, s.tiles.wsLive w = true → _ := fun w hw =>
    (hheads w (h.tiles.ws_lt w hw)).resolve_left (by simp [hw])
  refine ⟨h, ⟨hcur, hws⟩, houtput, fun w hw => (hhead w hw).1.1,
    fun o x y hc => hcursor (o, x, y) hc, fun w hw => ⟨(hhead w hw).1.2, (hhead w hw).2⟩,
    fun t v hv => ?_, hfocused⟩
  have ht := (hshown t (h.tiles.tile_lt t hv.1)).resolve_left (by simp [hv.1])
  exact usable_of_isUsable (ht v hv.2)

end Cagebreak
