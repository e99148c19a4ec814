/-
The lists of the workspaces in every run.

Two commands put a view into a tile of another workspace and leave it in its list:
cycling to a view by its id, and exchanging the views of two tiles.  Unmapping does so
when the focus is on a view of another workspace.  Every other input files each view where
it belongs.

* `step_filed` — one input;
* `lists_filed` — every run;
* `views_filed` — every run that keeps the focus, and which inputs end one like it;
* `view_placed` — no view is lost when outputs and workspaces go.
-/
import Cagebreak.FiledUnplug
import Cagebreak.Workspaces

namespace Cagebreak

open Exec

namespace Server

open Views

variable {s s' : Server} {t f : TilePtr} {u v : ViewPtr} {w : WsPtr} {o : OutPtr} {kb : Bool}
  {fit lit : ViewPtr → Prop} {a : Action} {i : Input}

/-! ### What lists and focus say of the tiles -/

/-- The view with the focus is shown by the focused tile. -/
theorem FocusInv.shows (hwf : WellFormed False s) (hr : s.Running) (hf : s.FocusInv)
    (hu : s.disp.focusedView = some u) : ∃ f, s.curTile = .ok f ∧ s.Shows f u := by
  cases ho : s.outs.currOutput with
  | none => exact nomatch (hf.background ho).symm.trans hu
  | some o =>
    obtain ⟨f, hcur, -⟩ := exists_curTile hwf hr.current ho
    exact ⟨f, hcur, hf.agrees.shows hwf.tiles hcur hu⟩

/-- No tile but the focused one shows the view with the focus, and what takes the place
of a view that goes is shown by no tile. -/
theorem FocusInv.withdraws (hwf : WellFormed False s) (hr : s.Running) (hs : s.Sound fit lit)
    (hf : s.FocusInv) : s.Withdraws v kb := by
  have hcur : ∀ u t, s.disp.focusedView = some u → s.Shows t u → s.curTile = .ok t := by
    intro u t hu ht
    obtain ⟨f, hcur, hshown⟩ := hf.shows hwf hr hu
    rw [hs.settled.onlyAt hshown t ht]
    exact hcur
  refine ⟨fun _ u t hu _ ht => hcur u t hu ht, fun u x t hu hcase hx ht => ?_⟩
  rcases hcase with rfl | ⟨-, rfl⟩
  · exact hcur u t hu ht
  · -- the previous view is hidden, and the one with the focus is not
    obtain ⟨f, -, hshown⟩ := hf.shows hwf hr hu
    have hinvisible := (viewGetPrevView_listed hs _ hx u rfl).2
    exact absurd hshown ((hs.settled.hidden hinvisible).2 f)

/-- A split finds the focused view in the focused tile only. -/
theorem FocusInv.splits (hwf : WellFormed False s) (hs : s.Sound fit lit) (hf : s.FocusInv)
    {vertical : Bool} {percentage : Percentage} :
    SplitsFocused (fun _ => False) s vertical percentage := by
  refine ⟨fun f v hcur _ hv => ?_, fun _ _ _ _ hfit => False.elim hfit⟩
  exact hs.settled.onlyAt (hf.agrees.shows hwf.tiles hcur hv)

/-- A workspace that becomes full screen has the tiles that show its views. -/
theorem Filed.makesFullscreen (hwf : WellFormed False s) (h : s.Filed none)
    (ho : o ∈ s.outs.outputs) {ws : ℕ} : MakesFullscreen (fun _ => False) s o ws := by
  refine ⟨fun w t v hw hin hv => ?_, fun _ _ _ _ _ _ hlit => False.elim hlit⟩
  have hres := (h.lists.of_connected (WellFormed.owns_live hwf ho ⟨ws, hw⟩) hin).1
  have hshown := (h.shown t v hv).1
  exact hshown.unique hres

/-! ### Inputs that leave every view where it belongs -/

/-- The command shows a view in a tile of its own workspace. -/
def CommandKeepsHome (s : Server) : Action → Prop
  | .cycleViews reverse viewId => ∀ t v, s.curTile = .ok t →
    s.cycleTarget (s.tiles.tileWorkspace t) viewId reverse = .ok (some v) →
    s.views.viewWorkspace v = some (s.tiles.tileWorkspace t)
  | .swap tileId swapTileId _ => ∀ a b, s.tileFromId tileId = .ok (some a) →
    s.tileFromId swapTileId = .ok (some b) → s.Exchangeable a b
  | _ => True

/-- The input is no command that shows a view elsewhere. -/
def KeepsHome (s : Server) : Input → Prop
  | .command a => s.terminated = true ∨ s.CommandKeepsHome a
  | _ => True

/-- So is the command, and no split of a view that another tile shows. -/
def CommandKeepsFiled (s : Server) : Action → Prop
  | .splitHorizontal percentage => SplitsFocused (fun _ => False) s false percentage
  | .splitVertical percentage => SplitsFocused (fun _ => False) s true percentage
  | a => s.CommandKeepsHome a

/-- What an input keeps in order, `CommandKeepsFiled` for a command.  When a view is
unmapped, the views that get the focus and come into tiles are where they belong. -/
def KeepsFiled (s : Server) : Input → Prop
  | .command a => s.CommandKeepsFiled a
  | .viewUnmap v kb | .viewDestroy v kb => s.views.viewMapped v = true → s.WithdrawsHome v kb
  | _ => True

theorem CommandKeepsFiled.keepsHome (h : s.CommandKeepsFiled a) : s.CommandKeepsHome a := by
  cases a with
  | splitHorizontal => trivial
  | splitVertical => trivial
  | _ => exact h

/-- **Such an input shows no view twice.** -/
theorem Filed.keepsShown (hwf : WellFormed False s) (hr : s.Running) (h : s.Filed none)
    (hi : s.KeepsFiled i) (ho : ∀ o cursor, i = .outputDestroy o cursor → o ∈ s.outs.outputs) :
    s.KeepsShown False False i := by
  cases i with
  | outputDestroy o cursor => exact h.detached fun w => WellFormed.owns_live hwf (ho o cursor rfl)
  | viewUnmap v kb => exact fun hv => (hi hv).toWithdraws
  | viewDestroy v kb => exact fun hv => (hi hv).toWithdraws
  | command a =>
    have hreceives : ∀ t view, Receives (fun _ => False) s t view := fun t view =>
      ⟨fun _ hlit => False.elim hlit, fun _ _ _ hlit => hlit.elim fun _ hlit => False.elim hlit⟩
    cases a with
    | splitHorizontal => exact hi
    | splitVertical => exact hi
    | layoutFullscreen screen workspace =>
      intro cur o hcur ho
      refine .inr (h.makesFullscreen hwf ?_)
      split at ho
      · exact mem_of_outputFromNum ho
      · obtain rfl := Option.some.inj ho
        exact hr.current.output _ hcur
    | workspaces => exact fun hlit => False.elim hlit
    | _ => exact fun _ _ view t _ _ _ => hreceives t view
  | _ => trivial

/-- So lists and tiles stay in order. -/
theorem step_orderly (hwf : WellFormed False s) (hvi : s.ViewsInv) (hr : s.Running)
    (hs : s.Sound (fun _ => False) fun _ => False) (h : s.Filed none) (hi : s.KeepsFiled i) :
    Ensures (step s i) (Sound (fun _ => False) fun _ => False) := by
  by_cases hd : ∃ o cursor, i = .outputDestroy o cursor ∧ o ∉ s.outs.outputs
  · obtain ⟨o, cursor, rfl, ho⟩ := hd
    exact Ensures.ite (fun _ => Ensures.ok hs) fun _ =>
      Ensures.deref fun hmem => absurd (of_decide_eq_true hmem) ho
  · refine step_sound hwf hvi hs (h.keepsShown hwf hr hi fun o cursor heq => ?_)
    by_contra ho
    exact hd ⟨o, cursor, heq, ho⟩

/-- **Commands** file every view that they move. -/
theorem runAction_filed (hwf : WellFormed False s) (hvi : s.ViewsInv) (hs : s.Sound fit lit)
    (h : s.Filed none) (ha : s.CommandKeepsHome a) : Ensures (s.runAction a) (Filed none) := by
  have hstays : ∀ m : Exec Server, Ensures m (StaysFiled none s) → Ensures m (Filed none) :=
    fun m hm => hm.mono fun _ h' => h'.filed
  cases a with
  | layoutFullscreen => exact keybindingWorkspaceFullscreen_filed hwf h
  | splitHorizontal => exact Ensures.bind_any fun o _ => keybindingSplitOutput_filed hwf h
  | splitVertical => exact Ensures.bind_any fun o _ => keybindingSplitOutput_filed hwf h
  | cycleViews reverse viewId =>
    -- with an id the view may be in any list
    refine hstays _ (keybindingCycleViews_filed hwf.tiles h fun t v ht _ hv => ⟨?_, nofun⟩)
    obtain ⟨hlisted, hinvisible⟩ := cycleTarget_listed hs _ hv v rfl
    exact ⟨hs.mapped_of_listed hlisted, (hs.settled.hidden hinvisible).1, ha t v ht hv⟩
  | cycleTiles =>
    exact Ensures.ite (fun _ => keybindingCycleTiles_filed hwf h)
      fun _ => keybindingFocusTile_filed hwf h
  | cycleOutput => exact hstays _ (keybindingCycleOutputs_filed hwf.tiles h)
  | switchWorkspace => exact hstays _ (keybindingSwitchWs_filed hwf.tiles h)
  | switchOutput => exact hstays _ (keybindingSwitchOutput_filed hwf.tiles h)
  | resizeTileHorizontal => exact resizeTile_filed h
  | resizeTileVertical => exact resizeTile_filed h
  | moveToTile => exact Ensures.bind_any fun _ _ => keybindingMoveViewToTile_filed hwf hvi hs h
  | moveToWorkspace =>
    exact Ensures.bind_any fun _ _ => keybindingMoveViewToWorkspace_filed hwf hvi hs h
  | moveToOutput => exact Ensures.bind_any fun _ _ => keybindingMoveViewToOutput_filed hwf hvi hs h
  | moveViewToTile => exact keybindingMoveViewToTile_filed hwf hvi hs h
  | moveViewToWorkspace => exact keybindingMoveViewToWorkspace_filed hwf hvi hs h
  | moveViewToOutput => exact keybindingMoveViewToOutput_filed hwf hvi hs h
  | merge =>
    exact Ensures.bind_any fun _ _ => Ensures.ifSome (fun _ => h) fun _ _ => mergeTile_filed h
  | swapDir => exact swapTile_filed hwf h
  | swap =>
    -- tiles that are not found are not exchanged
    refine Ensures.bind_any fun tile htile => Ensures.bind_any fun swapTile hswap =>
      swapTiles_filed hwf h ?_
    rintro a b rfl rfl
    exact ha a b htile hswap
  | focus => exact Ensures.bind_any fun _ ht => focusTile_filed hwf h ht
  | moveViewToCycleOutput => exact keybindingMoveViewToCycleOutput_filed hwf hvi hs h
  | workspaces nws => exact keybindingSetNws_filed hwf hvi h nws.2.1

/-- **Inputs** file every view that they move, until the display is terminated. -/
theorem step_filed (hwf : WellFormed False s) (hvi : s.ViewsInv) (hs : s.Sound fit lit)
    (h : s.Filed none) (hi : s.KeepsFiled i) :
    Ensures (step s i) fun s' => s'.terminated = false → s'.Filed none := by
  have halways : ∀ m : Exec Server, Ensures m (Filed none) →
      Ensures m fun s' => s'.terminated = false → s'.Filed none :=
    fun m hm => hm.mono fun _ h' _ => h'
  refine Ensures.ite (fun _ => Ensures.ok fun _ => h) fun _ => ?_
  have hcursor : ∀ c, ({ s with cursorAt := c } : Server).Filed none := fun c => h.congr rfl rfl rfl
  cases i with
  | command a => exact halways _ (runAction_filed hwf hvi hs h hi.keepsHome)
  | outputNew name box cursor =>
    exact halways _ (handleNewOutput_filed (hwf.setCursorAt cursor) (hcursor cursor))
  | outputDestroy o cursor =>
    exact Ensures.deref fun ho => outputDestroy_filed (hwf.setCursorAt cursor)
      (hs.congr rfl rfl rfl rfl) (hcursor cursor) (of_decide_eq_true ho)
  | layoutChange o box => exact halways _ (Ensures.ok (h.congr rfl rfl rfl))
  | cursorMotion cursor =>
    refine halways _ (processCursorMotion_spec.mono ?_)
    rintro s' ⟨c, e, rfl, -⟩
    exact h.congr rfl rfl rfl
  | viewNew attrs => exact halways _ (viewInit_filed hvi h)
  | viewMap v x y =>
    exact Ensures.deref fun hv => halways _ (viewMap_filed hwf.tiles h (by simpa using hv))
  | viewUnmap v kb =>
    exact Ensures.deref fun _ => halways _ (viewUnmap_filed hwf.tiles hvi hs h hi)
  | viewDestroy v kb => exact halways _ (viewDestroy_filed hwf.tiles hvi hs h hi)

/-- **When the focus is where the layout says**, only the two commands are to be left
out. -/
theorem FocusInv.keepsFiled (hwf : WellFormed False s) (hr : s.Running) (hs : s.Sound fit lit)
    (hf : s.FocusInv) (h : s.Filed none) (hrun : s.terminated = false) (hi : s.KeepsHome i) :
    s.KeepsFiled i := by
  have hwithdraws : ∀ v kb, s.WithdrawsHome v kb := fun v kb =>
    ⟨hf.withdraws hwf hr hs, fun _ => h.focusHome hwf.tiles hf.agrees⟩
  cases i with
  | viewUnmap v kb => exact fun _ => hwithdraws v kb
  | viewDestroy v kb => exact fun _ => hwithdraws v kb
  | command a =>
    have ha := hi.resolve_left (by simp [hrun])
    cases a with
    | splitHorizontal => exact hf.splits hwf hs
    | splitVertical => exact hf.splits hwf hs
    | _ => exact ha
  | _ => trivial

/-! ### Commands that show a view elsewhere -/

/-- A switch to another workspace leaves every view in its workspace. -/
theorem keybindingSwitchWs_views {ws : ℕ} : Ensures (s.keybindingSwitchWs ws) fun s' =>
    s'.views = { s.views with links := s'.views.links } := by
  refine Ensures.ite (fun _ => Ensures.ok rfl) fun _ => Ensures.bind_any fun o _ =>
    Ensures.bind workspaceFocus_spec fun s₁ h₁ => Ensures.bind_any fun w _ =>
      Ensures.bind_any fun f _ => Ensures.bind seatSetFocus_sameLayout fun s₂ h₂ => Ensures.ok ?_
  show s₂.views = { s.views with links := s₂.views.links }
  rcases h₁ with ⟨rfl, -⟩ | ⟨rfl, -⟩
  · exact h₂.views
  · exact h₂.views

/-- So does a switch to another tile. -/
theorem keybindingFocusTile_views (hwf : WellFormed False s) {id : ℕ} :
    Ensures (s.keybindingFocusTile id) fun s' =>
      s'.views = { s.views with links := s'.views.links } := by
  refine (keybindingFocusTile_cases hwf).mono ?_
  rintro s' (⟨-, rfl⟩ | ⟨t, s₁, s₂, s₃, s₄, e, -, hs₁, hs₂, -, hs₃, -, hs₄, rfl⟩)
  · rfl
  have h₁ : s₁.views = { s.views with links := s₁.views.links } := by
    rcases hs₁ with rfl | hs₁
    · rfl
    · exact (refocus_sameLayout s₁ hs₁).views
  have h₂ : s₂.views = { s₁.views with links := s₂.views.links } := by
    rcases hs₂ with rfl | hs₂
    · rfl
    · exact keybindingSwitchWs_views s₂ hs₂
  obtain ⟨-, rfl⟩ := workspaceFocusTile_spec s₃ hs₃
  have h₄ := (seatSetFocus_sameLayout s₄ hs₄).views
  show s₄.views = { s.views with links := s₄.views.links }
  rw [h₄]
  show { s₂.views with links := s₄.views.links } = _
  rw [h₂, h₁]

/-- Views that are exchanged stay in their workspaces. -/
theorem swapTiles_views (hwf : WellFormed False s) {tile swapTile : Option TilePtr}
    {follow : Bool} : Ensures (s.swapTiles tile swapTile follow) fun s' =>
      s'.views = { s.views with links := s'.views.links } := by
  unfold swapTiles
  split
  · next a b =>
    refine Ensures.ite (fun _ => Ensures.ok rfl) fun _ => Ensures.deref fun _ => ?_
    refine Ensures.bind workspaceTileUpdateView_sameLayout fun s₁ h₁ => ?_
    refine Ensures.bind workspaceTileUpdateView_sameLayout fun s₂ h₂ => ?_
    refine Ensures.bind workspaceTileUpdateView_sameLayout fun s₃ h₃ => ?_
    have hsame := (h₁.trans h₂).trans h₃
    refine Ensures.bind (P := fun s₄ => s₄.views = { s₃.views with links := s₄.views.links })
      (Ensures.ite (fun _ => keybindingFocusTile_views (hsame.toKeepsLayout.wellFormed hwf))
        fun _ => refocus_sameLayout.mono fun s₄ h₄ => h₄.views)
      fun s₄ h₄ => Ensures.bind_any fun place _ => Ensures.ok ?_
    show s₄.views = { s.views with links := s₄.views.links }
    rw [h₄, hsame.views]
  · exact Ensures.ok rfl

/-- **An exchange between workspaces** leaves a tile with a view of the other one. -/
theorem swapTiles_strays (hwf : WellFormed False s) (hb : s.Backed) (h : s.Filed none)
    (ha : s.tiles.tileLive t = true) (hlive : s.tiles.tileLive f = true)
    (hnot : ¬ s.Exchangeable t f) {follow : Bool} :
    Ensures (s.swapTiles (some t) (some f) follow) fun s' => ¬ s'.Filed none := by
  obtain ⟨hws, hview⟩ := not_or.mp hnot
  have hne : t ≠ f := fun he => hws (congrArg _ he)
  refine ((swapTiles_showing hwf hb hne).and (swapTiles_views hwf)).mono ?_
  rintro s' ⟨⟨-, hshowing, -⟩, hviews⟩ h'
  have htw : s'.tiles.tileWorkspace = s.tiles.tileWorkspace := by rw [hshowing.tiles]
  -- a view that goes from one tile to the other takes its workspace along
  have hgoes : ∀ x y v, s.Shows x v → s.tiles.tileWorkspace x ≠ s.tiles.tileWorkspace y →
      ¬ s'.Shows y v := by
    intro x y v hold hxy hnew
    have h1 := (h.shown x v hold).1.workspace
    have h2 := (h'.shown y v hnew).1.workspace
    rw [hviews, htw] at h2
    exact hxy (Option.some.inj (h1.symm.trans h2))
  have hexch := Display.exchange_tileView (D := s.disp) hne
  cases ht : s.disp.tileView t with
  | some v =>
    refine hgoes t f v ⟨ha, ht⟩ hws (hshowing.shows_iff.mpr ⟨hlive, ?_⟩)
    show (s.disp.exchange t f).tileView f = some v
    rw [hexch, Function.update_self, ht]
  | none =>
    cases hf : s.disp.tileView f with
    | none => exact hview ⟨ht, hf⟩
    | some v =>
      refine hgoes f t v ⟨hlive, hf⟩ (Ne.symm hws) (hshowing.shows_iff.mpr ⟨ha, ?_⟩)
      show (s.disp.exchange t f).tileView t = some v
      rw [hexch, Function.update_of_ne hne, Function.update_self, hf]

/-- **Cycling to a view of another workspace** shows it in the focused tile. -/
theorem keybindingCycleViews_strays (hm : s.views.managed v = true) (ht : s.curTile = .ok t)
    {viewId : ℕ} {reverse : Bool}
    (hv : s.cycleTarget (s.tiles.tileWorkspace t) viewId reverse = .ok (some v))
    (hne : s.views.viewWorkspace v ≠ some (s.tiles.tileWorkspace t)) :
    Ensures (s.keybindingCycleViews none viewId reverse true) fun s' => ¬ s'.Filed none := by
  have hshown : Ensures (s.keybindingCycleViews none viewId reverse true) fun s' =>
      s'.Shows t v := by
    refine Ensures.bind_any fun t' ht' => Ensures.deref fun _ =>
      Ensures.bind_any fun next hnext => ?_
    obtain rfl := Except.ok.inj (ht.symm.trans ht')
    obtain rfl := Except.ok.inj (hv.symm.trans hnext)
    rw [ifSome_some]
    refine Ensures.bind workspaceTileUpdateView_assigned fun s₁ ha =>
      Ensures.bind_any fun f hf => ?_
    have h₁ : s₁.Shows t v := ha.shows_iff.mpr (.inl ⟨rfl, rfl⟩)
    refine Ensures.bind (P := fun s₂ => s₂.Shows t v) (Ensures.ite (fun htf => ?_)
      fun _ => Ensures.ok h₁) fun s₂ h₂ => Ensures.ite (fun _ => emitCycleViews_spec.mono ?_)
        fun _ => Ensures.ok h₂
    · refine (seatSetFocus_shows_iff fun u hu => ?_).mono ?_
      · obtain rfl := Option.some.inj hu
        rw [ha.eq]
        exact hm
      · rintro s₂ ⟨-, f', hf', hshows⟩
        obtain rfl := Except.ok.inj (hf.symm.trans hf')
        exact (hshows t v).mpr (.inl ⟨htf, rfl⟩)
    · rintro s₃ ⟨e, rfl⟩
      exact h₂
  refine (hshown.and keybindingCycleViews_sameLayout).mono ?_
  rintro s' ⟨hshows, hsame⟩ h'
  have hws := (h'.shown t v hshows).1.workspace
  rw [hsame.viewWorkspace, hsame.tiles] at hws
  exact hne hws

/-- **Only these two commands** leave a view in the list of another workspace. -/
theorem runAction_strays (hwf : WellFormed False s) (hvi : s.ViewsInv) (hs : s.Sound fit lit)
    (h : s.Filed none) (ha : ¬ s.CommandKeepsHome a) :
    Ensures (s.runAction a) fun s' => ¬ s'.Filed none := by
  cases a with
  | cycleViews reverse viewId =>
    simp only [CommandKeepsHome, not_forall] at ha
    obtain ⟨t, v, ht, hv, hne⟩ := ha
    have hinvisible := (cycleTarget_listed hs _ hv v rfl).2
    exact keybindingCycleViews_strays (hs.settled.hidden hinvisible).1 ht hv hne
  | swap tileId swapTileId follow =>
    simp only [CommandKeepsHome, not_forall] at ha
    obtain ⟨t, f, ht, hf, hnot⟩ := ha
    have hlive : ∀ id x, s.tileFromId id = .ok (some x) → s.tiles.tileLive x = true :=
      fun id x hx => (tileFromId_placed hwf _ hx x rfl).1.live
    have hb : s.Backed := ⟨hs.settled.tile, fun t v hv => (hvi.shown t v hv).managed⟩
    refine Ensures.bind_any fun tile htile => Ensures.bind_any fun swapTile hswap => ?_
    obtain rfl := Except.ok.inj (ht.symm.trans htile)
    obtain rfl := Except.ok.inj (hf.symm.trans hswap)
    exact swapTiles_strays hwf hb h (hlive _ _ ht) (hlive _ _ hf) hnot
  | _ => exact absurd trivial ha

theorem Filed.init : Server.init.Filed none := by
  have hnone : ∀ t v, ¬ Server.init.Shows t v := nofun
  refine ⟨⟨fun _ _ => [], ?_, ?_⟩, ?_, fun t v hv => absurd hv (hnone t v)⟩
  · intro managed w hw
    exact nomatch hw
  · intro managed w v hw
    exact nomatch hw
  · intro v hv
    exact nomatch hv

end Server

open Server

variable {s s' : Server}

/-- The lists and the tiles after any run of inputs that keep them in order. -/
theorem filed_of_kept (h : Steps step (fun s i => s.KeepsFiled i) Server.init s)
    (hrun : s.terminated = false) :
    s.Sound (fun _ => False) (fun _ => False) ∧ s.Filed none := by
  induction h with
  | refl => exact ⟨.init, .init⟩
  | @tail s₀ s₁ i hsteps hi hs₁ ih =>
    cases hterm : s₀.terminated with
    | true =>
      -- nothing is handled any more
      rw [step.eq_def, if_pos hterm] at hs₁
      obtain rfl := Except.ok.inj hs₁
      exact ih hrun
    | false =>
      have hreach : Reachable s₀ := hsteps.mono fun _ _ _ => trivial
      obtain ⟨hs, hfiled⟩ := ih hterm
      exact ⟨step_orderly hreach.wellFormed hreach.viewsInv (hreach.running hterm) hs hfiled hi s₁
          hs₁,
        step_filed hreach.wellFormed hreach.viewsInv hs hfiled hi s₁ hs₁ hrun⟩

/-- A run that keeps the focus and every view where it belongs is such a run. -/
theorem keepsFiled_of_steps
    (h : Steps step (fun s i => s.KeepsFocus i ∧ s.KeepsHome i) Server.init s)
    (hrun : s.terminated = false) : Steps step (fun s i => s.KeepsFiled i) Server.init s := by
  induction h with
  | refl => exact .refl
  | @tail s₀ s₁ i hsteps hi hs₁ ih =>
    cases hterm : s₀.terminated with
    | true =>
      rw [step.eq_def, if_pos hterm] at hs₁
      obtain rfl := Except.ok.inj hs₁
      exact ih hrun
    | false =>
      obtain ⟨⟨hwf, -, hr⟩, hf⟩ := focusInv_of_steps (hsteps.mono fun _ _ hok => hok.1)
      obtain ⟨hs, hfiled⟩ := filed_of_kept (ih hterm) hterm
      exact (ih hterm).tail (hf.keepsFiled hwf (hr hterm) hs hfiled hterm hi.2) hs₁

theorem filed_of_steps (h : Steps step (fun s i => s.KeepsFocus i ∧ s.KeepsHome i) Server.init s)
    (hrun : s.terminated = false) :
    s.Sound (fun _ => False) (fun _ => False) ∧ s.Filed none :=
  filed_of_kept (keepsFiled_of_steps h hrun) hrun

/-- **The lists of the workspaces.**  The list of every workspace is a ring of its head and
of the mapped views that belong to it, every mapped view belongs to a workspace, and tiles
show views of their own workspace, in every run without one of the two commands in which
no split and no unmapping meets a view with the focus that is shown elsewhere. -/
theorem lists_filed (h : Steps step (fun s i => s.KeepsFiled i) Server.init s)
    (hrun : s.terminated = false) : s.Filed none :=
  (filed_of_kept h hrun).2

/-- A view is moved from a tile that has been split to another workspace, and another view
is unmapped there. -/
theorem lists_filed_moved : ∃ s, Steps step (fun s i => s.KeepsFiled i) Server.init s ∧
    s.Shows 1 0 ∧ s.tiles.tileWorkspace 1 = 1 ∧ s.Filed none := by
  obtain ⟨s, hs, htest⟩ := exists_of_returns (p := fun s : Server => !s.terminated &&
      s.tiles.tileLive 1 && decide (s.disp.tileView 1 = some 0) &&
      decide (s.tiles.tileWorkspace 1 = 1))
    (m := run step Server.init
      [.outputNew "HDMI-A-1" eightBySix none, .command (.workspaces ⟨2, by decide, by decide⟩),
        .viewNew ⟨false, false, false, 0⟩, .viewNew ⟨false, false, false, 0⟩, .viewMap 0 0 0,
        .viewMap 1 0 0, .command (.splitVertical half), .command (.switchWorkspace 1),
        .command (.moveViewToTile 1 2 true), .viewUnmap 1 true]) (by decide +kernel)
  simp only [Bool.and_eq_true, Bool.not_eq_true', decide_eq_true_eq] at htest
  obtain ⟨⟨⟨hrun, hlive⟩, hview⟩, hws⟩ := htest
  have hsteps : Steps step (fun s i => s.KeepsFocus i ∧ s.KeepsHome i) Server.init s := by
    refine Steps.of_run hs ?_
    simp [KeepsFocus, KeepsHome, CommandKeepsHome, LosesFocus, moveTarget, Action.follow]
  have hkept := keepsFiled_of_steps hsteps hrun
  exact ⟨s, hkept, ⟨hlive, hview⟩, hws, lists_filed hkept hrun⟩

/-- An output and a view. -/
theorem exists_filed : ∃ s, Steps step (fun s i => s.KeepsFocus i ∧ s.KeepsHome i)
    Server.init s ∧ s.terminated = false ∧ s.Shows 0 0 ∧ s.views.viewMapped 0 = true := by
  obtain ⟨s, hs, htest⟩ := exists_of_returns (p := fun s : Server => !s.terminated &&
      s.tiles.tileLive 0 && decide (s.disp.tileView 0 = some 0) && s.views.viewMapped 0)
    (m := run step Server.init [.outputNew "HDMI-A-1" ⟨0, 0, 8, 6, by decide, by decide⟩ none,
      .viewNew ⟨false, false, false, 0⟩, .viewMap 0 0 0]) (by decide)
  simp only [Bool.and_eq_true, Bool.not_eq_true', decide_eq_true_eq] at htest
  obtain ⟨⟨⟨hrun, hlive⟩, hview⟩, hmapped⟩ := htest
  refine ⟨s, Steps.of_run hs ?_, hrun, ⟨hlive, hview⟩, hmapped⟩
  simp [KeepsFocus, KeepsHome]

/-- **Every mapped view is in the list of its workspace and in no other, tiles show
views of their own workspace, and tiles and views point at each other**, in every run
without a command that loses the focus or shows a view elsewhere, and any command of the
second kind ends that. -/
theorem views_filed (h : Steps step (fun s i => s.KeepsFocus i ∧ s.KeepsHome i) Server.init s)
    (hrun : s.terminated = false) :
    s.Filed none ∧ s.PointersAgree ∧ ∀ i s', step s i = .ok s' → s'.terminated = false →
      (s'.Filed none ↔ s.KeepsHome i) := by
  obtain ⟨⟨hwf, hvi, hr⟩, hf⟩ := focusInv_of_steps (h.mono fun _ _ hok => hok.1)
  obtain ⟨hs, hfiled⟩ := filed_of_steps h hrun
  refine ⟨hfiled, hs.pointersAgree, fun i s' hs' hrun' => ?_⟩
  by_cases hhome : s.KeepsHome i
  · have hkept := hf.keepsFiled hwf (hr hrun) hs hfiled hrun hhome
    exact iff_of_true (step_filed hwf hvi hs hfiled hkept s' hs' hrun') hhome
  · refine iff_of_false ?_ hhome
    cases i with
    | command a =>
      obtain ⟨hterm, hnot⟩ := not_or.mp hhome
      rw [step, if_neg hterm] at hs'
      exact runAction_strays hwf hvi hs hfiled hnot s' hs'
    | _ => exact absurd trivial hhome

theorem views_filed_shown : ∃ s, Steps step (fun s i => s.KeepsFocus i ∧ s.KeepsHome i)
    Server.init s ∧ s.terminated = false ∧ s.Shows 0 0 ∧ s.Filed none ∧ s.PointersAgree ∧
      ∀ i s', step s i = .ok s' → s'.terminated = false → (s'.Filed none ↔ s.KeepsHome i) := by
  obtain ⟨s, hsteps, hrun, hshown, -⟩ := exists_filed
  exact ⟨s, hsteps, hrun, hshown, views_filed hsteps hrun⟩

/-- A hidden view is cycled to by its id while another workspace is shown. -/
theorem views_stray : ¬ ∀ s, Reachable s → s.terminated = false → s.Filed none := by
  intro h
  obtain ⟨s, hs, htest⟩ := exists_of_returns (p := fun s : Server => !s.terminated &&
      s.tiles.tileLive 1 && decide (s.disp.tileView 1 = some 0) &&
      decide (s.views.viewWorkspace 0 ≠ some (s.tiles.tileWorkspace 1)))
    (m := run step Server.init
      [.outputNew "HDMI-A-1" ⟨0, 0, 8, 6, by decide, by decide⟩ none,
        .command (.workspaces ⟨2, by decide, by decide⟩), .viewNew ⟨false, false, false, 0⟩,
        .viewNew ⟨false, false, false, 0⟩, .viewMap 0 0 0, .viewMap 1 0 0,
        .command (.switchWorkspace 1), .command (.cycleViews false 1)]) (by decide +kernel)
  simp only [Bool.and_eq_true, Bool.not_eq_true', decide_eq_true_eq] at htest
  obtain ⟨⟨⟨hrun, hlive⟩, hview⟩, hws⟩ := htest
  have hfiled := h s (Steps.of_run hs fun _ _ _ => trivial) hrun
  exact hws (hfiled.shown 1 0 ⟨hlive, hview⟩).1.workspace

/-- **No mapped view is lost**: it is in one list, which is that of a workspace of a
connected output. -/
theorem view_placed (h : Steps step (fun s i => s.KeepsFocus i ∧ s.KeepsHome i) Server.init s)
    (hrun : s.terminated = false) {v : ViewPtr} (hv : s.views.viewMapped v = true) :
    ∃ o ∈ s.outs.outputs, ∃ i w l, i < s.outs.nws ∧ s.outs.wsAt o i = .ok w ∧
      s.views.viewWorkspace v = some w ∧ s.views.ListIs (s.views.managed v) w l ∧ v ∈ l ∧
      ∀ managed w' l', s.views.ListIs managed w' l' → v ∈ l' →
        managed = s.views.managed v ∧ w' = w := by
  have hreach : Reachable s := h.mono fun _ _ _ => trivial
  obtain ⟨-, hfiled⟩ := filed_of_steps h hrun
  obtain ⟨w, hvw, hw⟩ := hfiled.home v hv nofun
  obtain ⟨o, ho, i, hi, hwsAt⟩ := hreach.placed hw
  obtain ⟨L, hL, hmem⟩ := hfiled.lists
  have hin : v ∈ L (s.views.managed v) w := (hmem _ w v hw).mpr ⟨⟨hv, rfl, hvw⟩, nofun⟩
  refine ⟨o, ho, i, w, _, hi, hwsAt, hvw, hL _ w hw, hin, fun managed w' l' hl' hin' => ?_⟩
  by_contra hne
  exact (hL _ w hw).notMem hl' hne hin hin'

theorem view_placed_mapped : ∃ s, Steps step (fun s i => s.KeepsFocus i ∧ s.KeepsHome i)
    Server.init s ∧ s.terminated = false ∧ s.views.viewMapped 0 = true ∧
    ∃ o ∈ s.outs.outputs, ∃ i w l, i < s.outs.nws ∧ s.outs.wsAt o i = .ok w ∧
      s.views.viewWorkspace 0 = some w ∧ s.views.ListIs (s.views.managed 0) w l ∧ 0 ∈ l ∧
      ∀ managed w' l', s.views.ListIs managed w' l' → 0 ∈ l' →
        managed = s.views.managed 0 ∧ w' = w := by
  obtain ⟨s, hsteps, hrun, -, hmapped⟩ := exists_filed
  exact ⟨s, hsteps, hrun, hmapped, view_placed hsteps hrun hmapped⟩

end Cagebreak
