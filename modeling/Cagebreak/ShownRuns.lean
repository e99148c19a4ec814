/-
Tiles and the views they show in every run.

`KeepsShown` says of an input what its lemma asks for, so that a run keeps lists and
tiles in order as long as each of its inputs does.

* `sound_of_steps` — the view a tile shows points back at the tile, and no other tile
  shows it;
* `viewFits_tile` — it has the position and the size of the tile;
* `nodeEnabled_iff` — its node is enabled, and the nodes of the other views are not.

The last two fail in some run whose inputs do not do that.
-/
import Cagebreak.ShownViews
import Cagebreak.TileRuns

namespace Cagebreak

open Exec

namespace Server

variable {s s' : Server} {t : TilePtr} {v : ViewPtr} {fit lit : Prop} {a : Action} {i : Input}

/-! ### What an input does to the views that are shown -/

/-- The view id and the focused tile of a workspace of the current output. -/
def workspaceTarget (s : Server) (viewId ws : ℕ) : Exec (Option (ℕ × ℕ)) :=
  if s.outs.nws ≤ ws then .ok none
  else do
    let o ← s.outs.curOut
    let w ← s.outs.wsAt o ws
    let f ← s.tiles.focusedTile w
    .ok (some (viewId, s.tiles.tileId f))

/-- The view id and the focused tile of an output. -/
def outputTarget (s : Server) (viewId output : ℕ) : Exec (Option (ℕ × ℕ)) :=
  ifSome (s.outs.outputFromNum output) none fun o => do
    let w ← s.outs.wsAt o (s.outs.outCurr o)
    let f ← s.tiles.focusedTile w
    .ok (some (viewId, s.tiles.tileId f))

/-- The view id and the tile id that a command which moves a view passes on to
`keybinding_move_view_to_tile`. -/
def moveTarget (s : Server) : Action → Exec (Option (ℕ × ℕ))
  | .moveToTile tileId _ => do
    let id ← s.focusedViewId
    .ok (some (id, tileId))
  | .moveToWorkspace ws _ => do
    let id ← s.focusedViewId
    s.workspaceTarget id ws
  | .moveToOutput output _ => do
    let id ← s.focusedViewId
    s.outputTarget id output
  | .moveViewToTile viewId tileId _ => .ok (some (viewId, tileId))
  | .moveViewToWorkspace viewId ws _ => s.workspaceTarget viewId ws
  | .moveViewToOutput viewId output _ => s.outputTarget viewId output
  | _ => .ok none

/-- The command shows no view twice, if `fit` holds draws every view that it shows in
the box of its tile, and if `lit` holds takes no view out of a tile without
disabling it. -/
def CommandKeepsShown (fit lit : Prop) (s : Server) : Action → Prop
  | .splitHorizontal percentage => SplitsFocused (fun _ => fit) s false percentage
  | .splitVertical percentage => SplitsFocused (fun _ => fit) s true percentage
  | .layoutFullscreen screen workspace => ∀ cur o, s.outs.currOutput = some cur →
    (if screen ≠ 0 then s.outs.outputFromNum screen else some cur) = some o →
    let ws := if screen ≠ 0 then workspace else s.outs.outCurr cur
    s.outs.nws ≤ ws ∨ MakesFullscreen (fun _ => lit) s o ws
  | .workspaces nws => lit → ∀ o ∈ s.outs.outputs, ∀ (i w : ℕ) t v, nws ≤ i →
    s.outs.wsAt o i = .ok w → s.Shows t v → s.tiles.tileWorkspace t ≠ w
  | a => ∀ viewId tileId view t, s.moveTarget a = .ok (some (viewId, tileId)) →
    s.viewFromId viewId = .ok view → s.tileFromId tileId = .ok (some t) →
    Receives (fun _ => lit) s t view

/-- What an input keeps in order, `CommandKeepsShown` for a command.  A view that is
unmapped or goes away with its output is shown where its list says. -/
def KeepsShown (fit lit : Prop) (s : Server) : Input → Prop
  | .command a => s.CommandKeepsShown fit lit a
  | .outputDestroy o _ => Detached (s.Owns o) s
  | .viewUnmap v kb | .viewDestroy v kb => s.views.viewMapped v = true → s.Withdraws v kb
  | _ => True

theorem runAction_sound (hwf : WellFormed False s) (hvi : s.ViewsInv)
    (h : s.Sound (fun _ => fit) fun _ => lit) (ha : s.CommandKeepsShown fit lit a) :
    Ensures (s.runAction a) fun s' => s'.Sound (fun _ => fit) fun _ => lit := by
  have hmove : ∀ (viewId tileId : ℕ) (follow : Bool),
      (∀ view t, s.viewFromId viewId = .ok view → s.tileFromId tileId = .ok (some t) →
        Receives (fun _ => lit) s t view) →
      Ensures (s.keybindingMoveViewToTile viewId tileId follow) fun s' =>
        s'.Sound (fun _ => fit) fun _ => lit :=
    fun _ _ _ hrec => keybindingMoveViewToTile_sound hwf hvi h hrec
  -- a move to a workspace or an output is one to the focused tile there
  have hworkspace : ∀ (viewId ws : ℕ) (follow : Bool),
      (∀ tileId view t, s.workspaceTarget viewId ws = .ok (some (viewId, tileId)) →
        s.viewFromId viewId = .ok view → s.tileFromId tileId = .ok (some t) →
        Receives (fun _ => lit) s t view) →
      Ensures (s.keybindingMoveViewToWorkspace viewId ws follow) fun s' =>
        s'.Sound (fun _ => fit) fun _ => lit := by
    intro viewId ws follow hrec
    refine Ensures.ite (fun _ => Ensures.ok h) fun hws => Ensures.bind_any fun o ho =>
      Ensures.bind_any fun w hw => Ensures.bind_any fun f hf => hmove _ _ _ (hrec _ · · ?_)
    rw [workspaceTarget, if_neg hws, ho, ok_bind, hw, ok_bind, hf, ok_bind]
  have houtput : ∀ (viewId output : ℕ) (follow : Bool),
      (∀ tileId view t, s.outputTarget viewId output = .ok (some (viewId, tileId)) →
        s.viewFromId viewId = .ok view → s.tileFromId tileId = .ok (some t) →
        Receives (fun _ => lit) s t view) →
      Ensures (s.keybindingMoveViewToOutput viewId output follow) fun s' =>
        s'.Sound (fun _ => fit) fun _ => lit := by
    intro viewId output follow hrec
    refine Ensures.ifSome (fun _ => h) fun o ho => Ensures.bind_any fun w hw =>
      Ensures.bind_any fun f hf => hmove _ _ _ (hrec _ · · ?_)
    rw [outputTarget, ho, ifSome_some, hw, ok_bind, hf, ok_bind]
  cases a with
  | layoutFullscreen screen workspace =>
    refine Ensures.bind_any fun cur hcur => Ensures.ifSome (fun _ => h) fun o ho =>
      Ensures.ite (fun _ => Ensures.ok h) fun _ => ?_
    refine Ensures.bind (outputMakeWorkspaceFullscreen_sound hwf h
      (ha cur o (nonNull_eq_ok.mp hcur) ho)) fun s₁ h₁ => ?_
    exact Ensures.bind_any fun _ _ => Ensures.bind_any fun _ _ => Ensures.ok (emit_stays h₁).sound
  | splitHorizontal percentage =>
    exact Ensures.bind_any fun o ho => keybindingSplitOutput_sound hwf h (nonNull_eq_ok.mp ho) ha
  | splitVertical percentage =>
    exact Ensures.bind_any fun o ho => keybindingSplitOutput_sound hwf h (nonNull_eq_ok.mp ho) ha
  | cycleViews => exact (keybindingCycleViews_stays h).mono fun _ h₁ => h₁.1.sound
  | cycleTiles =>
    exact Ensures.ite (fun _ => keybindingCycleTiles_sound hwf h)
      fun _ => keybindingFocusTile_keepsSound hwf h
  | cycleOutput => exact (keybindingCycleOutputs_refocused h).mono fun _ h₁ => h₁.sound
  | switchWorkspace => exact (keybindingSwitchWs_refocused h).mono fun _ h₁ => h₁.sound
  | switchOutput => exact (keybindingSwitchOutput_refocused h).mono fun _ h₁ => h₁.sound
  | resizeTileHorizontal => exact resizeTile_sound h
  | resizeTileVertical => exact resizeTile_sound h
  | moveToTile tileId follow =>
    refine Ensures.bind_any fun id hid => hmove _ _ _ (ha _ _ · · ?_)
    rw [moveTarget, hid, ok_bind]
  | moveToWorkspace ws follow =>
    refine Ensures.bind_any fun id hid => hworkspace _ _ _ fun tileId view t ht =>
      ha _ _ view t ?_
    rw [moveTarget, hid, ok_bind, ht]
  | moveToOutput output follow =>
    refine Ensures.bind_any fun id hid => houtput _ _ _ fun tileId view t ht =>
      ha _ _ view t ?_
    rw [moveTarget, hid, ok_bind, ht]
  | moveViewToTile viewId tileId follow => exact hmove _ _ _ (ha _ _ · · rfl)
  | moveViewToWorkspace viewId ws follow => exact hworkspace _ _ _ (ha _)
  | moveViewToOutput viewId output follow => exact houtput _ _ _ (ha _)
  | merge =>
    exact Ensures.bind_any fun _ _ => Ensures.ifSome (fun _ => h) fun _ _ => mergeTile_sound h
  | swapDir => exact swapTile_sound hwf h
  | swap => exact Ensures.bind_any fun _ _ => Ensures.bind_any fun _ _ => swapTiles_sound hwf h
  | focus => exact Ensures.bind_any fun _ hf => focusTile_sound hwf h hf
  | moveViewToCycleOutput => exact keybindingMoveViewToCycleOutput_sound hwf h
  | workspaces nws =>
    exact keybindingSetNws_sound hwf h fun o ho i w t v hi hw hlit => ha hlit o ho i w t v hi hw

/-- **Every such input** keeps lists and tiles in order. -/
theorem step_sound (hwf : WellFormed False s) (hvi : s.ViewsInv)
    (h : s.Sound (fun _ => fit) fun _ => lit) (hi : s.KeepsShown fit lit i) :
    Ensures (step s i) fun s' => s'.Sound (fun _ => fit) fun _ => lit := by
  refine Ensures.ite (fun _ => Ensures.ok h) fun _ => ?_
  cases i with
  | command a => exact runAction_sound hwf hvi h hi
  | outputNew name box cursor =>
    exact handleNewOutput_sound (hwf.setCursorAt cursor) (h.congr rfl rfl rfl rfl)
  | outputDestroy o cursor =>
    refine Ensures.deref fun ho => outputDestroy_sound (hwf.setCursorAt cursor)
      (h.congr rfl rfl rfl rfl) (of_decide_eq_true ho) ?_
    exact ⟨hi.heads, hi.shown⟩
  | layoutChange o box => exact Ensures.ok (h.congr rfl rfl rfl rfl)
  | cursorMotion cursor =>
    refine processCursorMotion_spec.mono ?_
    rintro s' ⟨c, e, rfl, -⟩
    exact h.congr rfl rfl rfl rfl
  | viewNew attrs => exact viewInit_sound hvi h
  | viewMap v x y => exact Ensures.deref fun hv => viewMap_sound h (by simpa using hv)
  | viewUnmap v kb => exact Ensures.deref fun _ => viewUnmap_sound hvi h hi
  | viewDestroy v kb => exact viewDestroy_sound hvi h hi

theorem Sound.init {fit lit : ViewPtr → Prop} : Server.init.Sound fit lit := by
  have hnone : ∀ t v, ¬ Server.init.Shows t v := nofun
  refine ⟨⟨fun a b => ⟨nofun, nofun⟩, fun n _ => ⟨rfl, rfl⟩⟩, fun t v hv => absurd hv (hnone t v),
    fun t v hv => absurd hv (hnone t v), nofun, fun t v _ hv => absurd hv (hnone t v), nofun⟩

end Server

open Server

variable {s s' : Server}

/-- The lists, the layout and the tiles after any run of such inputs. -/
theorem sound_of_steps {fit lit : Prop}
    (h : Steps step (fun s i => s.KeepsShown fit lit i) Server.init s) :
    WellFormed False s ∧ s.ViewsInv ∧ s.Sound (fun _ => fit) fun _ => lit :=
  h.invariant (I := fun s => WellFormed False s ∧ s.ViewsInv ∧ s.Sound (fun _ => fit) fun _ => lit)
    ⟨.init, .init, .init⟩ fun _ _ ⟨hwf, hvi, hs⟩ hi =>
      (step_wellFormed (fun _ => rfl) hwf).and ((step_viewsInv hvi).and (step_sound hwf hvi hs hi))

/-- A view on each of two outputs.  The two are exchanged, and exchanged again. -/
def exchanges : List Input :=
  [.outputNew "HDMI-A-1" eightBySix none,
    .outputNew "HDMI-A-2" besideEightBySix none,
    .viewNew ⟨false, false, false, 0⟩, .viewNew ⟨false, false, false, 0⟩, .viewMap 0 0 0,
    .command (.cycleOutput false), .viewMap 1 0 0, .command (.swap 1 2 true),
    .command (.swap 1 2 false)]

theorem exists_shown {ok : Server → Input → Prop} (hok : ∀ i ∈ exchanges, ∀ s, ok s i) :
    ∃ s, Steps step ok Server.init s ∧ s.Shows 0 0 ∧ s.views.viewLive 0 = true ∧
      s.views.managed 0 = true ∧ s.views.viewMapped 0 = true := by
  obtain ⟨s, hs, h⟩ := exists_of_returns (p := fun s : Server => s.tiles.tileLive 0 &&
      decide (s.disp.tileView 0 = some 0) && s.views.viewLive 0 && s.views.managed 0 &&
      s.views.viewMapped 0)
    (m := run step Server.init exchanges) (by decide +kernel)
  simp only [Bool.and_eq_true, decide_eq_true_eq] at h
  obtain ⟨⟨⟨⟨hlive, hview⟩, hview'⟩, hmanaged⟩, hmapped⟩ := h
  exact ⟨s, Steps.of_run hs hok, ⟨hlive, hview⟩, hview', hmanaged, hmapped⟩

theorem keepsShown_exchanges {fit lit : Prop} :
    ∀ i ∈ exchanges, ∀ s : Server, s.KeepsShown fit lit i := by
  simp [exchanges, KeepsShown, CommandKeepsShown, moveTarget]

/-! ### Pointers between tiles and views -/

/-- Tiles and the views they show point at each other, and what `view_is_visible`
answers, if it does, is whether some tile shows the view. -/
structure Server.PointersAgree (s : Server) : Prop where
  tile : ∀ t v, s.Shows t v → s.disp.viewTile v = some t
  once : ∀ t t' v, s.Shows t v → s.Shows t' v → t = t'
  visible : ∀ v b, s.views.managed v = true → s.viewIsVisible v = .ok b →
    (b = true ↔ ∃ t, s.Shows t v)

/-- If the views that are shown point back at their tiles, all pointers agree. -/
theorem Server.PointersAgree.of_tile (h : ∀ t v, s.Shows t v → s.disp.viewTile v = some t) :
    s.PointersAgree := by
  refine ⟨h, fun t t' v hv hv' => ?_, fun v b hm hb => ?_⟩
  · exact Option.some.inj ((h t v hv).symm.trans (h t' v hv'))
  · obtain ⟨_, hlive, hb⟩ := bind_eq_ok.mp hb
    rw [if_pos hm] at hb
    obtain ⟨found, hfound, hsome⟩ := bind_eq_ok.mp hb
    obtain rfl := Except.ok.inj hsome
    rw [Option.isSome_iff_exists]
    constructor
    · rintro ⟨t, rfl⟩
      exact ⟨t, (viewGetTile_shows _ hfound).2 t rfl⟩
    · rintro ⟨t, ht⟩
      refine ⟨t, ?_⟩
      rw [viewGetTile, hlive, ok_bind, h t v ht, ifSome_some, deref_eq_ok.mpr ht.1, ok_bind,
        if_pos ht.2] at hfound
      exact (Except.ok.inj hfound).symm

theorem Server.Sound.pointersAgree {fit lit : ViewPtr → Prop} (h : s.Sound fit lit) :
    s.PointersAgree :=
  .of_tile h.settled.tile

/-- `PointersAgree`, decided for a well formed layout. -/
def Server.pointBack (s : Server) : Bool :=
  (List.range s.tiles.tileTop).all fun t => !s.tiles.tileLive t ||
    (s.disp.tileView t).all fun v => s.disp.viewTile v == some t

theorem WellFormed.pointersAgree (h : WellFormed False s) (hs : s.pointBack = true) :
    s.PointersAgree := by
  refine .of_tile fun t v hv => ?_
  simp only [pointBack, List.all_eq_true, List.mem_range, Bool.or_eq_true, Bool.not_eq_true',
    Option.all_eq_true, beq_iff_eq] at hs
  exact (hs t (h.tiles.tile_lt t hv.1)).resolve_left (by simp [hv.1]) v hv.2

/-! ### The geometry of views -/

/-- **Every view that is shown has the position and the size of its tile** in every
run whose inputs draw it there. -/
theorem viewFits_tile (h : Steps step (fun s i => s.KeepsShown True False i) Server.init s) :
    ∀ t v, s.Shows t v → s.Fits t v :=
  fun t v hv => (sound_of_steps h).2.2.settled.fits t v trivial hv

theorem viewFits_tile_shown : ∃ s, Steps step (fun s i => s.KeepsShown True False i)
    Server.init s ∧ s.Shows 0 0 ∧ s.Fits 0 0 := by
  obtain ⟨s, hs, hshown, -⟩ := exists_shown keepsShown_exchanges
  exact ⟨s, hs, hshown, viewFits_tile hs 0 0 hshown⟩

/-- The focused tile is merged into a tile that shows another view, and that tile is
split: the view keeps the size of the whole tile. -/
theorem viewFits_tile_stale : ¬ ∀ s, Reachable s → ∀ t v, s.Shows t v → s.Fits t v := by
  intro h
  obtain ⟨s, hs, htest⟩ := exists_of_returns (p := fun s : Server => s.tiles.tileLive 1 &&
      decide (s.disp.tileView 1 = some 0) && decide (s.scene.viewSize 0 = (8, 6)) &&
      decide ((s.tiles.tileBox 1).width = 4))
    (m := run step Server.init
      [.outputNew "HDMI-A-1" ⟨0, 0, 8, 6, by decide, by decide⟩ none,
        .viewNew ⟨false, false, false, 0⟩, .viewNew ⟨false, false, false, 0⟩, .viewMap 0 0 0,
        .viewMap 1 0 0, .command (.splitVertical half), .command (.merge .left 2),
        .command (.splitVertical half)]) (by decide +kernel)
  simp only [Bool.and_eq_true, decide_eq_true_eq] at htest
  obtain ⟨⟨⟨hlive, hview⟩, hsize⟩, hwidth⟩ := htest
  have hfits := (h s (Steps.of_run hs fun _ _ _ => trivial) 1 0 ⟨hlive, hview⟩).size
  rw [hsize, hwidth] at hfits
  exact absurd (Prod.mk.inj hfits).1 (by decide)

/-! ### Enabled nodes -/

/-- The node of a mapped view is enabled exactly if some tile shows the view. -/
def Server.NodesAgree (s : Server) : Prop := ∀ v, s.views.viewLive v = true →
  s.views.managed v = true → s.views.viewMapped v = true →
  (s.scene.nodeEnabled v = true ↔ ∃ t, s.viewGetTile v = .ok (some t))

/-- **The nodes of the views that are shown are enabled**, and no others, in every run
whose inputs disable what they take out of a tile. -/
theorem nodeEnabled_iff (h : Steps step (fun s i => s.KeepsShown False True i) Server.init s) :
    s.NodesAgree := by
  intro v hlive hm hmap
  obtain ⟨-, -, hs⟩ := sound_of_steps h
  rw [hs.settled.enabled v trivial hm hmap]
  constructor
  · rintro ⟨t, ht⟩
    exact ⟨t, hs.settled.viewGetTile hlive ht⟩
  · rintro ⟨t, ht⟩
    exact ⟨t, (viewGetTile_shows _ ht).2 t rfl⟩

theorem nodeEnabled_iff_shown : ∃ s, Steps step (fun s i => s.KeepsShown False True i)
    Server.init s ∧ s.Shows 0 0 ∧ s.NodesAgree := by
  obtain ⟨s, hs, hshown, -⟩ := exists_shown keepsShown_exchanges
  exact ⟨s, hs, hshown, nodeEnabled_iff hs⟩

/-- A view is moved to a tile that shows another one: the other one stays enabled. -/
theorem nodeEnabled_forgotten : ¬ ∀ s, Reachable s → s.NodesAgree := by
  intro h
  obtain ⟨s, hs, htest⟩ := exists_of_returns (p := fun s : Server => s.views.viewLive 0 &&
      s.views.managed 0 && s.views.viewMapped 0 && s.scene.nodeEnabled 0 &&
      decide (s.disp.viewTile 0 = some 1) && decide (s.disp.tileView 1 = some 1))
    (m := run step Server.init
      [.outputNew "HDMI-A-1" ⟨0, 0, 8, 6, by decide, by decide⟩ none,
        .viewNew ⟨false, false, false, 0⟩, .viewNew ⟨false, false, false, 0⟩, .viewMap 0 0 0,
        .viewMap 1 0 0, .command (.splitVertical half), .command (.moveToTile 2 false)])
    (by decide +kernel)
  simp only [Bool.and_eq_true, decide_eq_true_eq] at htest
  obtain ⟨⟨⟨⟨⟨hlive, hm⟩, hmap⟩, hen⟩, htile⟩, hview⟩ := htest
  obtain ⟨t, ht⟩ := (h s (Steps.of_run hs fun _ _ _ => trivial) 0 hlive hm hmap).mp hen
  obtain ⟨_, -, ht⟩ := bind_eq_ok.mp ht
  rw [htile, ifSome_some] at ht
  obtain ⟨_, -, ht⟩ := bind_eq_ok.mp ht
  rw [hview, if_neg (by decide)] at ht
  exact nomatch ht

end Cagebreak
