/-
The tile below the cursor.

`process_cursor_motion` takes the first tile whose box or edge the cursor is at,
beginning with the focused one.  Where two tiles meet it therefore depends on the
focus.

* `motion_gives` — which tile it takes, and when it tells of it;
* `followsCursor_iff` — the focus does not matter exactly where a single tile is
  at the cursor.
-/
import Cagebreak.TileRuns
import Mathlib.Data.Rat.Floor

namespace Cagebreak

open Exec

namespace Tiles

variable {T : Tiles} {x y : ℚ} {t : TilePtr}

/-- The position is in the box of a tile or on its edge: the test of
`process_cursor_motion`. -/
def Touches (T : Tiles) (x y : ℚ) (t : TilePtr) : Prop :=
  ((T.tileBox t).x : ℚ) ≤ x ∧ ((T.tileBox t).y : ℚ) ≤ y ∧
    x ≤ ((T.tileBox t).x + (T.tileBox t).width : ℤ) ∧
    y ≤ ((T.tileBox t).y + (T.tileBox t).height : ℤ)

instance : Decidable (T.Touches x y t) := inferInstanceAs (Decidable (_ ∧ _ ∧ _ ∧ _))

/-- The position is on a pixel of a tile. -/
def Contains (T : Tiles) (x y : ℚ) (t : TilePtr) : Prop := (T.tileBox t).Covers (⌊x⌋, ⌊y⌋)

theorem Contains.touches (h : T.Contains x y t) : T.Touches x y t := by
  obtain ⟨h1, h2, h3, h4⟩ := h
  refine ⟨Int.le_floor.mp h1, Int.le_floor.mp h3, ?_, ?_⟩
  · exact (Int.floor_lt.mp h2).le
  · exact (Int.floor_lt.mp h4).le

/-- The search begins with the focused tile. -/
theorem findTile_focused {w : WsPtr} {p : TilePtr → Exec Bool} (hf : T.focusedTile w = .ok t)
    (hlive : T.tileLive t = true) (hp : p t = .ok true) : T.findTile w p = .ok (some t) := by
  rw [findTile, hf, ok_bind]
  dsimp only
  rw [deref_eq_ok.mpr hlive, ok_bind, hp]
  rfl

end Tiles

namespace Server

variable {s s' : Server} {o : OutPtr} {w : WsPtr} {f t : TilePtr} {X Y : ℚ}

/-- `wlr_output_layout_output_coords`. -/
def offsetX (s : Server) (o : OutPtr) (X : ℚ) : ℚ := X - (s.outs.outBox o).x

def offsetY (s : Server) (o : OutPtr) (Y : ℚ) : ℚ := Y - (s.outs.outBox o).y

/-- The cursor is at `(X, Y)` in the layout, over the output `o`. -/
def withCursor (s : Server) (o : OutPtr) (X Y : ℚ) : Server :=
  { s with cursorAt := some (o, s.offsetX o X, s.offsetY o Y) }

/-- The same state, but for the tile of `w` that is focused. -/
def withFocus (s : Server) (w : WsPtr) (f : TilePtr) : Server :=
  { s with tiles.wsFocused := Function.update s.tiles.wsFocused w (some f) }

/-- `process_cursor_motion` while the tile `f` of `w` is focused. -/
def motion (s : Server) (o : OutPtr) (w : WsPtr) (X Y : ℚ) (f : TilePtr) : Exec Server :=
  ((s.withFocus w f).withCursor o X Y).processCursorMotion

/-- The cursor is over the output `o`, the tiles of whose current workspace `w`
partition its box. -/
structure CursorOver (s : Server) (o : OutPtr) (w : WsPtr) (X Y : ℚ) : Prop where
  layout : WellFormed False s
  output : o ∈ s.outs.outputs
  workspace : s.outs.wsAt o (s.outs.outCurr o) = .ok w
  tiling : Tiling (s.outs.outBox o).frame (s.tiles.tilesOf w) s.tiles.tileBox
  insideX : ((s.outs.outBox o).x : ℚ) ≤ X ∧ X < ((s.outs.outBox o).x + (s.outs.outBox o).width : ℤ)
  insideY : ((s.outs.outBox o).y : ℚ) ≤ Y ∧
    Y < ((s.outs.outBox o).y + (s.outs.outBox o).height : ℤ)
  cursorTile : ∀ c, s.cursorTile = some c →
    s.outs.outLive (s.tiles.wsOutput (s.tiles.tileWorkspace c)) = true

/-- The tile of `w` at the cursor. -/
def AtCursor (s : Server) (o : OutPtr) (w : WsPtr) (X Y : ℚ) (t : TilePtr) : Prop :=
  t ∈ s.tiles.tilesOf w ∧ s.tiles.Touches (s.offsetX o X) (s.offsetY o Y) t

/-- One tile contains the cursor, and whichever tile is focused, it becomes the
cursor tile, without an event unless it was another one before. -/
def FollowsCursor (s : Server) (o : OutPtr) (w : WsPtr) (X Y : ℚ) : Prop :=
  ∃ t ∈ s.tiles.tilesOf w, s.tiles.Contains (s.offsetX o X) (s.offsetY o Y) t ∧
    ∀ f ∈ s.tiles.tilesOf w, Gives (s.motion o w X Y f) fun s' => s'.cursorTile = some t ∧
      (s'.events = s.events ↔ s.cursorTile = none ∨ s.cursorTile = some t)

theorem CursorOver.exists_contains (h : s.CursorOver o w X Y) :
    ∃ t ∈ s.tiles.tilesOf w, s.tiles.Contains (s.offsetX o X) (s.offsetY o Y) t := by
  refine h.tiling.cover _ ⟨?_, ?_, ?_, ?_⟩
  · show (0 : ℤ) ≤ ⌊s.offsetX o X⌋
    rw [Int.le_floor, offsetX]
    simpa using h.insideX.1
  · show ⌊s.offsetX o X⌋ < 0 + (s.outs.outBox o).width
    have := h.insideX.2
    rw [Int.floor_lt, offsetX]
    push_cast at this ⊢
    linarith
  · show (0 : ℤ) ≤ ⌊s.offsetY o Y⌋
    rw [Int.le_floor, offsetY]
    simpa using h.insideY.1
  · show ⌊s.offsetY o Y⌋ < 0 + (s.outs.outBox o).height
    have := h.insideY.2
    rw [Int.floor_lt, offsetY]
    push_cast at this ⊢
    linarith

/-- The output of the tile that the cursor was at before is there. -/
theorem CursorOver.outputOfTile {c : TilePtr} (h : s.CursorOver o w X Y)
    (hc : s.cursorTile = some c) :
    s.outputOfTile c = .ok (s.tiles.wsOutput (s.tiles.tileWorkspace c)) := by
  have hlive := h.layout.cursor c hc
  have hw := (h.layout.tiles.tile_ws c hlive).1
  rw [Server.outputOfTile, deref_eq_ok.mpr hlive, ok_bind, deref_eq_ok.mpr hw, ok_bind]
  dsimp only
  rw [deref_eq_ok.mpr (h.cursorTile c hc), ok_bind]

/-- **`process_cursor_motion`** takes a tile at the cursor, the focused one if it
is there, and tells of it if the cursor was at another tile before. -/
theorem motion_gives (h : s.CursorOver o w X Y) (hf : f ∈ s.tiles.tilesOf w) :
    Gives (s.motion o w X Y f) fun s' => ∃ t, s.AtCursor o w X Y t ∧ s'.cursorTile = some t ∧
      (s.AtCursor o w X Y f → t = f) ∧
      (s'.events = s.events ↔ s.cursorTile = none ∨ s.cursorTile = some t) := by
  have hT := h.layout.tiles.focus hf
  set T : Tiles := { s.tiles with
    wsFocused := Function.update s.tiles.wsFocused w (some f) } with hTdef
  have hget := getElem?_of_wsAt h.workspace
  have hcurr : s.outs.outCurr o < s.outs.nws := by
    rw [← h.layout.outs.len o h.output]
    exact (List.getElem?_eq_some_iff.mp hget).1
  have hw := h.layout.outs.wsLive o h.output _ w hcurr hget
  have hfocus : T.focusedTile w = .ok f := by
    rw [Tiles.focusedTile, deref_eq_ok.mpr hw, ok_bind, nonNull_eq_ok]
    exact Function.update_self ..
  obtain ⟨found, hfound, hsome, hnone⟩ := hT.findTile hw
    (q := fun t => decide (s.tiles.Touches (s.offsetX o X) (s.offsetY o Y) t)) fun _ _ => rfl
  cases found with
  | none =>
    -- the tiles leave no gap
    obtain ⟨t, ht, hcontains⟩ := h.exists_contains
    exact absurd hcontains.touches (by simpa using hnone rfl t ht)
  | some t =>
    obtain ⟨ht, htouch⟩ := hsome t rfl
    refine Gives.deref (decide_eq_true h.output) ?_
    show Gives (s.outs.wsAt o (s.outs.outCurr o) >>= _) _
    rw [h.workspace, ok_bind]
    show Gives (T.focusedTile w >>= _) _
    rw [hfocus, ok_bind]
    refine Gives.bind (P := fun r => r = some t) ⟨some t, hfound, rfl⟩ ?_
    rintro _ rfl
    refine Gives.bind (P := fun s₁ => s₁.events = s.events ↔
      s.cursorTile = none ∨ s.cursorTile = some t) ?_ fun s₁ h₁ =>
        Gives.ok ⟨t, ⟨ht, of_decide_eq_true htouch⟩, rfl, fun hat => ?_, h₁⟩
    · refine Gives.ifSome (fun hc => iff_of_true rfl (.inl hc)) fun c hc => ?_
      have hc : s.cursorTile = some c := hc
      have hct : s.cursorTile = some t ↔ c = t := by rw [hc, Option.some_inj]
      refine Gives.ite (fun heq => Gives.ok (iff_of_true rfl (.inr (hct.mpr heq)))) fun hne => ?_
      show Gives (s.outputOfTile c >>= _) _
      rw [h.outputOfTile hc, ok_bind]
      refine Gives.ok (iff_of_false (by simp [emit, withCursor, withFocus]) ?_)
      rintro (hnone | hsome)
      · exact absurd (hc.symm.trans hnone) (Option.some_ne_none c)
      · exact hne (hct.mp hsome)
    -- the search begins with the focused tile
    · have hfirst := Tiles.findTile_focused (p := fun t =>
        .ok (decide (s.tiles.Touches (s.offsetX o X) (s.offsetY o Y) t))) hfocus hf.1
        (by rw [decide_eq_true hat.2])
      exact Option.some.inj (Except.ok.inj (hfound.symm.trans hfirst))

/-- A tile at the cursor is taken when it is focused. -/
theorem FollowsCursor.unique (h : s.CursorOver o w X Y) (hfollows : s.FollowsCursor o w X Y)
    {t' : TilePtr} (ht : s.AtCursor o w X Y t) (ht' : s.AtCursor o w X Y t') : t = t' := by
  obtain ⟨u, -, -, hall⟩ := hfollows
  have key : ∀ t, s.AtCursor o w X Y t → t = u := by
    intro t ht
    obtain ⟨s', hs', v, -, hv, hvt, -⟩ := motion_gives h ht.1
    obtain ⟨s₁, hs₁, hu, -⟩ := hall t ht.1
    obtain rfl := Except.ok.inj (hs'.symm.trans hs₁)
    rw [← hvt ht]
    exact Option.some.inj (hv.symm.trans hu)
  rw [key t ht, key t' ht']

/-- **The tile below the cursor** does not depend on the focus exactly where the
cursor is at a single tile.  Everywhere a tile at the cursor is taken. -/
theorem followsCursor_iff (h : s.CursorOver o w X Y) :
    (∀ f ∈ s.tiles.tilesOf w, Gives (s.motion o w X Y f) fun s' =>
      ∃ t, s.AtCursor o w X Y t ∧ s'.cursorTile = some t) ∧
    (s.FollowsCursor o w X Y ↔
      ∀ t t', s.AtCursor o w X Y t → s.AtCursor o w X Y t' → t = t') := by
  refine ⟨fun f hf => ?_, fun hfollows t t' ht ht' => hfollows.unique h ht ht', ?_⟩
  · refine (motion_gives h hf).mono ?_
    rintro s' ⟨t, ht, hs', -⟩
    exact ⟨t, ht, hs'⟩
  · intro hunique
    obtain ⟨t, ht, hcontains⟩ := h.exists_contains
    refine ⟨t, ht, hcontains, fun f hf => (motion_gives h hf).mono ?_⟩
    rintro s' ⟨v, hv, hs', -, hevents⟩
    obtain rfl := hunique v t hv ⟨ht, hcontains.touches⟩
    exact ⟨hs', hevents⟩

end Server

/-- An output with two tiles side by side. -/
def halves : List Input := [.outputNew "HDMI-A-1" tenByTen none, .command (.splitVertical half)]

theorem exists_halves : ∃ s, Reachable s ∧ (∀ X Y : ℚ, (0 ≤ X ∧ X < 10) → (0 ≤ Y ∧ Y < 10) →
      s.CursorOver 0 0 X Y) ∧ s.outs.outBox 0 = tenByTen ∧
    (∀ t, t ∈ s.tiles.tilesOf 0 ↔ t = 0 ∨ t = 1) ∧
    s.tiles.tileBox 0 = ⟨0, 0, 5, 10⟩ ∧ s.tiles.tileBox 1 = ⟨5, 0, 5, 10⟩ := by
  obtain ⟨s, hs, hp⟩ := exists_of_returns (p := fun s : Server =>
    decide (s.outs.outputs = [0] ∧ s.outs.wsAt 0 (s.outs.outCurr 0) = .ok 0 ∧
      s.outs.outBox 0 = tenByTen ∧ s.cursorTile = none) &&
    decide (s.tiles.wsFrame 0 = ⟨0, 0, 10, 10⟩ ∧ s.tiles.tileTop = 2 ∧
      (∀ t ∈ ([0, 1] : List TilePtr), s.tiles.tileLive t = true ∧ s.tiles.tileWorkspace t = 0) ∧
      s.tiles.tileBox 0 = ⟨0, 0, 5, 10⟩ ∧ s.tiles.tileBox 1 = ⟨5, 0, 5, 10⟩))
    (m := run step Server.init halves) (by decide)
  obtain ⟨houts, htiles⟩ := Bool.and_eq_true_iff.mp hp
  obtain ⟨houtputs, hws, hbox, hcursor⟩ := of_decide_eq_true houts
  obtain ⟨hframe, htop, htiles, h0, h1⟩ := of_decide_eq_true htiles
  have hr : Reachable s := Steps.of_run hs (by simp)
  have hpart : s.Partitioned :=
    tilesPartition (Steps.of_run hs (by simp [halves, Input.resizes, Action.resizes]))
  obtain ⟨hlive, hzero⟩ := htiles 0 (by simp)
  obtain ⟨b, hb, htiling⟩ := hpart 0 (hzero ▸ (hr.wellFormed.tiles.tile_ws 0 hlive).1)
  rw [← hb, hframe] at htiling
  refine ⟨s, hr, fun X Y hX hY => ?_, hbox, fun t => ?_, h0, h1⟩
  · refine ⟨hr.wellFormed, by simp [houtputs], hws, ?_, ?_, ?_, by simp [hcursor]⟩
    · rw [hbox]
      exact htiling
    · simpa [hbox, tenByTen] using hX
    · simpa [hbox, tenByTen] using hY
  · refine ⟨fun ht => ?_, fun ht => htiles t (by simpa using ht)⟩
    have hlt : (t : ℕ) < 2 := htop ▸ hr.wellFormed.tiles.tile_lt t ht.1
    exact Nat.le_one_iff_eq_zero_or_eq_one.mp (Nat.lt_succ_iff.mp hlt)

/-- At the edge between them, the focused tile becomes the cursor tile. -/
theorem followsCursor_edge : ¬ ∀ (s : Server) (o : OutPtr) (w : WsPtr) (X Y : ℚ), Reachable s →
    s.CursorOver o w X Y → s.FollowsCursor o w X Y := by
  intro hall
  obtain ⟨s, hr, hover, hbox, hmem, h0, h1⟩ := exists_halves
  have hX : (0 : ℚ) ≤ 5 ∧ (5 : ℚ) < 10 := by norm_num
  have hY : (0 : ℚ) ≤ 3 ∧ (3 : ℚ) < 10 := by norm_num
  have hover' := hover 5 3 hX hY
  have hfollows := hall s 0 0 5 3 hr hover'
  have hat : ∀ t, t = 0 ∨ t = 1 → s.AtCursor 0 0 5 3 t := by
    rintro t (rfl | rfl)
    · refine ⟨(hmem 0).mpr (.inl rfl), ?_⟩
      simp [Tiles.Touches, Server.offsetX, Server.offsetY, hbox, h0, tenByTen]
      norm_num
    · refine ⟨(hmem 1).mpr (.inr rfl), ?_⟩
      simp [Tiles.Touches, Server.offsetX, Server.offsetY, hbox, h1, tenByTen]
      norm_num
  exact absurd (hfollows.unique hover' (hat 0 (.inl rfl)) (hat 1 (.inr rfl))) (by decide)

/-- The cursor in the left tile. -/
theorem followsCursor_left : ∃ s, Reachable s ∧ s.CursorOver 0 0 2 3 ∧
    (∀ f ∈ s.tiles.tilesOf 0, Gives (s.motion 0 0 2 3 f) fun s' =>
      ∃ t, s.AtCursor 0 0 2 3 t ∧ s'.cursorTile = some t) ∧
    (s.FollowsCursor 0 0 2 3 ↔ ∀ t t', s.AtCursor 0 0 2 3 t → s.AtCursor 0 0 2 3 t' → t = t') := by
  obtain ⟨s, hr, hover, -⟩ := exists_halves
  have h := hover 2 3 (by norm_num) (by norm_num)
  exact ⟨s, hr, h, Server.followsCursor_iff h⟩

end Cagebreak
