/-
Every command keeps the layout well formed.

`LayoutInv tiled hole len s` says of a state that its tiles satisfy
`TilesInv tiled hole`, that the cursor tile is a live tile, and that the array of
workspaces of an output `o` lists `len o` workspaces of this output in order.
`WellFormed tiled s` is the case between two commands: no workspace is without
tiles, and every output has `nws` workspaces.

* `runAction_wellFormed` — commands keep `WellFormed tiled`, unless they resize
  tiles, in which case the partition is not claimed to survive;
* `step_wellFormed` — so does every other input.
-/
import Cagebreak.Frame
import Cagebreak.TileInv
import Cagebreak.Step

namespace Cagebreak

open Exec

/-- The arrays of workspaces: `len o` of them for a connected output `o`, each
belonging to the output and numbered by its place.  The first `nws` of them
are allocated. -/
structure OutsInv (len : OutPtr → ℕ) (T : Tiles) (O : Outputs) : Prop where
  place : ∀ (o : OutPtr) (i w : ℕ), (O.outWorkspaces o)[i]? = some w →
    w < T.wsTop ∧ T.wsOutput w = o ∧ T.wsNum w = i
  nodup : O.outputs.Nodup
  out_lt : ∀ o : ℕ, o ∈ O.outputs → o < O.outTop
  len : ∀ o ∈ O.outputs, (O.outWorkspaces o).length = len o
  outLive : ∀ o ∈ O.outputs, O.outLive o = true
  wsLive : ∀ o ∈ O.outputs, ∀ (i w : ℕ), i < O.nws → (O.outWorkspaces o)[i]? = some w →
    T.wsLive w = true

/-- The layout is well formed, but for the tiles of the workspace `hole`. -/
structure LayoutInv (tiled : Prop) (hole : Option WsPtr) (len : OutPtr → ℕ) (s : Server) :
    Prop where
  tiles : s.tiles.TilesInv tiled hole
  cursor : ∀ t, s.cursorTile = some t → s.tiles.tileLive t = true
  outs : OutsInv len s.tiles s.outs

/-- The layout between two commands. -/
def WellFormed (tiled : Prop) (s : Server) : Prop :=
  LayoutInv tiled none (fun _ => s.outs.nws) s

variable {tiled : Prop} {hole : Option WsPtr} {len : OutPtr → ℕ} {s s' : Server}

theorem OutsInv.congr {T T' : Tiles} {O O' : Outputs} (h : OutsInv len T O)
    (hT : T'.wsTop = T.wsTop ∧ T'.wsLive = T.wsLive ∧ T'.wsOutput = T.wsOutput ∧
      T'.wsNum = T.wsNum)
    (hO : O'.outWorkspaces = O.outWorkspaces ∧ O'.outputs = O.outputs ∧ O'.outTop = O.outTop ∧
      O'.outLive = O.outLive ∧ O'.nws = O.nws) :
    OutsInv len T' O' := by
  obtain ⟨h1, h2, h3, h4⟩ := hT
  obtain ⟨h5, h6, h7, h8, h9⟩ := hO
  refine ⟨?_, ?_, ?_, ?_, ?_, ?_⟩
  · rw [h1, h3, h4, h5]
    exact h.place
  · rw [h6]
    exact h.nodup
  · rw [h6, h7]
    exact h.out_lt
  · rw [h5, h6]
    exact h.len
  · rw [h6, h8]
    exact h.outLive
  · rw [h2, h5, h6, h9]
    exact h.wsLive

/-- A workspace may be freed once no array needs it. -/
theorem OutsInv.freeWs {T : Tiles} {O : Outputs} {w : WsPtr} (h : OutsInv len T O)
    (hw : ∀ o ∈ O.outputs, ∀ i < O.nws, (O.outWorkspaces o)[i]? ≠ some w) :
    OutsInv len { T with wsLive := Function.update T.wsLive w false } O := by
  refine { h with wsLive := fun o ho i w' hi hw' => ?_ }
  have hne : w' ≠ w := fun e => hw o ho i hi (e ▸ hw')
  simpa [hne] using h.wsLive o ho i w' hi hw'

/-- One more workspace at the end of an array. -/
theorem OutsInv.append {T : Tiles} {O : Outputs} {o : OutPtr} {a w : ℕ}
    (h : OutsInv (Function.update len o a) T O) (ho : o ∈ O.outputs) (hw : w < T.wsTop)
    (hout : T.wsOutput w = o) (hnum : T.wsNum w = a) (hlive : T.wsLive w = true) :
    OutsInv (Function.update len o (a + 1)) T
      { O with outWorkspaces := Function.update O.outWorkspaces o (O.outWorkspaces o ++ [w]) } := by
  have hlen : (O.outWorkspaces o).length = a := by simpa using h.len o ho
  have hget : ∀ (o' : OutPtr) (i w' : ℕ),
      (Function.update O.outWorkspaces o (O.outWorkspaces o ++ [w]) o')[i]? = some w' →
      (O.outWorkspaces o')[i]? = some w' ∨ o' = o ∧ i = a ∧ w' = w := by
    intro o' i w' hw'
    by_cases e : o' = o
    · subst e
      rw [Function.update_self, List.getElem?_append, hlen] at hw'
      by_cases hi : i < a
      · exact .inl (by simpa [hi] using hw')
      · rw [if_neg hi] at hw'
        obtain ⟨h1, h2⟩ : i - a = 0 ∧ w = w' := by
          simpa [List.getElem?_eq_some_iff] using hw'
        exact .inr ⟨rfl, by omega, h2.symm⟩
    · exact .inl (by simpa [e] using hw')
  refine ⟨fun o' i w' hw' => ?_, h.nodup, h.out_lt, fun o' ho' => ?_, h.outLive,
    fun o' ho' i w' hi hw' => ?_⟩
  · rcases hget o' i w' hw' with hw' | ⟨rfl, rfl, rfl⟩
    · exact h.place o' i w' hw'
    · exact ⟨hw, hout, hnum⟩
  · by_cases e : o' = o
    · subst e
      simp [hlen]
    · simpa [e] using h.len o' ho'
  · rcases hget o' i w' hw' with hw' | ⟨rfl, rfl, rfl⟩
    · exact h.wsLive o' ho' i w' hi hw'
    · exact hlive

/-- The array of an output cut to its first `n` workspaces. -/
theorem OutsInv.take {T : Tiles} {O : Outputs} (h : OutsInv len T O) (o : OutPtr) (n : ℕ) :
    OutsInv (Function.update len o (min n (len o))) T
      { O with
        outWorkspaces := Function.update O.outWorkspaces o ((O.outWorkspaces o).take n) } := by
  have hget : ∀ (o' : OutPtr) (i w' : ℕ),
      (Function.update O.outWorkspaces o ((O.outWorkspaces o).take n) o')[i]? = some w' →
      (O.outWorkspaces o')[i]? = some w' := by
    intro o' i w' hw'
    by_cases e : o' = o
    · subst e
      rw [Function.update_self, List.getElem?_take] at hw'
      by_cases hi : i < n
      · simpa [hi] using hw'
      · simp [hi] at hw'
    · simpa [e] using hw'
  refine ⟨fun o' i w' hw' => h.place o' i w' (hget o' i w' hw'), h.nodup, h.out_lt,
    fun o' ho' => ?_, h.outLive, fun o' ho' i w' hi hw' => h.wsLive o' ho' i w' hi
      (hget o' i w' hw')⟩
  by_cases e : o' = o
  · subst e
    simp [h.len o' ho']
  · simpa [e] using h.len o' ho'

/-- What an array holds is what following `output->workspaces[i]` gives. -/
theorem getElem?_of_wsAt {O : Outputs} {o : OutPtr} {i w : ℕ} (h : O.wsAt o i = .ok w) :
    (O.outWorkspaces o)[i]? = some w := by
  obtain ⟨_, -, h⟩ := bind_eq_ok.mp h
  exact nonNull_eq_ok.mp h

/-- Another current output, or other current workspaces. -/
theorem LayoutInv.setCurrent (h : LayoutInv tiled hole len s) (c : Option OutPtr)
    (i : OutPtr → ℕ) :
    LayoutInv tiled hole len { s with outs := { s.outs with currOutput := c, outCurr := i } } :=
  ⟨h.tiles, h.cursor, h.outs.congr ⟨rfl, rfl, rfl, rfl⟩ ⟨rfl, rfl, rfl, rfl, rfl⟩⟩

namespace Server

variable {t : TilePtr} {v : ViewPtr} {w : WsPtr} {o : OutPtr} {view : Option ViewPtr}

/-! ### Operations that keep the layout -/

theorem KeepsLayout.inv (hs : KeepsLayout s s') (h : LayoutInv tiled hole len s) :
    LayoutInv tiled hole len s' where
  tiles := by
    rw [hs.tiles]
    exact h.tiles
  cursor t ht := by
    rw [hs.tiles]
    exact (hs.cursor t ht).elim (h.cursor t) id
  outs := by
    rw [hs.tiles, hs.outs]
    exact h.outs

theorem KeepsLayout.wellFormed (hs : KeepsLayout s s') (h : WellFormed tiled s) :
    WellFormed tiled s' := by
  rw [WellFormed, hs.outs]
  exact hs.inv h

/-! ### The focused tile and the current workspace -/

theorem workspaceFocusTile_spec : Ensures (s.workspaceFocusTile w t) fun s' =>
    s.tiles.tileLive t = true ∧
      s' = { s with tiles.wsFocused := Function.update s.tiles.wsFocused w (some t) } := by
  refine Ensures.deref fun hlive => Ensures.ok ⟨?_, rfl⟩
  exact (Bool.and_eq_true_iff.mp hlive).2

theorem workspaceFocusTile_inv (h : LayoutInv tiled hole len s)
    (ht : s.tiles.tileLive t = true → s.tiles.tileWorkspace t = w) :
    Ensures (s.workspaceFocusTile w t) (LayoutInv tiled hole len) := by
  refine workspaceFocusTile_spec.mono ?_
  rintro s' ⟨hlive, rfl⟩
  exact ⟨h.tiles.focus ⟨hlive, ht hlive⟩, h.cursor, h.outs.congr ⟨rfl, rfl, rfl, rfl⟩
    ⟨rfl, rfl, rfl, rfl, rfl⟩⟩

theorem workspaceFocus_spec {ws : ℕ} : Ensures (s.workspaceFocus o ws) fun s' =>
    s' = s ∧ s.outs.nws ≤ ws ∨
      s' = { s with outs.outCurr := Function.update s.outs.outCurr o ws } ∧ ws < s.outs.nws := by
  refine Ensures.ite (fun h => Ensures.ok (.inl ⟨rfl, h⟩)) fun h => ?_
  refine Ensures.bind_any fun wOld _ => Ensures.bind_any fun w _ => Ensures.deref fun _ => ?_
  exact Ensures.ok (.inr ⟨rfl, not_le.mp h⟩)

theorem workspaceFocus_inv (h : LayoutInv tiled hole len s) {ws : ℕ} :
    Ensures (s.workspaceFocus o ws) (LayoutInv tiled hole len) := by
  refine workspaceFocus_spec.mono ?_
  rintro s' (⟨rfl, -⟩ | ⟨rfl, -⟩)
  · exact h
  · exact h.setCurrent s.outs.currOutput _

theorem workspaceFocus_nws {ws : ℕ} :
    Ensures (s.workspaceFocus o ws) fun s' => s'.outs.nws = s.outs.nws := by
  refine workspaceFocus_spec.mono ?_
  rintro s' (⟨rfl, -⟩ | ⟨rfl, -⟩) <;> rfl

theorem workspaceFocus_wellFormed (h : WellFormed tiled s) {ws : ℕ} :
    Ensures (s.workspaceFocus o ws) (WellFormed tiled) := by
  refine ((workspaceFocus_inv h).and workspaceFocus_nws).mono fun s' ⟨h1, h2⟩ => ?_
  rw [WellFormed, h2]
  exact h1

theorem setOutput_wellFormed (h : WellFormed tiled s) :
    Ensures (s.setOutput o) (WellFormed tiled) := by
  have h₁ : WellFormed tiled { s with outs.currOutput := some o } :=
    LayoutInv.setCurrent h (some o) s.outs.outCurr
  exact refocus_sameLayout.mono fun _ h₂ => h₂.toKeepsLayout.wellFormed h₁

theorem keybindingCycleOutputs_wellFormed (h : WellFormed tiled s) {reverse triggerEvent : Bool} :
    Ensures (s.keybindingCycleOutputs reverse triggerEvent) (WellFormed tiled) := by
  refine Ensures.bind_any fun old _ => Ensures.nonNull fun o _ =>
    Ensures.bind (setOutput_wellFormed h) fun s₁ h₁ => Ensures.ok ?_
  cases triggerEvent
  · exact h₁
  · exact emit_sameLayout.toKeepsLayout.wellFormed h₁

theorem keybindingSwitchOutput_wellFormed (h : WellFormed tiled s) {num : ℕ} :
    Ensures (s.keybindingSwitchOutput num) (WellFormed tiled) := by
  refine Ensures.bind_any fun old _ => Ensures.ifSome (fun _ => h) fun o _ =>
    Ensures.bind (setOutput_wellFormed h) fun s₁ h₁ => Ensures.ok ?_
  exact emit_sameLayout.toKeepsLayout.wellFormed h₁

theorem keybindingSwitchWs_wellFormed (h : WellFormed tiled s) {ws : ℕ} :
    Ensures (s.keybindingSwitchWs ws) (WellFormed tiled) := by
  refine Ensures.ite (fun _ => Ensures.ok h) fun _ => Ensures.bind_any fun o _ => ?_
  refine Ensures.bind (workspaceFocus_wellFormed h) fun s₁ h₁ => ?_
  refine Ensures.bind_any fun w _ => Ensures.bind_any fun f _ =>
    Ensures.bind seatSetFocus_keeps fun s₂ h₂ => Ensures.ok ?_
  exact (h₂.trans emit_sameLayout.toKeepsLayout).wellFormed h₁

/-- Changing output and workspace leaves every tile where it is. -/
theorem setOutput_tiles : Ensures (s.setOutput o) fun s' => s'.tiles = s.tiles :=
  refocus_sameLayout.mono fun _ h => h.tiles

theorem keybindingSwitchWs_tiles {ws : ℕ} :
    Ensures (s.keybindingSwitchWs ws) fun s' => s'.tiles = s.tiles := by
  refine Ensures.ite (fun _ => Ensures.ok rfl) fun _ => Ensures.bind_any fun o _ => ?_
  refine Ensures.bind (P := fun s₁ => s₁.tiles = s.tiles) ?_ fun s₁ h₁ => ?_
  · refine workspaceFocus_spec.mono ?_
    rintro s' (⟨rfl, -⟩ | ⟨rfl, -⟩) <;> rfl
  · refine Ensures.bind_any fun w _ => Ensures.bind_any fun f _ =>
      Ensures.bind seatSetFocus_keeps fun s₂ h₂ => Ensures.ok ?_
    exact h₂.tiles.trans h₁

theorem keybindingFocusTile_wellFormed (h : WellFormed tiled s) {tileId : ℕ} :
    Ensures (s.keybindingFocusTile tileId) (WellFormed tiled) := by
  refine Ensures.bind_any fun o _ => Ensures.bind_any fun w _ => Ensures.bind_any fun oldTile _ =>
    Ensures.bind_any fun tile _ => Ensures.ifSome (fun _ => h) fun t _ =>
    Ensures.bind_any fun ot _ => ?_
  refine Ensures.bind (P := fun s₁ => WellFormed tiled s₁ ∧ s₁.tiles = s.tiles)
    (Ensures.ite (fun _ => Ensures.ok ⟨h, rfl⟩)
      fun _ => (setOutput_wellFormed h).and setOutput_tiles) fun s₁ ⟨h₁, ht₁⟩ => ?_
  refine Ensures.bind_any fun oc _ => ?_
  refine Ensures.bind (P := fun s₂ => WellFormed tiled s₂ ∧ s₂.tiles = s.tiles)
    (Ensures.ite (fun _ => Ensures.ok ⟨h₁, ht₁⟩)
      fun _ => (keybindingSwitchWs_wellFormed h₁).and
        (keybindingSwitchWs_tiles.mono fun _ e => e.trans ht₁)) fun s₂ ⟨h₂, ht₂⟩ => ?_
  refine Ensures.bind ((workspaceFocusTile_inv h₂ fun _ => by rw [ht₂]).and
    (workspaceFocusTile_spec.mono fun s' h => congrArg (fun s => s.outs.nws) h.2))
    fun s₃ ⟨h₃, hn⟩ => ?_
  refine Ensures.bind seatSetFocus_keeps fun s₄ h₄ => Ensures.ok ?_
  refine (h₄.trans emit_sameLayout.toKeepsLayout).wellFormed ?_
  rw [WellFormed, hn]
  exact h₃

theorem keybindingCycleTiles_wellFormed (h : WellFormed tiled s) {reverse : Bool} :
    Ensures (s.keybindingCycleTiles reverse) (WellFormed tiled) :=
  Ensures.bind_any fun _ _ => Ensures.deref fun _ => Ensures.nonNull fun _ _ =>
    Ensures.deref fun _ => keybindingFocusTile_wellFormed h

/-! ### Neighbours, merging and swapping -/

/-- A tile found next to another one is a different tile of the same workspace. -/
theorem findTileTowards_spec {T : Tiles} (h : T.TilesInv tiled none) {dir : Direction} :
    Ensures (T.findTileTowards dir t) fun found => T.tileLive t = true ∧ ∀ m, found = some m →
      m ∈ T.tilesOf (T.tileWorkspace t) ∧ m ≠ t ∧
        T.facesCentre dir.axis dir.after t m = true := by
  have key : ∀ a after, Ensures (T.findDirTile a after t) fun found =>
      T.tileLive t = true ∧ ∀ m, found = some m →
        m ∈ T.tilesOf (T.tileWorkspace t) ∧ m ≠ t ∧ T.facesCentre a after t m = true := by
    intro a after
    refine Ensures.deref fun hlive found hfound => ⟨hlive, ?_⟩
    rintro m rfl
    obtain ⟨l, hl, hmem⟩ := h.ring_of_mem (t := t) ⟨hlive, rfl⟩
    have hlen := h.length_le hl.nodup fun u hu => ((hmem u).mp hu).1
    obtain ⟨hm, hne, hp⟩ := hl.findNode_mem ((hmem t).mpr ⟨hlive, rfl⟩)
      (Nat.le_succ_of_le hlen) hfound
    obtain ⟨_, -, hface⟩ := bind_eq_ok.mp hp
    exact ⟨(hmem m).mp hm, hne, Except.ok.inj hface⟩
  cases dir <;> exact key _ _

theorem focusTile_wellFormed (h : WellFormed tiled s) {dir : Direction} :
    Ensures (s.focusTile dir t) (WellFormed tiled) := by
  refine Ensures.bind (findTileTowards_spec h.tiles) fun next ⟨_, hnext⟩ =>
    Ensures.ifSome (fun _ => h) fun n hn => ?_
  refine Ensures.bind ((workspaceFocusTile_inv h fun _ => (hnext n hn).1.2).and
    (workspaceFocusTile_spec.mono fun s' h => congrArg (fun s => s.outs.nws) h.2))
    fun s₁ ⟨h₁, hn₁⟩ => ?_
  refine seatSetFocus_keeps.mono fun _ h₂ => h₂.wellFormed ?_
  rw [WellFormed, hn₁]
  exact h₁

/-- What the search for a neighbour has tested. -/
theorem facesCentre_adjacent {T : Tiles} {a : Axis} {after : Bool} {m : TilePtr}
    (h : T.facesCentre a after t m = true) :
    (T.tileBox m).coord a = (T.tileBox t).coord a + (T.tileBox t).dim a ∨
      (T.tileBox m).coord a + (T.tileBox m).dim a = (T.tileBox t).coord a := by
  rw [Tiles.facesCentre, Bool.and_eq_true] at h
  cases after with
  | true => exact .inl (by simpa using h.1)
  | false => exact .inr (by simpa using h.1)

/-- **`merge_tile`** absorbs the neighbour or does nothing. -/
theorem mergeTile_wellFormed (h : WellFormed tiled s) {dir : Direction} :
    Ensures (s.mergeTile dir t) (WellFormed tiled) := by
  refine Ensures.bind (findTileTowards_spec h.tiles) fun found ⟨hlive, hfound⟩ =>
    Ensures.ifSome (fun _ => h) fun m hm => ?_
  obtain ⟨hmw, hmt, hface⟩ := hfound m hm
  refine Ensures.ite (fun _ => Ensures.ok h) fun hsame => ?_
  simp only [not_or, not_not] at hsame
  refine Ensures.bind workspaceTileUpdateView_spec ?_
  rintro s₁ ⟨-, sc, rfl⟩
  refine Ensures.nonNull fun p hp => Ensures.nonNull fun n hn => ?_
  have hmerge : WellFormed tiled { s with
      scene := sc
      disp := s.disp.assign m none
      tiles := { s.tiles with
        tileLive := Function.update s.tiles.tileLive m false
        tileLinks := s.tiles.tileLinks.unlink p m n
        wsFocused := if s.tiles.wsFocused (s.tiles.tileWorkspace m) = some m
          then Function.update s.tiles.wsFocused (s.tiles.tileWorkspace m) (some t)
          else s.tiles.wsFocused
        tileBox := Function.update s.tiles.tileBox t
          ((s.tiles.tileBox t).setSpan dir.axis
            (min ((s.tiles.tileBox m).coord dir.axis) ((s.tiles.tileBox t).coord dir.axis))
            ((s.tiles.tileBox m).dim dir.axis + (s.tiles.tileBox t).dim dir.axis)) }
      cursorTile := if s.cursorTile = some m then some t else s.cursorTile } := by
    refine ⟨h.tiles.merge ⟨hlive, hmw.2.symm⟩ ⟨hmw.1, rfl⟩ hmt.symm hp hn fun _ =>
      ⟨facesCentre_adjacent hface, hsame.2.2, hsame.2.1, rfl⟩, fun u hu => ?_,
      h.outs.congr ⟨rfl, rfl, rfl, rfl⟩ ⟨rfl, rfl, rfl, rfl, rfl⟩⟩
    by_cases hc : s.cursorTile = some m
    · simp only [hc, if_true, Option.some_inj] at hu
      subst hu
      simpa [hmt.symm] using hlive
    · have hu' : s.cursorTile = some u := by simpa only [hc, if_false] using hu
      have hum : u ≠ m := fun e => hc (e ▸ hu')
      simpa [hum] using h.cursor u hu'
  refine Ensures.bind (Ensures.ifSome (fun _ => SameLayout.refl)
    fun v _ => viewMaximize_sameLayout) fun s₂ h₂ => ?_
  refine Ensures.bind_any fun place _ => ?_
  obtain ⟨ws, output, outputId⟩ := place
  exact Ensures.ok ((h₂.trans emit_sameLayout).toKeepsLayout.wellFormed hmerge)

theorem swapTiles_wellFormed (h : WellFormed tiled s) {tile swapTile : Option TilePtr}
    {follow : Bool} : Ensures (s.swapTiles tile swapTile follow) (WellFormed tiled) := by
  unfold swapTiles
  split
  · refine Ensures.ite (fun _ => Ensures.ok h) fun _ => Ensures.deref fun _ => ?_
    refine Ensures.bind workspaceTileUpdateView_keeps fun s₁ h₁ => ?_
    refine Ensures.bind workspaceTileUpdateView_keeps fun s₂ h₂ => ?_
    refine Ensures.bind workspaceTileUpdateView_keeps fun s₃ h₃ => ?_
    have h₃' := ((h₁.trans h₂).trans h₃).wellFormed h
    refine Ensures.bind (Ensures.ite (fun _ => keybindingFocusTile_wellFormed h₃') fun _ =>
      refocus_sameLayout.mono fun _ h₄ => h₄.toKeepsLayout.wellFormed h₃') fun s₄ h₄ => ?_
    refine Ensures.bind_any fun place _ => ?_
    obtain ⟨ws, output, outputId⟩ := place
    exact Ensures.ok (emit_sameLayout.toKeepsLayout.wellFormed h₄)
  · exact Ensures.ok h

theorem swapTile_wellFormed (h : WellFormed tiled s) {tileId : ℕ} {dir : Direction}
    {follow : Bool} : Ensures (s.swapTile tileId dir follow) (WellFormed tiled) :=
  Ensures.bind_any fun _ _ => Ensures.ifSome (fun _ => h) fun _ _ => Ensures.bind_any fun _ _ =>
    swapTiles_wellFormed h

/-! ### Splitting -/

/-- **`keybinding_split_output`** cuts the focused tile in two or does nothing. -/
theorem keybindingSplitOutput_wellFormed (h : WellFormed tiled s) {vertical : Bool}
    {percentage : Percentage} :
    Ensures (s.keybindingSplitOutput o vertical percentage) (WellFormed tiled) := by
  refine Ensures.bind_any fun w _ => Ensures.bind_any fun f hf => Ensures.deref fun _ =>
    Ensures.ite (fun _ => Ensures.ok h) fun hsize => ?_
  simp only [not_or, not_lt] at hsize
  obtain ⟨hw, hfw⟩ := h.tiles.focused_mem (by simp) hf
  refine Ensures.bind_any fun nextView _ => Ensures.nonNull fun c hc => ?_
  set a : Axis := if vertical then .horizontal else .vertical
  set k := percentage.scale ((s.tiles.tileBox f).dim a)
  have hk : tiled → 1 ≤ k ∧ k < (s.tiles.tileBox f).dim a := fun htiled =>
    ⟨hsize.1, percentage.scale_lt _ ((h.tiles.tiling htiled w hw (by simp)).pos f hfw a)⟩
  refine Ensures.bind workspaceTileUpdateView_keeps fun s₁ h₁ => ?_
  have h₁' : WellFormed tiled s₁ := by
    refine h₁.wellFormed ⟨h.tiles.split hfw hc hk, fun u hu => ?_,
      h.outs.congr ⟨rfl, rfl, rfl, rfl⟩ ⟨rfl, rfl, rfl, rfl, rfl⟩⟩
    by_cases e : u = s.tiles.tileTop
    · simp [e]
    · simpa [e] using h.cursor u hu
  have hfw₁ : f ∈ s₁.tiles.tilesOf w := by
    have hne : f ≠ s.tiles.tileTop := by
      rintro rfl
      exact lt_irrefl _ (h.tiles.tile_lt _ hfw.1)
    rw [h₁.tiles, Tiles.mem_tilesOf]
    simpa [hne] using Tiles.mem_tilesOf.mp hfw
  refine Ensures.bind ((workspaceFocusTile_inv h₁' fun _ => hfw₁.2).and
    (workspaceFocusTile_spec.mono fun s' h => congrArg (fun s => s.outs.nws) h.2))
    fun s₂ ⟨h₂, hn₂⟩ => ?_
  refine Ensures.bind (Ensures.ifSome (fun _ => SameLayout.refl)
    fun v _ => viewMaximize_sameLayout) fun s₃ h₃ => ?_
  refine Ensures.bind (Ensures.ifSome (fun _ => SameLayout.refl)
    fun v _ => viewMaximize_sameLayout) fun s₄ h₄ => ?_
  refine Ensures.bind_any fun place _ => ?_
  obtain ⟨ws, output, outputId⟩ := place
  refine Ensures.ok (((h₃.trans h₄).trans emit_sameLayout).toKeepsLayout.wellFormed ?_)
  rw [WellFormed, hn₂]
  exact h₂

/-! ### Freeing and refilling a workspace -/

/-- The loop frees the tiles it meets. -/
theorem freeTilesLoop_spec {l : List TilePtr} {n : ℕ}
    (hl : DLinks.Path s.tiles.tileLinks.next (s.tiles.wsFocused w) l) :
    Ensures (freeTilesLoop w n s) fun s' => ∃ c L F,
      s' = { s with cursorTile := c, tiles := { s.tiles with tileLive := L, wsFocused := F } } ∧
      (∀ t, L t = true ↔ s.tiles.tileLive t = true ∧ t ∉ l) ∧
      (∀ w', w' ≠ w → F w' = s.tiles.wsFocused w') ∧
      ∀ t, c = some t → s.cursorTile = some t ∧ t ∉ l := by
  induction n generalizing s l with
  | zero => exact Ensures.error
  | succ n ih =>
    unfold freeTilesLoop
    cases l with
    | nil =>
      rw [show s.tiles.wsFocused w = none from hl]
      exact Ensures.ok ⟨_, _, _, rfl, by simp, fun _ _ => rfl, by simp⟩
    | cons t l =>
      obtain ⟨ht, hl⟩ := hl
      rw [ht]
      refine Ensures.deref fun _ => (ih (l := l) ?_).mono ?_
      · simpa using hl
      · rintro s' ⟨c, L, F, rfl, hL, hF, hc⟩
        refine ⟨c, L, F, rfl, fun u => ?_, fun w' hw' => ?_, fun u hu => ?_⟩
        · rw [hL]
          by_cases e : u = t <;> simp [e]
        · rw [hF w' hw']
          simp [hw']
        · obtain ⟨h1, h2⟩ := hc u hu
          by_cases e : s.cursorTile = some t
          · simp [e] at h1
          · simp only [e, if_false] at h1
            have hut : u ≠ t := fun e' => e (e' ▸ h1)
            exact ⟨h1, by simp [hut, h2]⟩

/-- **What `workspace_free_tiles` does.** -/
theorem workspaceFreeTiles_spec (h : s.tiles.TilesInv tiled none) :
    Ensures (s.workspaceFreeTiles w) fun s' => s.tiles.wsLive w = true ∧
      ∃ c T', s' = { s with cursorTile := c, tiles := T' } ∧ s.tiles.Freed w T' ∧
        ∀ t, c = some t → s.cursorTile = some t ∧ t ∉ s.tiles.tilesOf w := by
  refine Ensures.bind_any fun f hf => Ensures.deref fun _ => Ensures.nonNull fun p hp => ?_
  obtain ⟨hw, hfw⟩ := h.focused_mem (by simp) hf
  obtain ⟨l, hl, hmem⟩ := h.ring w hw (by simp)
  obtain ⟨r, hr, hperm⟩ := hl.startAt ((hmem f).mpr hfw)
  have hmem' : ∀ u, u ∈ f :: r ↔ u ∈ s.tiles.tilesOf w := fun u =>
    hperm.mem_iff.trans (hmem u)
  obtain ⟨hpr, hpath⟩ := hr.cut hp
  have hfoc : s.tiles.wsFocused w = some f := by
    obtain ⟨_, -, hfoc⟩ := bind_eq_ok.mp hf
    exact nonNull_eq_ok.mp hfoc
  refine (freeTilesLoop_spec (l := f :: r) ?_).mono ?_
  · rw [hfoc]
    exact hpath
  · rintro s' ⟨c, L, F, rfl, hL, hF, hc⟩
    have hL' : ∀ t, L t = true ↔ s.tiles.tileLive t = true ∧ s.tiles.tileWorkspace t ≠ w := by
      intro t
      rw [hL, hmem', Tiles.mem_tilesOf]
      tauto
    refine ⟨hw, c, _, rfl, ⟨rfl, hL', rfl, rfl, fun t ht => ?_, rfl, rfl, rfl, rfl, rfl, rfl, rfl,
      hF, rfl⟩, fun t ht => ?_⟩
    · have htp : t ≠ p := by
        rintro rfl
        exact ((hL' t).mp ht).2 ((hmem' t).mp hpr).2
      simp [htp]
    · rw [← hmem']
      exact hc t ht

theorem workspaceFreeTiles_inv (h : LayoutInv tiled none len s) :
    Ensures (s.workspaceFreeTiles w) fun s' =>
      LayoutInv tiled (some w) len s' ∧ s'.tiles.wsLive w = true ∧ s'.outs = s.outs := by
  refine (workspaceFreeTiles_spec h.tiles).mono ?_
  rintro s' ⟨hw, c, T', rfl, hT, hc⟩
  refine ⟨⟨h.tiles.freeTiles hT, fun t ht => ?_,
    h.outs.congr ⟨hT.wsTop, hT.wsLive, hT.wsOutput, hT.wsNum⟩ ⟨rfl, rfl, rfl, rfl, rfl⟩⟩, ?_, rfl⟩
  · obtain ⟨h1, h2⟩ := hc t ht
    have hlive := h.cursor t h1
    exact (hT.tileLive t).mpr ⟨hlive, fun e => h2 ⟨hlive, e⟩⟩
  · simpa only [hT.wsLive] using hw

theorem fullScreenWorkspaceTiles_inv (h : LayoutInv tiled (some w) len s)
    (hw : s.tiles.wsLive w = true) :
    Ensures (s.fullScreenWorkspaceTiles w) fun s' =>
      LayoutInv tiled none len s' ∧ s'.outs = s.outs := by
  refine Ensures.deref fun _ => workspaceTileUpdateView_keeps.mono fun s' h' => ?_
  refine ⟨h'.inv ⟨h.tiles.fill hw _, fun t ht => ?_,
    h.outs.congr ⟨rfl, rfl, rfl, rfl⟩ ⟨rfl, rfl, rfl, rfl, rfl⟩⟩, h'.outs⟩
  by_cases e : t = s.tiles.tileTop
  · simp [e]
  · simpa [e] using h.cursor t ht

theorem pointViewsAt_keeps {l : List ViewPtr} : KeepsLayout s (s.pointViewsAt l t) := by
  unfold pointViewsAt
  induction l generalizing s with
  | nil => exact .refl
  | cons v l ih =>
    have h₁ : KeepsLayout s (s.setViewTile v (some t)) := keepsLayout_of_eq rfl rfl rfl
    exact h₁.trans ih

theorem pointViewsAt_views {l : List ViewPtr} : (s.pointViewsAt l t).views = s.views := by
  unfold pointViewsAt
  induction l generalizing s with
  | nil => rfl
  | cons v l ih => exact ih (s := s.setViewTile v (some t))

theorem pointViewsAt_tileView {l : List ViewPtr} :
    (s.pointViewsAt l t).disp.tileView = s.disp.tileView := by
  unfold pointViewsAt
  induction l generalizing s with
  | nil => rfl
  | cons v l ih => exact ih (s := s.setViewTile v (some t))

theorem outputMakeWorkspaceFullscreen_wellFormed (h : WellFormed tiled s) {ws : ℕ} :
    Ensures (s.outputMakeWorkspaceFullscreen o ws) (WellFormed tiled) := by
  refine Ensures.ite (fun _ => Ensures.ok h) fun _ => Ensures.bind_any fun w _ =>
    Ensures.bind_any fun f _ => Ensures.deref fun _ => Ensures.bind_any fun current _ => ?_
  refine Ensures.bind (workspaceFreeTiles_inv h) fun s₁ ⟨h₁, hw₁, ho₁⟩ => ?_
  refine Ensures.bind (fullScreenWorkspaceTiles_inv h₁ hw₁) fun s₂ ⟨h₂, ho₂⟩ => ?_
  have h₂' : WellFormed tiled s₂ := by
    rw [WellFormed, ho₂, ho₁]
    exact h₂
  refine Ensures.bind_any fun f' _ => Ensures.bind_any fun l _ =>
    Ensures.bind workspaceTileUpdateView_keeps fun s₃ h₃ => ?_
  have h₃' := (pointViewsAt_keeps.trans h₃).wellFormed h₂'
  exact Ensures.ite (fun _ => seatSetFocus_keeps.mono fun _ h₄ => h₄.wellFormed h₃')
    fun _ => Ensures.ok h₃'

theorem keybindingWorkspaceFullscreen_wellFormed (h : WellFormed tiled s) {screen workspace : ℕ} :
    Ensures (s.keybindingWorkspaceFullscreen screen workspace) (WellFormed tiled) := by
  refine Ensures.bind_any fun cur _ => Ensures.ifSome (fun _ => h) fun o _ =>
    Ensures.ite (fun _ => Ensures.ok h) fun _ => ?_
  refine Ensures.bind (outputMakeWorkspaceFullscreen_wellFormed h) fun s₁ h₁ => ?_
  exact Ensures.bind_any fun w _ => Ensures.bind_any fun f _ =>
    Ensures.ok (emit_sameLayout.toKeepsLayout.wellFormed h₁)

/-! ### Resizing and moving -/

/-- `resize` changes nothing of the layout but boxes. -/
theorem resize_inv {a : Axis} {orig tile : TilePtr} {parent : Option TilePtr} {n : ℕ}
    {coordOffset dimOffset : ℤ} (h : LayoutInv False none len s) :
    Ensures (resize a orig n s tile parent coordOffset dimOffset) fun s' =>
      LayoutInv False none len s' ∧ s'.outs = s.outs := by
  induction n generalizing s tile parent coordOffset dimOffset with
  | zero => exact Ensures.error
  | succ n ih =>
    refine Ensures.ite (fun _ => Ensures.ok ⟨h, rfl⟩) fun _ => Ensures.bind_any fun its _ => ?_
    refine Ensures.bind (P := fun s' => LayoutInv False none len s' ∧ s'.outs = s.outs) ?_ ?_
    · refine Ensures.foldlM (fun s₁ it _ h₁ => ?_) ⟨h, rfl⟩
      refine Ensures.ite (fun _ => Ensures.ok h₁) fun _ => ?_
      cases handedOn s₁.tiles a tile it coordOffset dimOffset with
      | none => exact Ensures.ok h₁
      | some cd => exact (ih h₁.1).mono fun s₂ h₂ => ⟨h₂.1, h₂.2.trans h₁.2⟩
    · intro s₁ h₁
      refine Ensures.bind (Ensures.ifSome (fun _ => SameLayout.refl)
        fun v _ => viewMaximize_sameLayout) fun s₂ h₂ => ?_
      refine Ensures.bind_any fun place _ => ?_
      obtain ⟨ws, output, outputId⟩ := place
      have h₃ := (h₂.trans (emit_sameLayout (e := .resizeTile (s₂.tiles.tileId tile)
        (s₁.tiles.tileBox tile) ((s₁.tiles.tileBox tile).setSpan a
          ((s₁.tiles.tileBox tile).coord a + coordOffset)
          ((s₁.tiles.tileBox tile).dim a + dimOffset)) ws output outputId))).toKeepsLayout
      exact Ensures.ok ⟨h₃.inv ⟨h₁.1.tiles.setBoxes _, h₁.1.cursor,
        h₁.1.outs.congr ⟨rfl, rfl, rfl, rfl⟩ ⟨rfl, rfl, rfl, rfl, rfl⟩⟩, h₃.outs.trans h₁.2⟩

theorem resizeAlong_wellFormed (h : WellFormed False s) {a : Axis} {pixs : ℤ} :
    Ensures (s.resizeAlong a o t pixs) (WellFormed False) := by
  refine Ensures.deref fun _ => Ensures.ite (fun _ => Ensures.bind_any fun allowed _ => ?_)
    fun _ => Ensures.ok h
  refine Ensures.ite (fun _ => (resize_inv h).mono fun s' ⟨h', ho⟩ => ?_) fun _ => Ensures.ok h
  rw [WellFormed, ho]
  exact h'

theorem resizeTile_wellFormed (h : WellFormed False s) {hpixs vpixs : ℤ} {tileId : ℕ} :
    Ensures (s.resizeTile hpixs vpixs tileId) (WellFormed False) :=
  Ensures.bind_any fun _ _ => Ensures.bind_any fun _ _ => Ensures.bind_any fun _ _ =>
    Ensures.ifSome (fun _ => h) fun _ _ => Ensures.bind (resizeAlong_wellFormed h) fun _ h₁ =>
      resizeAlong_wellFormed h₁

theorem keybindingMoveViewToTile_wellFormed (h : WellFormed tiled s) {viewId tileId : ℕ}
    {follow : Bool} :
    Ensures (s.keybindingMoveViewToTile viewId tileId follow) (WellFormed tiled) := by
  refine Ensures.bind_any fun view _ => Ensures.bind_any fun tile _ =>
    Ensures.bind_any fun old _ => ?_
  obtain ⟨oldOutput, oldWs⟩ := old
  refine Ensures.ifSome (fun _ => h) fun t _ => ?_
  have hmove : Ensures (view.elim (s.emptyTile t) fun v => do
      let s ← s.takeView v
      s.putView v t) (KeepsLayout s) := by
    cases view with
    | none => exact emptyTile_keeps
    | some v => exact KeepsLayout.bind takeView_keeps fun _ _ => putView_keeps
  refine Ensures.bind hmove fun s₁ h₁ => ?_
  refine Ensures.bind (P := WellFormed tiled) (Ensures.ite
    (fun _ => keybindingFocusTile_wellFormed (h₁.wellFormed h)) fun _ => Ensures.ifSome
      (fun _ => h₁.wellFormed h)
      fun u _ => workspaceTileUpdateView_keeps.mono fun _ h₂ => (h₁.trans h₂).wellFormed h)
    fun s₂ h₂ => ?_
  exact Ensures.bind_any fun oc _ => Ensures.bind_any fun oldId _ =>
    Ensures.ok (emit_sameLayout.toKeepsLayout.wellFormed h₂)

theorem keybindingMoveViewToOutput_wellFormed (h : WellFormed tiled s) {viewId outputNum : ℕ}
    {follow : Bool} :
    Ensures (s.keybindingMoveViewToOutput viewId outputNum follow) (WellFormed tiled) :=
  Ensures.ifSome (fun _ => h) fun _ _ => Ensures.bind_any fun _ _ => Ensures.bind_any fun _ _ =>
    keybindingMoveViewToTile_wellFormed h

theorem keybindingMoveViewToWorkspace_wellFormed (h : WellFormed tiled s) {viewId ws : ℕ}
    {follow : Bool} :
    Ensures (s.keybindingMoveViewToWorkspace viewId ws follow) (WellFormed tiled) :=
  Ensures.ite (fun _ => Ensures.ok h) fun _ => Ensures.bind_any fun _ _ =>
    Ensures.bind_any fun _ _ => Ensures.bind_any fun _ _ => keybindingMoveViewToTile_wellFormed h

theorem keybindingMoveViewToCycleOutput_wellFormed (h : WellFormed tiled s) {reverse : Bool} :
    Ensures (s.keybindingMoveViewToCycleOutput reverse) (WellFormed tiled) := by
  refine Ensures.ite (fun _ => Ensures.ok h) fun _ => Ensures.bind_any fun old _ =>
    Ensures.bind_any fun f _ => ?_
  refine Ensures.bind (Ensures.ifSome (fun _ => h) fun v _ =>
    leaveView_keeps.mono fun _ h₁ => h₁.wellFormed h) fun s₁ h₁ => ?_
  refine Ensures.bind (keybindingCycleOutputs_wellFormed h₁) fun s₂ h₂ => ?_
  refine Ensures.bind (Ensures.ifSome (fun _ => h₂) fun v _ =>
    arriveView_keeps.mono fun _ h₃ => h₃.wellFormed h₂) fun s₃ h₃ => ?_
  exact Ensures.bind_any fun new _ => Ensures.bind_any fun wOld _ => Ensures.bind_any fun fOld _ =>
    Ensures.bind_any fun fNew _ => Ensures.ok (emit_sameLayout.toKeepsLayout.wellFormed h₃)

/-! ### The number of workspaces -/

theorem workspaceFree_inv (h : LayoutInv tiled none len s)
    (hw : ∀ o ∈ s.outs.outputs, ∀ i < s.outs.nws, (s.outs.outWorkspaces o)[i]? ≠ some w) :
    Ensures (s.workspaceFree w) fun s' => LayoutInv tiled none len s' ∧ s'.outs = s.outs := by
  refine Ensures.bind (workspaceFreeTiles_inv h) fun s₁ ⟨h₁, _, ho⟩ => Ensures.ok ⟨?_, ho⟩
  refine ⟨h₁.tiles.freeWs, h₁.cursor, h₁.outs.freeWs ?_⟩
  rwa [ho]

/-- Workspaces behind the last one that stays may be freed. -/
theorem workspaceFree_last (h : LayoutInv tiled none len s) {i : ℕ} (hw : s.outs.wsAt o i = .ok w)
    (hi : s.outs.nws ≤ i) :
    Ensures (s.workspaceFree w) fun s' => LayoutInv tiled none len s' ∧ s'.outs = s.outs := by
  refine workspaceFree_inv h fun o' _ j hj hw' => ?_
  have hwi := (h.outs.place o i w (getElem?_of_wsAt hw)).2.2
  have hwj := (h.outs.place o' j w hw').2.2
  omega

/-- **`full_screen_workspace`** makes a workspace with one tile. -/
theorem newWorkspace_spec (h : LayoutInv tiled none len s) {num : ℕ} :
    Ensures (s.newWorkspace o num) fun p =>
      LayoutInv tiled none len p.2 ∧ p.2.outs = s.outs ∧ p.1 < p.2.tiles.wsTop ∧
        p.2.tiles.wsOutput p.1 = o ∧ p.2.tiles.wsNum p.1 = num ∧
        p.2.tiles.wsLive p.1 = true := by
  have h₀ : LayoutInv tiled (some s.tiles.wsTop) len { s with tiles := { s.tiles with
      wsTop := s.tiles.wsTop + 1
      wsLive := Function.update s.tiles.wsLive s.tiles.wsTop true
      wsOutput := Function.update s.tiles.wsOutput s.tiles.wsTop o
      wsNum := Function.update s.tiles.wsNum s.tiles.wsTop num } } := by
    have hne : ∀ (o' : OutPtr) (i w' : ℕ), (s.outs.outWorkspaces o')[i]? = some w' →
        w' ≠ s.tiles.wsTop := fun o' i w' hw' => ne_of_lt (h.outs.place o' i w' hw').1
    refine ⟨h.tiles.addWs o num, h.cursor, { h.outs with
      place := fun o' i w' hw' => ?_
      wsLive := fun o' ho' i w' hi hw' => ?_ }⟩
    · obtain ⟨h1, h2, h3⟩ := h.outs.place o' i w' hw'
      exact ⟨Nat.lt_succ_of_lt h1, by simpa [hne o' i w' hw'] using h2,
        by simpa [hne o' i w' hw'] using h3⟩
    · simpa [hne o' i w' hw'] using h.outs.wsLive o' ho' i w' hi hw'
  refine Ensures.bind (P := fun s' => LayoutInv tiled none len s' ∧ s'.outs = s.outs ∧
    s'.tiles.wsTop = s.tiles.wsTop + 1 ∧
    s'.tiles.wsOutput = Function.update s.tiles.wsOutput s.tiles.wsTop o ∧
    s'.tiles.wsNum = Function.update s.tiles.wsNum s.tiles.wsTop num ∧
    s'.tiles.wsLive = Function.update s.tiles.wsLive s.tiles.wsTop true) ?_ ?_
  · refine ((fullScreenWorkspaceTiles_inv h₀ (by simp)).and ?_).mono
      fun s' ⟨⟨h1, h2⟩, h3⟩ => ⟨h1, h2, h3⟩
    refine Ensures.deref fun _ => workspaceTileUpdateView_keeps.mono fun s' h' => ?_
    rw [h'.tiles]
    exact ⟨rfl, rfl, rfl, rfl⟩
  · rintro s' ⟨h1, h2, h3, h4, h5, h6⟩
    refine Ensures.ok ⟨⟨h1.tiles, h1.cursor, h1.outs⟩, h2, ?_, ?_, ?_, ?_⟩
    · simp [h3]
    · simp [h4]
    · simp [h5]
    · simp [h6]

/-- Workspaces appended to the array of an output get the next numbers. -/
theorem appendWorkspaces_inv {k a : ℕ} (h : LayoutInv tiled none (Function.update len o a) s)
    (ho : o ∈ s.outs.outputs) :
    Ensures ((List.range' a k).foldlM (addWorkspace o) s) fun s' =>
    LayoutInv tiled none (Function.update len o (a + k)) s' ∧
      s'.outs = { s.outs with outWorkspaces := s'.outs.outWorkspaces } := by
  induction k generalizing a s with
  | zero => exact Ensures.ok ⟨h, rfl⟩
  | succ k ih =>
    rw [List.range'_succ, List.foldlM_cons]
    refine Ensures.bind (P := fun s₁ => LayoutInv tiled none (Function.update len o (a + 1)) s₁ ∧
      s₁.outs = { s.outs with outWorkspaces := s₁.outs.outWorkspaces }) ?_ fun s₁ ⟨h₁, ho₁⟩ => ?_
    · refine addWorkspace_ensures ((newWorkspace_spec h).mono fun p hp => ?_)
      obtain ⟨w, s₁⟩ := p
      obtain ⟨h1, h2, h3, h4, h5, h6⟩ := hp
      refine ⟨⟨h1.tiles, h1.cursor, h1.outs.append ?_ h3 h4 h5 h6⟩, ?_⟩
      · rwa [h2]
      · rw [← h2]
        rfl
    · refine (ih h₁ (by rwa [ho₁])).mono fun s₂ ⟨h₂, ho₂⟩ => ⟨?_, ?_⟩
      · rwa [Nat.add_right_comm, Nat.add_assoc] at h₂
      · rw [ho₂, ho₁]

/-- `keybinding_set_nws` gives an output the new number of workspaces. -/
theorem outputSetNws_inv {oldNws nws : ℕ} (hlen : len o = oldNws) (hnws : s.outs.nws = nws)
    (h : LayoutInv tiled none len s) (ho : o ∈ s.outs.outputs) :
    Ensures (outputSetNws oldNws nws s o) fun s' =>
      LayoutInv tiled none (Function.update len o nws) s' ∧ s'.outs.outputs = s.outs.outputs ∧
        s'.outs.nws = s.outs.nws := by
  refine Ensures.bind (P := fun s₁ => LayoutInv tiled none len s₁ ∧ s₁.outs = s.outs)
    (Ensures.foldlM (fun s₁ i hi h₁ => ?_) ⟨h, rfl⟩) fun s₁ ⟨h₁, ho₁⟩ => ?_
  · refine Ensures.bind_any fun w hw => Ensures.bind_any fun last _ => Ensures.deref fun _ => ?_
    refine Ensures.bind moveViews_keeps fun s₂ h₂ => Ensures.bind moveViews_keeps fun s₃ h₃ => ?_
    have h₃' := h₂.trans h₃
    have ho₃ : s₃.outs = s.outs := h₃'.outs.trans h₁.2
    refine (workspaceFree_last (h₃'.inv h₁.1) (o := o) (i := i) ?_ ?_).mono
      fun s₄ ⟨h₄, ho₄⟩ => ⟨h₄, ho₄.trans ho₃⟩
    · rw [ho₃, ← h₁.2]
      exact hw
    · rw [ho₃, hnws]
      exact (List.mem_range'_1.mp hi).1
  -- the array is cut to what is left
  have h₂ : LayoutInv tiled none (Function.update len o (min nws oldNws))
      (s₁.setWorkspaces o ((s₁.outs.outWorkspaces o).take nws)) := by
    rw [← hlen]
    exact ⟨h₁.tiles, h₁.cursor, h₁.outs.take o nws⟩
  have ho₂ : o ∈ (s₁.setWorkspaces o ((s₁.outs.outWorkspaces o).take nws)).outs.outputs := by
    simpa [setWorkspaces, ho₁] using ho
  have happend : Ensures ((List.range' oldNws (nws - oldNws)).foldlM (addWorkspace o)
        (s₁.setWorkspaces o ((s₁.outs.outWorkspaces o).take nws))) fun s' =>
      LayoutInv tiled none (Function.update len o nws) s' ∧ s'.outs.outputs = s.outs.outputs ∧
        s'.outs.nws = s.outs.nws := by
    by_cases hle : nws ≤ oldNws
    · rw [Nat.sub_eq_zero_of_le hle]
      rw [min_eq_left hle] at h₂
      exact Ensures.ok ⟨h₂, by simp [setWorkspaces, ho₁]⟩
    · rw [min_eq_right (by omega)] at h₂
      refine (appendWorkspaces_inv h₂ ho₂).mono fun s' ⟨h', ho'⟩ => ?_
      rw [Nat.add_sub_cancel' (by omega)] at h'
      rw [ho']
      exact ⟨h', by simp [setWorkspaces, ho₁]⟩
  refine Ensures.bind happend fun s₃ ⟨h₃, ho₃, hn₃⟩ => ?_
  refine Ensures.ite (fun _ => ?_) fun _ => Ensures.ok ⟨h₃, ho₃, hn₃⟩
  refine workspaceFocus_spec.mono ?_
  rintro s' (⟨rfl, -⟩ | ⟨rfl, -⟩)
  · exact ⟨h₃.setCurrent s₃.outs.currOutput _, ho₃, hn₃⟩
  · exact ⟨h₃.setCurrent s₃.outs.currOutput _, ho₃, hn₃⟩

/-- The loop of `keybinding_set_nws`: the outputs in `l` still have the old number
of workspaces. -/
theorem setNws_loop {oldNws nws : ℕ} {I : List OutPtr → Server → Prop}
    (hstep : ∀ (o : OutPtr) (l : List OutPtr) (s : Server), o ∉ l → s.outs.nws = nws →
      LayoutInv tiled none (fun o' => if o' ∈ o :: l then oldNws else nws) s → I (o :: l) s →
      Ensures (outputSetNws oldNws nws s o) (I l)) :
    ∀ (l : List OutPtr) (s : Server), l.Nodup → (∀ o ∈ l, o ∈ s.outs.outputs) →
      LayoutInv tiled none (fun o => if o ∈ l then oldNws else nws) s → s.outs.nws = nws → I l s →
      Ensures (l.foldlM (outputSetNws oldNws nws) s) fun s' =>
        LayoutInv tiled none (fun _ => nws) s' ∧ s'.outs.nws = nws ∧ I [] s' := by
  intro l
  induction l with
  | nil => exact fun s _ _ h hn hI => Ensures.ok ⟨by simpa using h, hn, hI⟩
  | cons o l ih =>
    intro s hnd hmem h hn hI
    obtain ⟨hol, hnd⟩ := List.nodup_cons.mp hnd
    rw [List.foldlM_cons]
    refine Ensures.bind ((outputSetNws_inv (o := o) (by simp) hn h (hmem o List.mem_cons_self)).and
      (hstep o l s hol hn h hI)) fun s₁ ⟨⟨h₁, ho₁, hn₁⟩, hI₁⟩ => ?_
    refine ih s₁ hnd (fun o' ho' => ho₁ ▸ hmem o' (List.mem_cons_of_mem _ ho')) ?_
      (hn₁.trans hn) hI₁
    refine ⟨h₁.tiles, h₁.cursor, { h₁.outs with len := fun o' ho' => ?_ }⟩
    rw [h₁.outs.len o' ho']
    by_cases e : o' = o
    · simp [e, hol]
    · simp [e]

/-- At the start every output has the old number of workspaces. -/
theorem WellFormed.setNws (h : WellFormed tiled s) (nws : ℕ) :
    LayoutInv tiled none (fun o => if o ∈ s.outs.outputs then s.outs.nws else nws)
      { s with outs.nws := nws } := by
  refine ⟨h.tiles, h.cursor, { h.outs with
    len := fun o ho => ?_
    wsLive := fun o ho i w _ hw => ?_ }⟩
  · rw [if_pos ho]
    exact h.outs.len o ho
  · have hi : i < (s.outs.outWorkspaces o).length := (List.getElem?_eq_some_iff.mp hw).1
    rw [h.outs.len o ho] at hi
    exact h.outs.wsLive o ho i w hi hw

theorem keybindingSetNws_wellFormed (h : WellFormed tiled s) {nws : ℕ} :
    Ensures (s.keybindingSetNws nws) (WellFormed tiled) := by
  refine Ensures.bind (setNws_loop (I := fun _ _ => True)
    (fun _ _ _ _ _ _ _ _ _ => trivial) _ _ h.outs.nodup (fun _ ho => ho)
    (WellFormed.setNws h nws) rfl trivial) fun s₁ ⟨h₁, hn₁, _⟩ => ?_
  have h₁' : WellFormed tiled s₁ := by
    rw [WellFormed, hn₁]
    exact h₁
  exact Ensures.bind refocus_sameLayout fun s₂ h₂ =>
    Ensures.ok ((h₂.trans emit_sameLayout).toKeepsLayout.wellFormed h₁')

/-! ### Outputs -/

theorem outputInsert_perm {O : Outputs} : (outputInsert O o).Perm (o :: O.outputs) := by
  refine List.perm_middle.trans (List.Perm.cons _ ?_)
  rw [List.takeWhile_append_dropWhile]

/-- A new output gets its workspaces. -/
theorem handleNewOutput_wellFormed (h : WellFormed tiled s) {name : String} {box : LayoutBox} :
    Ensures (s.handleNewOutput name box) (WellFormed tiled) := by
  set O : Outputs := { s.outs with
    outTop := s.outs.outTop + 1
    outLive := Function.update s.outs.outLive s.outs.outTop true
    outName := Function.update s.outs.outName s.outs.outTop name
    outBox := Function.update s.outs.outBox s.outs.outTop box
    sceneOutput := Function.update s.outs.sceneOutput s.outs.outTop true
    outWorkspaces := Function.update s.outs.outWorkspaces s.outs.outTop []
    outCurr := Function.update s.outs.outCurr s.outs.outTop 0
    outPriority := Function.update s.outs.outPriority s.outs.outTop (-1) } with hO
  have hfresh : s.outs.outTop ∉ s.outs.outputs := fun hmem =>
    lt_irrefl _ (h.outs.out_lt _ hmem)
  have hmem : ∀ o, o ∈ outputInsert O s.outs.outTop ↔ o = s.outs.outTop ∨ o ∈ s.outs.outputs :=
    fun o => outputInsert_perm.mem_iff.trans List.mem_cons
  have h₀ : LayoutInv tiled none (Function.update (fun _ => s.outs.nws) s.outs.outTop 0)
      { s with outs := { O with outputs := outputInsert O s.outs.outTop } } := by
    refine ⟨h.tiles, h.cursor, ⟨fun o i w hw => ?_, ?_, fun o ho => ?_, fun o ho => ?_,
      fun o ho => ?_, fun o ho i w hi hw => ?_⟩⟩
    · by_cases e : o = s.outs.outTop
      · simp [hO, e] at hw
      · exact h.outs.place o i w (by simpa [hO, e] using hw)
    · exact outputInsert_perm.nodup_iff.mpr (List.nodup_cons.mpr ⟨hfresh, h.outs.nodup⟩)
    · rcases (hmem o).mp ho with rfl | ho
      · exact Nat.lt_succ_self _
      · exact Nat.lt_succ_of_lt (h.outs.out_lt o ho)
    · rcases (hmem o).mp ho with rfl | ho
      · simp [hO]
      · have e : o ≠ s.outs.outTop := fun e => hfresh (e ▸ ho)
        simpa [hO, e] using h.outs.len o ho
    · rcases (hmem o).mp ho with rfl | ho
      · simp [hO]
      · have e : o ≠ s.outs.outTop := fun e => hfresh (e ▸ ho)
        simpa [hO, e] using h.outs.outLive o ho
    · rcases (hmem o).mp ho with rfl | ho
      · simp [hO] at hw
      · have e : o ≠ s.outs.outTop := fun e => hfresh (e ▸ ho)
        exact h.outs.wsLive o ho i w hi (by simpa [hO, e] using hw)
  -- its array is filled one workspace at a time
  have hloop := appendWorkspaces_inv (k := s.outs.nws) h₀ ((hmem _).mpr (.inl rfl))
  rw [← List.range_eq_range', Nat.zero_add] at hloop
  refine Ensures.bind hloop fun s₁ ⟨h₁, ho₁⟩ => ?_
  have h₁' : WellFormed tiled s₁ := by
    rw [WellFormed, show s₁.outs.nws = s.outs.nws by rw [ho₁]]
    rwa [show Function.update (fun _ => s.outs.nws) s.outs.outTop s.outs.nws =
      fun _ => s.outs.nws from Function.update_eq_self _ _] at h₁
  refine Ensures.bind (workspaceFocus_wellFormed h₁') fun s₂ h₂ => Ensures.ok ?_
  refine emit_sameLayout.toKeepsLayout.wellFormed ?_
  exact LayoutInv.setCurrent h₂ (s₂.outs.currOutput.or (some s.outs.outTop)) s₂.outs.outCurr

theorem WellFormed.eraseOutput (h : WellFormed tiled s) (o : OutPtr) :
    WellFormed tiled { s with outs.outputs := s.outs.outputs.erase o } :=
  ⟨h.tiles, h.cursor, ⟨h.outs.place, h.outs.nodup.erase o,
    fun o' ho' => h.outs.out_lt o' (List.mem_of_mem_erase ho'),
    fun o' ho' => h.outs.len o' (List.mem_of_mem_erase ho'),
    fun o' ho' => h.outs.outLive o' (List.mem_of_mem_erase ho'),
    fun o' ho' => h.outs.wsLive o' (List.mem_of_mem_erase ho')⟩⟩

/-- `output_clear` takes the output out of the list and its views away. -/
theorem outputClear_wellFormed (h : WellFormed tiled s) :
    Ensures (s.outputClear o) fun s' => WellFormed tiled s' ∧ o ∉ s'.outs.outputs := by
  refine Ensures.bind (P := WellFormed tiled) (Ensures.ite
    (fun _ => keybindingCycleOutputs_wellFormed h) fun _ => Ensures.ok h) fun s₁ h₁ => ?_
  refine Ensures.mono (P := KeepsLayout { s₁ with outs.outputs := s₁.outs.outputs.erase o }) ?_
    fun s' h₂ => ⟨h₂.wellFormed (WellFormed.eraseOutput h₁ o), ?_⟩
  · refine Ensures.foldlM (fun s₂ i _ h₂ => ?_) .refl
    refine Ensures.mono (P := KeepsLayout s₂) ?_ fun _ h₃ => h₂.trans h₃
    refine Ensures.bind_any fun w _ => Ensures.bind_any fun l _ => ?_
    refine KeepsLayout.bind (Ensures.foldlM (fun s₃ t _ h₃ =>
      workspaceTileUpdateView_keeps.mono fun _ h₄ => h₃.trans h₄) .refl) fun s₃ _ => ?_
    exact Ensures.bind_any fun wNew _ => KeepsLayout.bind rehomeViews_keeps fun _ _ =>
      rehomeViews_keeps
  · rw [h₂.outs]
    exact List.Nodup.not_mem_erase h₁.outs.nodup

theorem outputDestroy_wellFormed (h : WellFormed tiled s) :
    Ensures (s.outputDestroy o) (WellFormed tiled) := by
  refine Ensures.bind (outputClear_wellFormed h) fun s₁ ⟨h₁, hmem⟩ => ?_
  refine Ensures.bind (P := fun s₂ => LayoutInv tiled none (fun _ => s₁.outs.nws) s₂ ∧
    s₂.outs = s₁.outs) (Ensures.foldlM (fun s₂ i _ h₂ => ?_) ⟨h₁, rfl⟩) fun s₂ ⟨h₂, ho₂⟩ => ?_
  · refine Ensures.bind_any fun w hw => Ensures.deref fun _ => ?_
    refine (workspaceFree_inv h₂.1 ?_).mono fun s₃ ⟨h₃, ho₃⟩ => ⟨h₃, ho₃.trans h₂.2⟩
    -- the workspaces of the output that went away are in no other array
    intro o' ho' j _ hw'
    have h1 := (h₂.1.outs.place o i w (getElem?_of_wsAt hw)).2.1
    have h2 := (h₂.1.outs.place o' j w hw').2.1
    rw [h₂.2] at ho'
    exact hmem (h1.symm.trans h2 ▸ ho')
  · have hne : ∀ o' ∈ s₂.outs.outputs, o' ≠ o := fun o' ho' e => hmem (ho₂ ▸ e ▸ ho')
    have h₃ : WellFormed tiled (({ s₂ with
        outs.outLive := Function.update s₂.outs.outLive o false
        outs.sceneOutput := Function.update s₂.outs.sceneOutput o false }).emit
          (.destroyOutput (s.outs.outName o) (s.outs.outputGetNum o) false)) := by
      refine ⟨h₂.tiles, h₂.cursor, { h₂.outs with
        len := fun o' ho' => ?_
        outLive := fun o' ho' => ?_ }⟩
      · refine (h₂.outs.len o' ho').trans ?_
        simp only [emit, ho₂]
      · simpa [emit, hne o' ho'] using h₂.outs.outLive o' ho'
    refine Ensures.ok ?_
    split
    · exact ⟨h₃.tiles, h₃.cursor, h₃.outs⟩
    · exact h₃

end Server

open Server

/-! ### Every input -/

/-- The command resizes tiles. -/
def Action.resizes : Action → Bool
  | .resizeTileHorizontal _ _ | .resizeTileVertical _ _ => true
  | _ => false

theorem runAction_wellFormed {a : Action} (ha : a.resizes = true → tiled = False)
    (h : WellFormed tiled s) : Ensures (s.runAction a) (WellFormed tiled) := by
  cases a with
  | layoutFullscreen => exact keybindingWorkspaceFullscreen_wellFormed h
  | splitHorizontal => exact Ensures.bind_any fun _ _ => keybindingSplitOutput_wellFormed h
  | splitVertical => exact Ensures.bind_any fun _ _ => keybindingSplitOutput_wellFormed h
  | cycleViews => exact keybindingCycleViews_keeps.mono fun _ h₁ => h₁.wellFormed h
  | cycleTiles =>
    exact Ensures.ite (fun _ => keybindingCycleTiles_wellFormed h)
      fun _ => keybindingFocusTile_wellFormed h
  | cycleOutput => exact keybindingCycleOutputs_wellFormed h
  | switchWorkspace => exact keybindingSwitchWs_wellFormed h
  | switchOutput => exact keybindingSwitchOutput_wellFormed h
  | resizeTileHorizontal =>
    obtain rfl := ha rfl
    exact resizeTile_wellFormed h
  | resizeTileVertical =>
    obtain rfl := ha rfl
    exact resizeTile_wellFormed h
  | moveToTile => exact Ensures.bind_any fun _ _ => keybindingMoveViewToTile_wellFormed h
  | moveToWorkspace => exact Ensures.bind_any fun _ _ => keybindingMoveViewToWorkspace_wellFormed h
  | moveToOutput => exact Ensures.bind_any fun _ _ => keybindingMoveViewToOutput_wellFormed h
  | moveViewToTile => exact keybindingMoveViewToTile_wellFormed h
  | moveViewToWorkspace => exact keybindingMoveViewToWorkspace_wellFormed h
  | moveViewToOutput => exact keybindingMoveViewToOutput_wellFormed h
  | merge =>
    exact Ensures.bind_any fun _ _ => Ensures.ifSome (fun _ => h) fun _ _ => mergeTile_wellFormed h
  | swapDir => exact swapTile_wellFormed h
  | swap => exact Ensures.bind_any fun _ _ => Ensures.bind_any fun _ _ => swapTiles_wellFormed h
  | focus => exact Ensures.bind_any fun _ _ => focusTile_wellFormed h
  | moveViewToCycleOutput => exact keybindingMoveViewToCycleOutput_wellFormed h
  | workspaces => exact keybindingSetNws_wellFormed h

/-- The input is a command that resizes tiles. -/
def Input.resizes : Input → Bool
  | .command a => a.resizes
  | _ => false

theorem WellFormed.setCursorAt (h : WellFormed tiled s) (c : Option (OutPtr × ℚ × ℚ)) :
    WellFormed tiled { s with cursorAt := c } :=
  (keepsLayout_of_eq rfl rfl rfl : KeepsLayout s { s with cursorAt := c }).wellFormed h

theorem WellFormed.init : WellFormed tiled Server.init :=
  ⟨⟨by simp [Server.init], by simp [Server.init], by simp [Server.init], by simp [Server.init],
    by simp [Server.init], by simp [Server.init], by simp [Server.init, uint32Size],
    by simp [Server.init], by simp [Server.init]⟩, by simp [Server.init],
    ⟨by simp [Server.init], by simp [Server.init], by simp [Server.init], by simp [Server.init],
      by simp [Server.init], by simp [Server.init]⟩⟩

/-- **Every input keeps the layout well formed**, and every input but the
resizing commands keeps the partitions. -/
theorem step_wellFormed {i : Input} (hi : i.resizes = true → tiled = False)
    (h : WellFormed tiled s) : Ensures (step s i) (WellFormed tiled) := by
  refine Ensures.ite (fun _ => Ensures.ok h) fun _ => ?_
  cases i with
  | command a => exact runAction_wellFormed hi h
  | outputNew name box cursor => exact handleNewOutput_wellFormed (h.setCursorAt cursor)
  | outputDestroy o cursor =>
    exact Ensures.deref fun _ => outputDestroy_wellFormed (h.setCursorAt cursor)
  | layoutChange o box =>
    exact Ensures.ok ⟨h.tiles, h.cursor, h.outs.congr ⟨rfl, rfl, rfl, rfl⟩
      ⟨rfl, rfl, rfl, rfl, rfl⟩⟩
  | cursorMotion cursor =>
    exact processCursorMotion_sameLayout.mono fun _ h₁ =>
      h₁.toKeepsLayout.wellFormed (h.setCursorAt cursor)
  | viewNew => exact viewInit_keeps.mono fun _ h₁ => h₁.wellFormed h
  | viewMap => exact Ensures.deref fun _ => viewMap_keeps.mono fun _ h₁ => h₁.wellFormed h
  | viewUnmap => exact Ensures.deref fun _ => viewUnmap_keeps.mono fun _ h₁ => h₁.wellFormed h
  | viewDestroy => exact viewDestroy_keeps.mono fun _ h₁ => h₁.wellFormed h

end Cagebreak
