/-
The current output and its current workspace.

While the display has not been terminated the current output is one of the
connected ones, and the current workspace of an output is one of its workspaces.
So there always is a focused tile (`exists_curTile`), and the search for the id of
a tile that is on a connected output finds one (`tileFromId_spec`).
-/
import Cagebreak.TileRuns

namespace Cagebreak

open Exec Server

/-- The current output is connected, and current workspaces exist. -/
structure CurrentInv (O : Outputs) : Prop where
  output : ∀ o, O.currOutput = some o → o ∈ O.outputs
  workspace : ∀ o ∈ O.outputs, O.outCurr o < O.nws

namespace Server

variable {s s' : Server} {t m : TilePtr} {v : ViewPtr} {w : WsPtr} {o : OutPtr} {id : ℕ}
  {tiled : Prop}

/-- A tile of a workspace of a connected output. -/
structure Placed (s : Server) (t : TilePtr) : Prop where
  live : s.tiles.tileLive t = true
  output : s.tiles.wsOutput (s.tiles.tileWorkspace t) ∈ s.outs.outputs
  num : s.tiles.wsNum (s.tiles.tileWorkspace t) < s.outs.nws
  wsAt : s.outs.wsAt (s.tiles.wsOutput (s.tiles.tileWorkspace t))
    (s.tiles.wsNum (s.tiles.tileWorkspace t)) = .ok (s.tiles.tileWorkspace t)

theorem Placed.of_mem (h : WellFormed tiled s) (ho : o ∈ s.outs.outputs) {i : ℕ}
    (hi : i < s.outs.nws) (hw : s.outs.wsAt o i = .ok w) (ht : t ∈ s.tiles.tilesOf w) :
    s.Placed t := by
  obtain ⟨-, hout, hnum⟩ := h.outs.place o i w (getElem?_of_wsAt hw)
  obtain ⟨hlive, rfl⟩ := ht
  refine ⟨hlive, ?_, ?_, ?_⟩
  · rw [hout]
    exact ho
  · rw [hnum]
    exact hi
  · rw [hout, hnum]
    exact hw

/-- The tiles of one workspace are placed alike. -/
theorem Placed.same (h : s.Placed t) (hm : m ∈ s.tiles.tilesOf (s.tiles.tileWorkspace t)) :
    s.Placed m := by
  obtain ⟨hlive, hw⟩ := hm
  refine ⟨hlive, ?_, ?_, ?_⟩
  · rw [hw]
    exact h.output
  · rw [hw]
    exact h.num
  · rw [hw]
    exact h.wsAt

/-- **`tile_from_id`** finds a tile with the id, if there is one. -/
theorem tileFromId_spec (h : WellFormed False s) (id : ℕ) :
    ∃ found, s.tileFromId id = .ok found ∧
      (∀ t, found = some t → s.Placed t ∧ s.tiles.tileId t = id) ∧
      (found = none → ∀ t, s.Placed t → s.tiles.tileId t ≠ id) := by
  have hone : ∀ o ∈ s.outs.outputs, ∀ i < s.outs.nws, ∃ found, (do
      let w ← s.outs.wsAt o i
      s.tiles.findTile w fun t => .ok (decide (id = s.tiles.tileId t))) = .ok found ∧
      (∀ t, found = some t → s.Placed t ∧ s.tiles.tileId t = id) ∧
      (found = none → ∀ t, s.outs.wsAt o i = .ok (s.tiles.tileWorkspace t) →
        s.tiles.tileLive t = true → s.tiles.tileId t ≠ id) := by
    intro o ho i hi
    obtain ⟨w, hw, hlive, -⟩ := h.outs.wsAt (fun _ => rfl) ho hi
    obtain ⟨found, hf, hsome, hnone⟩ := h.tiles.findTile hlive
      (q := fun t => decide (id = s.tiles.tileId t)) fun _ _ => rfl
    refine ⟨found, ?_, fun t ht => ?_, fun hn t hwt hl => ?_⟩
    · rw [hw, ok_bind, hf]
    · obtain ⟨hmem, htest⟩ := hsome t ht
      exact ⟨.of_mem h ho hi hw hmem, (of_decide_eq_true htest).symm⟩
    · obtain rfl : w = s.tiles.tileWorkspace t := Except.ok.inj (hw.symm.trans hwt)
      have htest := hnone hn t ⟨hl, rfl⟩
      exact fun hid => of_decide_eq_false htest hid.symm
  obtain ⟨found, hfound, hsome⟩ := findSomeM?_of_total (l := s.outs.outputs)
    (f := fun o => (List.range s.outs.nws).findSomeM? fun i => do
      let w ← s.outs.wsAt o i
      s.tiles.findTile w fun t => .ok (decide (id = s.tiles.tileId t)))
    (Q := fun t => s.Placed t ∧ s.tiles.tileId t = id) fun o ho =>
      findSomeM?_of_total fun i hi => by
        obtain ⟨found, hf, hsome, -⟩ := hone o ho i (List.mem_range.mp hi)
        exact ⟨found, hf, hsome⟩
  refine ⟨found, hfound, hsome, fun hn t ht => ?_⟩
  subst hn
  -- the search has been through the workspace of the tile
  have hout := eq_none_of_findSomeM? hfound _ ht.output
  have hws := eq_none_of_findSomeM? hout _ (List.mem_range.mpr ht.num)
  obtain ⟨found, hf, -, hnone⟩ := hone _ ht.output _ ht.num
  rw [hf] at hws
  exact hnone (Except.ok.inj hws) t ht.wsAt ht.live

theorem tileFromId_placed (h : WellFormed False s) : Ensures (s.tileFromId id) fun found =>
    ∀ t, found = some t → s.Placed t ∧ s.tiles.tileId t = id := by
  obtain ⟨found, hfound, hsome, -⟩ := tileFromId_spec h id
  intro found' hfound'
  obtain rfl : found = found' := Except.ok.inj (hfound.symm.trans hfound')
  exact hsome

/-! ### The focused tile -/

theorem curTile_eq_ok : s.curTile = .ok t ↔ ∃ o w, s.outs.currOutput = some o ∧
    s.outs.wsAt o (s.outs.outCurr o) = .ok w ∧ s.tiles.focusedTile w = .ok t := by
  rw [curTile, Outputs.curWs, Outputs.curOut]
  constructor
  · intro ht
    obtain ⟨w, hw, hf⟩ := bind_eq_ok.mp ht
    obtain ⟨o, ho, hw⟩ := bind_eq_ok.mp hw
    exact ⟨o, w, nonNull_eq_ok.mp ho, hw, hf⟩
  · rintro ⟨o, w, ho, hw, hf⟩
    rw [nonNull_eq_ok.mpr ho, ok_bind, hw, ok_bind, hf]

/-- There is a focused tile, and it is on a connected output. -/
theorem exists_curTile (h : WellFormed False s) (hc : CurrentInv s.outs)
    (ho : s.outs.currOutput = some o) : ∃ t, s.curTile = .ok t ∧ s.Placed t := by
  have hmem := hc.output o ho
  obtain ⟨w, hw, hlive, -⟩ := h.outs.wsAt (fun _ => rfl) hmem (hc.workspace o hmem)
  obtain ⟨f, l, hf, -, -, hring⟩ := h.tiles.exists_ring hlive
  have hfw : f ∈ s.tiles.tilesOf w := (hring f).mp List.mem_cons_self
  exact ⟨f, curTile_eq_ok.mpr ⟨o, w, ho, hw, hf⟩, .of_mem h hmem (hc.workspace o hmem) hw hfw⟩

theorem curTile_placed (h : WellFormed False s) (hc : CurrentInv s.outs)
    (ht : s.curTile = .ok t) : s.Placed t := by
  obtain ⟨o, w, ho, hw, hf⟩ := curTile_eq_ok.mp ht
  have hmem := hc.output o ho
  exact .of_mem h hmem (hc.workspace o hmem) hw (h.tiles.focused_mem (by simp) hf).2

theorem addressedTile_placed (h : WellFormed False s) (hc : CurrentInv s.outs) :
    Ensures (s.addressedTile id) fun found => ∀ t, found = some t → s.Placed t := by
  refine Ensures.ite (fun _ => Ensures.bind_any fun f hf => Ensures.ok fun t ht => ?_) fun _ =>
    (tileFromId_placed h).mono fun found hfound t ht => (hfound t ht).1
  obtain rfl := Option.some.inj ht
  exact curTile_placed h hc hf

theorem addressedTile_live (h : WellFormed False s) (ht : s.addressedTile id = .ok (some t)) :
    s.tiles.tileLive t = true := by
  rw [addressedTile] at ht
  split at ht
  · obtain ⟨f, hf, hft⟩ := bind_eq_ok.mp ht
    obtain rfl : f = t := Option.some.inj (Except.ok.inj hft)
    obtain ⟨w, -, hfw⟩ := bind_eq_ok.mp hf
    exact (h.tiles.focused_mem (by simp) hfw).2.1
  · obtain ⟨found, hfound, hsome⟩ := h.tileFromId id
    exact (hsome t (Except.ok.inj (hfound.symm.trans ht))).1

/-! ### Every input -/

theorem CurrentInv.setOutput {O : Outputs} (h : CurrentInv O) (ho : o ∈ O.outputs) :
    CurrentInv { O with currOutput := some o } := by
  refine ⟨fun p hp => ?_, h.workspace⟩
  obtain rfl : o = p := Option.some.inj hp
  exact ho

theorem CurrentInv.setWorkspace {O : Outputs} (h : CurrentInv O) {ws : ℕ} (hws : ws < O.nws) :
    CurrentInv { O with outCurr := Function.update O.outCurr o ws } := by
  refine ⟨h.output, fun p hp => ?_⟩
  by_cases hpo : p = o
  · subst hpo
    simpa using hws
  · simpa [hpo] using h.workspace p hp

/-- An operation keeps the outputs that are connected and their workspaces. -/
structure Turned (s s' : Server) : Prop where
  current : CurrentInv s'.outs
  outputs : s'.outs.outputs = s.outs.outputs

theorem KeepsLayout.turned (h : KeepsLayout s s') (hc : CurrentInv s.outs) : Turned s s' := by
  refine ⟨?_, ?_⟩
  · rw [h.outs]
    exact hc
  · rw [h.outs]

theorem Turned.trans {s'' : Server} (h : Turned s s') (h' : Turned s' s'') : Turned s s'' :=
  ⟨h'.current, h'.outputs.trans h.outputs⟩

theorem setOutput_turned (hc : CurrentInv s.outs) (ho : o ∈ s.outs.outputs) :
    Ensures (s.setOutput o) (Turned s) := by
  have hset : CurrentInv ({ s with outs.currOutput := some o } : Server).outs :=
    CurrentInv.setOutput hc ho
  exact refocus_sameLayout.mono fun s' h' => ⟨(h'.turned hset).current, (h'.turned hset).outputs⟩

theorem mem_of_cycleOutput {l : List OutPtr} {reverse : Bool}
    (h : cycleOutput l o reverse = some t) : t ∈ l := by
  rw [cycleOutput] at h
  split at h
  · cases h
  · exact List.mem_of_getElem? h

theorem workspaceFocus_turned (hc : CurrentInv s.outs) {ws : ℕ} :
    Ensures (s.workspaceFocus o ws) (Turned s) := by
  refine workspaceFocus_spec.mono ?_
  rintro s' (⟨rfl, -⟩ | ⟨rfl, hws⟩)
  · exact ⟨hc, rfl⟩
  · exact ⟨CurrentInv.setWorkspace hc hws, rfl⟩

/-! ### Where a command focuses a tile -/

/-- The current output and its current workspace are those of the tile. -/
structure At (s : Server) (t : TilePtr) : Prop where
  placed : s.Placed t
  output : s.outs.currOutput = some (s.tiles.wsOutput (s.tiles.tileWorkspace t))
  workspace : s.outs.outCurr (s.tiles.wsOutput (s.tiles.tileWorkspace t)) =
    s.tiles.wsNum (s.tiles.tileWorkspace t)

theorem At.curWs (h : s.At t) : s.outs.curWs = .ok (s.tiles.tileWorkspace t) := by
  rw [Outputs.curWs, Outputs.curOut, nonNull_eq_ok.mpr h.output, ok_bind, h.workspace]
  exact h.placed.wsAt

/-- Focusing a tile of the current workspace. -/
theorem workspaceFocusTile_curTile (hw : s.outs.curWs = .ok w)
    (hs : s.workspaceFocusTile w t = .ok s') : s'.curTile = .ok t := by
  obtain ⟨_, hlive, hs⟩ := bind_eq_ok.mp hs
  obtain rfl := Except.ok.inj hs
  have hwlive := (Bool.and_eq_true_iff.mp (deref_eq_ok.mp hlive)).1
  show (s.outs.curWs >>= fun w' => _) = _
  rw [hw, ok_bind, Tiles.focusedTile, deref_eq_ok.mpr hwlive, ok_bind, nonNull_eq_ok]
  simp

/-- Only the current output and the current workspaces of the outputs differ. -/
structure SameArrays (s s' : Server) : Prop where
  tiles : s'.tiles = s.tiles
  outs : s'.outs = { s.outs with currOutput := s'.outs.currOutput, outCurr := s'.outs.outCurr }

theorem SameArrays.trans {s'' : Server} (h : SameArrays s s') (h' : SameArrays s' s'') :
    SameArrays s s'' :=
  ⟨h'.tiles.trans h.tiles, by rw [h'.outs, h.outs]⟩

theorem KeepsLayout.sameArrays (h : KeepsLayout s s') : SameArrays s s' :=
  ⟨h.tiles, by rw [h.outs]⟩

theorem Placed.congr (h : s.Placed t) (hs : SameArrays s s') : s'.Placed t := by
  obtain ⟨htiles, houts⟩ := hs
  constructor
  · rw [htiles]
    exact h.live
  · rw [htiles, houts]
    exact h.output
  · rw [htiles, houts]
    exact h.num
  · rw [htiles, houts]
    exact h.wsAt

theorem setOutput_outs : Ensures (s.setOutput o) fun s' =>
    s'.tiles = s.tiles ∧ s'.outs = { s.outs with currOutput := some o } :=
  refocus_sameLayout.mono fun _ h => ⟨h.tiles, h.outs⟩

theorem keybindingSwitchWs_outs {ws : ℕ} (hws : ws < s.outs.nws)
    (ho : s.outs.currOutput = some o) : Ensures (s.keybindingSwitchWs ws) fun s' =>
    s'.tiles = s.tiles ∧
      s'.outs = { s.outs with outCurr := Function.update s.outs.outCurr o ws } := by
  refine Ensures.ite (fun hle => absurd hws (not_lt.mpr hle)) fun _ =>
    Ensures.bind_any fun o' ho' => ?_
  obtain rfl : o = o' := Option.some.inj (ho.symm.trans (nonNull_eq_ok.mp ho'))
  refine Ensures.bind workspaceFocus_spec fun s₁ h₁ => ?_
  rcases h₁ with ⟨-, hle⟩ | ⟨rfl, -⟩
  · exact absurd hws (not_lt.mpr hle)
  · refine Ensures.bind_any fun w _ => Ensures.bind_any fun f _ =>
      Ensures.bind seatSetFocus_keeps fun s₂ h₂ => Ensures.ok ?_
    exact ⟨h₂.tiles, h₂.outs⟩

/-- **What `keybinding_focus_tile` does**, when it finds the tile: it goes to the
output of the tile, to its workspace, to the tile, and to the view of the tile. -/
theorem keybindingFocusTile_cases (h : WellFormed False s) {id : ℕ} :
    Ensures (s.keybindingFocusTile id) fun s' =>
      s.tileFromId id = .ok none ∧ s' = s ∨
      ∃ t s₁ s₂ s₃ s₄ e, s.tileFromId id = .ok (some t) ∧
        (s₁ = s ∨ s.setOutput (s.tiles.wsOutput (s.tiles.tileWorkspace t)) = .ok s₁) ∧
        (s₂ = s₁ ∨ s₁.keybindingSwitchWs (s.tiles.wsNum (s.tiles.tileWorkspace t)) = .ok s₂) ∧
        s₂.At t ∧ s₂.workspaceFocusTile (s.tiles.tileWorkspace t) t = .ok s₃ ∧
        s₃.curTile = .ok t ∧ s₃.seatSetFocus (s₃.disp.tileView t) = .ok s₄ ∧ s' = s₄.emit e := by
  refine Ensures.bind_any fun o ho => Ensures.bind_any fun w _ => Ensures.bind_any fun oldTile _ =>
    Ensures.bind_any fun tile htile => Ensures.ifSome ?_ fun t ht =>
      Ensures.bind_any fun ot hot => ?_
  · rintro rfl
    exact .inl ⟨htile, rfl⟩
  subst ht
  have hplaced : s.Placed t := (tileFromId_placed h _ htile t rfl).1
  obtain rfl : s.tiles.wsOutput (s.tiles.tileWorkspace t) = ot := by
    obtain ⟨_, -, hot⟩ := bind_eq_ok.mp hot
    obtain ⟨_, -, hot⟩ := bind_eq_ok.mp hot
    obtain ⟨_, -, hot⟩ := bind_eq_ok.mp hot
    exact Except.ok.inj hot
  have ho' := nonNull_eq_ok.mp ho
  -- first to the output of the tile
  refine Ensures.bind (P := fun s₁ => (s₁ = s ∨
    s.setOutput (s.tiles.wsOutput (s.tiles.tileWorkspace t)) = .ok s₁) ∧ SameArrays s s₁ ∧
    s₁.outs.currOutput = some (s.tiles.wsOutput (s.tiles.tileWorkspace t))) ?_ ?_
  · refine Ensures.ite (fun he => Ensures.ok ⟨.inl rfl, ⟨rfl, rfl⟩, ?_⟩) fun _ s₁ hs₁ => ?_
    · rw [← he]
      exact ho'
    · obtain ⟨htiles, houts⟩ := setOutput_outs _ hs₁
      exact ⟨.inr hs₁, ⟨htiles, by rw [houts]⟩, by rw [houts]⟩
  rintro s₁ ⟨hs₁, hsame₁, hcur₁⟩
  refine Ensures.bind_any fun oc hoc => ?_
  obtain rfl := Option.some.inj (hcur₁.symm.trans (nonNull_eq_ok.mp hoc))
  -- then to its workspace
  refine Ensures.bind (P := fun s₂ => (s₂ = s₁ ∨
    s₁.keybindingSwitchWs (s.tiles.wsNum (s.tiles.tileWorkspace t)) = .ok s₂) ∧
    s₂.At t ∧ s₂.tiles = s.tiles) ?_ ?_
  · have hplaced₁ := hplaced.congr hsame₁
    refine Ensures.ite (fun he => Ensures.ok ⟨.inl rfl, ⟨hplaced₁, ?_, ?_⟩, hsame₁.tiles⟩)
      fun _ s₂ hs₂ => ?_
    · rw [hsame₁.tiles]
      exact hcur₁
    · rw [hsame₁.tiles] at he ⊢
      exact he
    · rw [hsame₁.tiles] at hs₂
      have hnum : s.tiles.wsNum (s.tiles.tileWorkspace t) < s₁.outs.nws := by
        rw [hsame₁.outs]
        exact hplaced.num
      obtain ⟨htiles₂, houts₂⟩ := keybindingSwitchWs_outs hnum hcur₁ s₂ hs₂
      refine ⟨.inr hs₂, ⟨hplaced₁.congr ⟨htiles₂, by rw [houts₂]⟩, ?_, ?_⟩,
        htiles₂.trans hsame₁.tiles⟩
      · rw [htiles₂, hsame₁.tiles, houts₂]
        exact hcur₁
      · rw [htiles₂, hsame₁.tiles, houts₂]
        simp
  rintro s₂ ⟨hs₂, hat, htiles₂⟩
  refine Ensures.bind_any fun s₃ hs₃ => Ensures.bind_any fun s₄ hs₄ => Ensures.ok (.inr ?_)
  refine ⟨t, s₁, s₂, s₃, s₄, _, htile, hs₁, hs₂, hat, hs₃, ?_, hs₄, rfl⟩
  rw [← htiles₂] at hs₃
  exact workspaceFocusTile_curTile hat.curWs hs₃

end Server

end Cagebreak
