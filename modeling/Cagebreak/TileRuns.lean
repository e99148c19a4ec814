/-
The tiles in every run.

What `step_wellFormed` keeps is read off for every state that is reached:

* `tilesPartition` — without resizing, the tiles of every workspace partition
  the rectangle it was last made full screen with;
* `reachable_rings` — the tiles of every workspace form one ring, which every
  loop over tiles comes back on, and `tile_from_id` has one answer at most.
-/
import Cagebreak.LayoutInv

namespace Cagebreak

open Exec

variable {s s' : Server}

/-- What holds between two commands holds in every state reached. -/
theorem WellFormed.of_steps {tiled : Prop} {ok : Server → Input → Prop}
    (hok : ∀ s i, ok s i → i.resizes = true → tiled = False) (h : WellFormed tiled s)
    (hs : Steps step ok s s') : WellFormed tiled s' :=
  hs.invariant h fun _ _ ht hi => step_wellFormed (hok _ _ hi) ht

theorem Reachable.wellFormed (h : Reachable s) : WellFormed False s :=
  WellFormed.init.of_steps (fun _ _ _ _ => rfl) h

/-! ### Tiles partition the frame of their workspace -/

/-- The tiles of every workspace partition its frame, a nonempty rectangle at
the origin. -/
def Server.Partitioned (s : Server) : Prop :=
  ∀ w, s.tiles.wsLive w = true → ∃ b : LayoutBox, s.tiles.wsFrame w = b.frame ∧
    Tiling b.frame (s.tiles.tilesOf w) s.tiles.tileBox

theorem WellFormed.partitioned (h : WellFormed True s) : s.Partitioned := by
  intro w hw
  obtain ⟨b, hb⟩ := h.tiles.frame w hw (by simp)
  refine ⟨b, hb, ?_⟩
  rw [← hb]
  exact h.tiles.tiling trivial w hw (by simp)

/-- **Tiles partition the frame** of their workspace in every run without
resizing. -/
theorem tilesPartition (h : Steps step (fun _ i => i.resizes = false) Server.init s) :
    s.Partitioned := by
  have hwf : WellFormed True s :=
    WellFormed.init.of_steps (fun _ i hi hi' => by simp [hi] at hi') h
  exact hwf.partitioned

/-- Half of an odd size is rounded down. -/
def half : Percentage where
  scale n := n / 2
  scale_nonneg n hn := by omega
  scale_lt n hn := by omega

/-- A square output at the origin. -/
def tenByTen : LayoutBox := ⟨0, 0, 10, 10, by decide, by decide⟩

/-- A smaller one at its right. -/
def sixBySix : LayoutBox := ⟨10, 0, 6, 6, by decide, by decide⟩

/-- An output that is wider than high. -/
def eightBySix : LayoutBox := ⟨0, 0, 8, 6, by decide, by decide⟩

/-- An output of that size at its right. -/
def besideEightBySix : LayoutBox := ⟨8, 0, 8, 6, by decide, by decide⟩

/-- Two splits of an output, and a merge. -/
theorem tilesPartition_split : ∃ s, run step Server.init
    [.outputNew "HDMI-A-1" ⟨0, 0, 7, 5, by decide, by decide⟩ none,
      .command (.splitVertical half), .command (.splitHorizontal half),
      .command (.merge .bottom 0)] = .ok s ∧ s.tiles.tileTop = 3 ∧ s.Partitioned := by
  obtain ⟨s, hs, h⟩ := exists_of_returns (p := fun s => decide (s.tiles.tileTop = 3))
    (m := run step Server.init
      [.outputNew "HDMI-A-1" ⟨0, 0, 7, 5, by decide, by decide⟩ none,
        .command (.splitVertical half), .command (.splitHorizontal half),
        .command (.merge .bottom 0)]) (by decide)
  exact ⟨s, hs, of_decide_eq_true h, tilesPartition (Steps.of_run hs (by simp [Input.resizes,
    Action.resizes]))⟩

/-! ### Rings of tiles -/

namespace Tiles

variable {T : Tiles} {tiled : Prop} {w t : ℕ}

/-- A ring read from its focused tile. -/
theorem TilesInv.exists_ring (h : T.TilesInv tiled none) (hw : T.wsLive w = true) :
    ∃ f l, T.focusedTile w = .ok f ∧ T.tileLinks.IsRing (f :: l) ∧ l.length ≤ T.tileTop ∧
      ∀ t, t ∈ f :: l ↔ t ∈ T.tilesOf w := by
  obtain ⟨f, hf, hfw⟩ := h.focused w hw (by simp)
  obtain ⟨r, hr, hmem⟩ := h.ring w hw (by simp)
  obtain ⟨l, hl, hperm⟩ := hr.startAt ((hmem f).mpr hfw)
  have hmem' : ∀ t, t ∈ f :: l ↔ t ∈ T.tilesOf w := fun t => hperm.mem_iff.trans (hmem t)
  refine ⟨f, l, ?_, hl, ?_, hmem'⟩
  · rw [focusedTile, deref_eq_ok.mpr hw, ok_bind, nonNull_eq_ok]
    exact hf
  · have := h.length_le hl.nodup fun u hu => ((hmem' u).mp hu).1
    rw [List.length_cons] at this
    omega

/-- A loop over all tiles of a workspace ends, and has seen each of them once. -/
theorem TilesInv.ringOf (h : T.TilesInv tiled none) (hw : T.wsLive w = true) :
    ∃ f l, T.focusedTile w = .ok f ∧ T.ringOf w = .ok (f :: l) ∧ (f :: l).Nodup ∧
      ∀ t, t ∈ f :: l ↔ t ∈ T.tilesOf w := by
  obtain ⟨f, l, hf, hl, hlen, hmem⟩ := h.exists_ring hw
  refine ⟨f, l, hf, ?_, hl.nodup, hmem⟩
  rw [Tiles.ringOf, hf, ok_bind, hl.collect (Nat.lt_succ_of_le hlen) fun _ _ => rfl]
  rfl

/-- A loop over the tiles of a workspace ends, and finds the tiles of the
workspace that satisfy its test. -/
theorem TilesInv.findTile (h : T.TilesInv tiled none) (hw : T.wsLive w = true)
    {p : TilePtr → Exec Bool} {q : TilePtr → Bool} (hp : ∀ t ∈ T.tilesOf w, p t = .ok (q t)) :
    ∃ found, T.findTile w p = .ok found ∧
      (∀ t, found = some t → t ∈ T.tilesOf w ∧ q t = true) ∧
      (found = none → ∀ t ∈ T.tilesOf w, q t = false) := by
  obtain ⟨f, l, hf, hl, hlen, hmem⟩ := h.exists_ring hw
  have htest : ∀ t ∈ f :: l, (deref (T.tileLive t) >>= fun _ => p t) = .ok (q t) := by
    intro t ht
    have ht' := (hmem t).mp ht
    rw [deref_eq_ok.mpr ht'.1, ok_bind, hp t ht']
  have hfind : T.findTile w p = .ok ((f :: l).find? q) := by
    rw [Tiles.findTile, hf, ok_bind]
    change ((deref (T.tileLive f) >>= fun _ => p f) >>= fun b =>
      if b then (Except.ok (some f) : Exec _) else DLinks.findNode T.tileLinks.next f
        (fun t => deref (T.tileLive t) >>= fun _ => p t) (T.tileTop + 1)
        (T.tileLinks.next f)) = _
    rw [htest f List.mem_cons_self, ok_bind, List.find?_cons]
    cases q f with
    | true => rfl
    | false =>
      rw [if_neg (by simp), hl.findNode (Nat.lt_succ_of_le hlen) fun _ _ => rfl]
      exact findM?_of_total fun t ht => htest t (List.mem_cons_of_mem _ ht)
  refine ⟨_, hfind, fun t ht => ?_, fun hnone t ht => ?_⟩
  · exact ⟨(hmem t).mp (List.mem_of_find?_eq_some ht), List.find?_some ht⟩
  · simpa using List.find?_eq_none.mp hnone t ((hmem t).mpr ht)

end Tiles

/-- Every workspace of every connected output is there. -/
theorem OutsInv.wsAt {len : OutPtr → ℕ} {T : Tiles} {O : Outputs} (h : OutsInv len T O)
    (hlen : ∀ o, len o = O.nws) {o : OutPtr} (ho : o ∈ O.outputs) {i : ℕ} (hi : i < O.nws) :
    ∃ w, O.wsAt o i = .ok w ∧ T.wsLive w = true ∧ T.wsOutput w = o ∧ T.wsNum w = i := by
  have hi' : i < (O.outWorkspaces o).length := by rwa [h.len o ho, hlen]
  have hw := List.getElem?_eq_getElem hi'
  obtain ⟨-, h1, h2⟩ := h.place o i _ hw
  refine ⟨_, ?_, h.wsLive o ho i _ hi hw, h1, h2⟩
  rw [Outputs.wsAt, deref_eq_ok.mpr (h.outLive o ho), ok_bind, nonNull_eq_ok]
  exact hw

/-- The search for an id ends, with a tile of this id if it finds one. -/
theorem WellFormed.tileFromId (h : WellFormed False s) (id : ℕ) :
    ∃ found, s.tileFromId id = .ok found ∧
      ∀ t, found = some t → s.tiles.tileLive t = true ∧ s.tiles.tileId t = id := by
  refine findSomeM?_of_total fun o ho => findSomeM?_of_total fun i hi => ?_
  obtain ⟨w, hw, hlive, -⟩ := h.outs.wsAt (fun _ => rfl) ho (List.mem_range.mp hi)
  obtain ⟨found, hf, hsome, -⟩ := h.tiles.findTile hlive
    (q := fun t => decide (id = s.tiles.tileId t)) fun _ _ => rfl
  refine ⟨found, ?_, fun t ht => ?_⟩
  · rw [hw, ok_bind, hf]
  · obtain ⟨h1, h2⟩ := hsome t ht
    exact ⟨h1.1, (of_decide_eq_true h2).symm⟩

/-- What holds of tiles, workspaces and the pointers to them in every state that
is reached. -/
structure Server.RingsSound (s : Server) : Prop where
  /-- The loop over the tiles of a workspace starts at the focused tile, ends,
  and visits every tile of the workspace once. -/
  ring : ∀ w, s.tiles.wsLive w = true → ∃ f l, s.tiles.focusedTile w = .ok f ∧
    s.tiles.ringOf w = .ok (f :: l) ∧ (f :: l).Nodup ∧
    ∀ t, t ∈ f :: l ↔ s.tiles.tileLive t = true ∧ s.tiles.tileWorkspace t = w
  /-- Both neighbours of a tile point back at it and are tiles of its workspace,
  which is allocated. -/
  linked : ∀ t, s.tiles.tileLive t = true → s.tiles.wsLive (s.tiles.tileWorkspace t) = true ∧
    ∃ n p, n ∈ s.tiles.tilesOf (s.tiles.tileWorkspace t) ∧
      p ∈ s.tiles.tilesOf (s.tiles.tileWorkspace t) ∧
      s.tiles.tileLinks.next t = some n ∧ s.tiles.tileLinks.prev n = some t ∧
      s.tiles.tileLinks.prev t = some p ∧ s.tiles.tileLinks.next p = some t
  focused : ∀ w f, s.tiles.wsLive w = true → s.tiles.wsFocused w = some f →
    f ∈ s.tiles.tilesOf w
  cursor : ∀ t, s.cursorTile = some t → s.tiles.tileLive t = true
  workspaces : ∀ o ∈ s.outs.outputs, ∀ i < s.outs.nws,
    ∃ w, s.outs.wsAt o i = .ok w ∧ s.tiles.wsLive w = true
  /-- Every loop that is left early ends too. -/
  search : ∀ w, s.tiles.wsLive w = true → ∀ p : TilePtr → Bool,
    ∃ found, s.tiles.findTile w (fun t => .ok (p t)) = .ok found
  ids : s.tiles.tileTop < uint32Size → ∀ t u, s.tiles.tileLive t = true →
    s.tiles.tileLive u = true → s.tiles.tileId t = s.tiles.tileId u → t = u
  /-- `tile_from_id` ends, and a tile it finds is the only one with this id. -/
  fromId : s.tiles.tileTop < uint32Size → ∀ id, ∃ found, s.tileFromId id = .ok found ∧
    ∀ t, found = some t → s.tiles.tileLive t = true ∧
      ∀ u, s.tiles.tileLive u = true → (s.tiles.tileId u = id ↔ u = t)

theorem WellFormed.ringsSound (h : WellFormed False s) : s.RingsSound where
  ring w hw := h.tiles.ringOf hw
  linked t ht := by
    obtain ⟨hw, -⟩ := h.tiles.tile_ws t ht
    have hr := h.tiles.ring _ hw (by simp)
    obtain ⟨n, hn, hn'⟩ := hr.exists_next ⟨ht, rfl⟩
    obtain ⟨p, hp, hp'⟩ := hr.exists_prev ⟨ht, rfl⟩
    exact ⟨hw, n, p, hn, hp, hn'.1, hn'.2, hp'.2, hp'.1⟩
  focused w f hw hf := by
    obtain ⟨g, hg, hgw⟩ := h.tiles.focused w hw (by simp)
    rwa [Option.some_inj.mp (hf.symm.trans hg)]
  cursor := h.cursor
  workspaces o ho i hi := by
    obtain ⟨w, hw, hlive, -⟩ := h.outs.wsAt (fun _ => rfl) ho hi
    exact ⟨w, hw, hlive⟩
  search w hw p := by
    obtain ⟨found, hf, -⟩ := h.tiles.findTile hw (q := p) fun _ _ => rfl
    exact ⟨found, hf⟩
  ids htop t u ht hu he := h.tiles.id_inj htop ht hu he
  fromId htop id := by
    obtain ⟨found, hf, hsome⟩ := h.tileFromId id
    refine ⟨found, hf, fun t ht => ?_⟩
    obtain ⟨hlive, hid⟩ := hsome t ht
    refine ⟨hlive, fun u hu => ⟨fun he => ?_, fun he => he ▸ hid⟩⟩
    exact h.tiles.id_inj htop hu hlive (he.trans hid.symm)

/-- **Rings of tiles stay sound** in every run. -/
theorem reachable_rings (h : Reachable s) : s.RingsSound := h.wellFormed.ringsSound

/-- Two outputs, one of which goes away, splits, and a change of the number of
workspaces. -/
theorem reachable_rings_twoOutputs : ∃ s, run step Server.init
    [.outputNew "HDMI-A-1" ⟨0, 0, 7, 5, by decide, by decide⟩ none,
      .outputNew "DP-1" ⟨7, 0, 4, 4, by decide, by decide⟩ none,
      .command (.splitVertical half), .command (.workspaces ⟨2, by decide⟩),
      .outputDestroy 1 none, .command (.splitHorizontal half)] = .ok s ∧
    s.tiles.tileTop = 6 ∧ s.RingsSound := by
  obtain ⟨s, hs, h⟩ := exists_of_returns (p := fun s => decide (s.tiles.tileTop = 6))
    (m := run step Server.init
      [.outputNew "HDMI-A-1" ⟨0, 0, 7, 5, by decide, by decide⟩ none,
        .outputNew "DP-1" ⟨7, 0, 4, 4, by decide, by decide⟩ none,
        .command (.splitVertical half), .command (.workspaces ⟨2, by decide⟩),
        .outputDestroy 1 none, .command (.splitHorizontal half)]) (by decide)
  exact ⟨s, hs, of_decide_eq_true h, reachable_rings (Steps.of_run hs (by simp))⟩

end Cagebreak
