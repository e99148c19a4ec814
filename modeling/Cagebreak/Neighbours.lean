/-
The tile next to a tile.

`find_right_tile` and its siblings look for a tile whose opposite edge is on the
line of an edge, at the height of the centre.  The test is for a row just before
the centre: it is a row of the tile itself unless the tile is only one row high.

* `findTileTowards_iff` — exactly when the search finds the tile at the centre
  of an edge inside the frame, and nothing on the boundary;
* `find_right_lost` — a tile of one row that has no neighbour for the search.
-/
import Cagebreak.Lib.Line
import Cagebreak.TileRuns

/-- The edge of a rectangle at its end (`after`) or its start. -/
def Rect.edge (r : Rect) (a : Axis) (after : Bool) : ℤ :=
  if after then r.coord a + r.dim a else r.coord a

namespace Cagebreak

open Exec Rect

variable {T : Tiles} {F : Rect} {a : Axis} {after : Bool} {w t c c' : TilePtr}

/-! ### What is searched for -/

/-- `c` lies across an edge of `t`: its opposite edge is on the same line, and the
two share a segment of positive length. -/
structure Borders (T : Tiles) (w : WsPtr) (a : Axis) (after : Bool) (t c : TilePtr) : Prop where
  mem : c ∈ T.tilesOf w
  edge : (T.tileBox c).edge a (!after) = (T.tileBox t).edge a after
  meets : (T.tileBox t).Meets a (T.tileBox c)

/-- The extent of `c` across the axis contains the centre of `b`; where two tiles
meet it belongs to the upper or left one. -/
def ContainsCentre (b c : Rect) (a : Axis) : Prop :=
  c.coord a.compl < b.coord a.compl + (b.dim a.compl).tdiv 2 ∧
    b.coord a.compl + (b.dim a.compl).tdiv 2 ≤ c.coord a.compl + c.dim a.compl

/-- The purpose of the search: nothing at the boundary of the frame, else the one
tile across the edge at the centre. -/
def FindsNeighbour (T : Tiles) (F : Rect) (w : WsPtr) (a : Axis) (after : Bool) (t : TilePtr) :
    Option TilePtr → Prop
  | none => (T.tileBox t).edge a after = F.edge a after
  | some c => (T.tileBox t).edge a after ≠ F.edge a after ∧ Borders T w a after t c ∧
      ContainsCentre (T.tileBox t) (T.tileBox c) a ∧
      ∀ c', Borders T w a after t c' → ContainsCentre (T.tileBox t) (T.tileBox c') a → c' = c

/-- The edge is on the boundary, the tile is more than one row high, or a tile
across the edge starts before it. -/
def CentreInside (T : Tiles) (F : Rect) (w : WsPtr) (a : Axis) (after : Bool) (t : TilePtr) :
    Prop :=
  (T.tileBox t).edge a after = F.edge a after ∨ 2 ≤ (T.tileBox t).dim a.compl ∨
    ∃ c, Borders T w a after t c ∧ (T.tileBox c).coord a.compl < (T.tileBox t).coord a.compl

/-! ### The search -/

/-- The search ends, with a tile that passes the test if there is one. -/
theorem findDirTile_spec (h : T.TilesInv False none) (ht : t ∈ T.tilesOf w) (a : Axis)
    (after : Bool) :
    ∃ found, T.findDirTile a after t = .ok found ∧
      (∀ c, found = some c → c ∈ T.tilesOf w ∧ T.facesCentre a after t c = true) ∧
      (found = none → ∀ c ∈ T.tilesOf w, c ≠ t → T.facesCentre a after t c = false) := by
  obtain ⟨r, hr, hmem⟩ := h.ring_of_mem ht
  obtain ⟨l, hl, hperm⟩ := hr.startAt ((hmem t).mpr ht)
  have hmem' : ∀ u, u ∈ t :: l ↔ u ∈ T.tilesOf w := fun u => hperm.mem_iff.trans (hmem u)
  have hlen := h.length_le hl.nodup fun u hu => ((hmem' u).mp hu).1
  rw [List.length_cons] at hlen
  have htest : ∀ u ∈ l, (deref (T.tileLive u) >>= fun _ =>
      (Except.ok (T.facesCentre a after t u) : Exec Bool)) = .ok (T.facesCentre a after t u) := by
    intro u hu
    rw [deref_eq_ok.mpr ((hmem' u).mp (List.mem_cons_of_mem _ hu)).1, ok_bind]
  refine ⟨l.find? (T.facesCentre a after t), ?_, fun c hc => ?_, fun hnone c hc hne => ?_⟩
  · rw [Tiles.findDirTile, deref_eq_ok.mpr ht.1, ok_bind,
      hl.findNode (by omega) fun _ _ => rfl]
    exact findM?_of_total htest
  · refine ⟨(hmem' c).mp (List.mem_cons_of_mem _ (List.mem_of_find?_eq_some hc)), ?_⟩
    exact List.find?_some hc
  · have hcl := (List.mem_cons.mp ((hmem' c).mpr hc)).resolve_left hne
    simpa using List.find?_eq_none.mp hnone c hcl

/-- What the source tests. -/
theorem facesCentre_iff (hpos : 1 ≤ (T.tileBox c).dim a.compl) :
    T.facesCentre a after t c = true ↔
      (T.tileBox c).edge a (!after) = (T.tileBox t).edge a after ∧
        ContainsCentre (T.tileBox t) (T.tileBox c) a := by
  simp only [Tiles.facesCentre, isBetweenStrict, ContainsCentre, Bool.and_eq_true, Bool.or_eq_true,
    decide_eq_true_eq]
  cases after with
  | true =>
    simp only [Rect.edge, if_true, decide_eq_true_eq, Bool.not_true, Bool.false_eq_true, if_false]
    omega
  | false =>
    simp only [Rect.edge, if_true, decide_eq_true_eq, Bool.not_false, Bool.false_eq_true, if_false]
    omega

/-- Two tiles with an edge on the same line and a common row are the same. -/
theorem eq_of_edge (hp : Tiling F (T.tilesOf w) T.tileBox) (hc : c ∈ T.tilesOf w)
    (hc' : c' ∈ T.tilesOf w) {side : Bool}
    (he : (T.tileBox c).edge a side = (T.tileBox c').edge a side) {v : ℤ}
    (hv : (T.tileBox c).Spans a.compl v) (hv' : (T.tileBox c').Spans a.compl v) : c = c' := by
  by_contra hne
  refine hp.apart (a := a) (X := (T.tileBox c').edge a side) hc hc' hne ?_
    ⟨lt_of_le_of_lt hv.1 hv'.2, lt_of_le_of_lt hv'.1 hv.2⟩
  cases side with
  | true => exact .inl ⟨he, rfl⟩
  | false => exact .inr ⟨he, rfl⟩

/-- Across an edge inside the frame lies a tile, in each row. -/
theorem exists_borders (hp : Tiling F (T.tilesOf w) T.tileBox) (ht : t ∈ T.tilesOf w)
    (hin : (T.tileBox t).edge a after ≠ F.edge a after) {v : ℤ}
    (hv : (T.tileBox t).Spans a.compl v) :
    ∃ c, Borders T w a after t c ∧ (T.tileBox c).Spans a.compl v := by
  have hins := hp.inside t ht a
  have hmeets : ∀ c, (T.tileBox c).Spans a.compl v → (T.tileBox t).Meets a (T.tileBox c) :=
    fun c hc => ⟨lt_of_le_of_lt hv.1 hc.2, lt_of_le_of_lt hc.1 hv.2⟩
  cases after with
  | true =>
    simp only [Rect.edge, if_true] at hin
    obtain ⟨c, hc, hs, hcv⟩ := hp.exists_startsAt (a := a) (by omega) ht rfl hv
    exact ⟨c, ⟨hc, hs, hmeets c hcv⟩, hcv⟩
  | false =>
    simp only [Rect.edge, Bool.false_eq_true, if_false] at hin
    obtain ⟨c, hc, he, hcv⟩ := hp.exists_endsAt (a := a) (by omega) ht rfl hv
    exact ⟨c, ⟨hc, he, hmeets c hcv⟩, hcv⟩

/-- Across the boundary of the frame lies nothing. -/
theorem not_edge_of_boundary (hp : Tiling F (T.tilesOf w) T.tileBox) (hc : c ∈ T.tilesOf w)
    (hb : (T.tileBox t).edge a after = F.edge a after) :
    (T.tileBox c).edge a (!after) ≠ (T.tileBox t).edge a after := by
  have hpos := hp.pos c hc a
  have hins := hp.inside c hc a
  cases after with
  | true =>
    simp only [Rect.edge, if_true, Bool.not_true, Bool.false_eq_true, if_false] at hb ⊢
    omega
  | false =>
    simp only [Rect.edge, if_true, Bool.not_false, Bool.false_eq_true, if_false] at hb ⊢
    omega

/-- The centre is in the row before it. -/
theorem containsCentre_iff {b : Rect} : ContainsCentre b (T.tileBox c) a ↔
    (T.tileBox c).Spans a.compl (b.coord a.compl + (b.dim a.compl).tdiv 2 - 1) := by
  simp only [ContainsCentre, Spans]
  omega

/-- **The search for a neighbour** does what it is for exactly when the row before
the centre is good enough. -/
theorem findTileTowards_iff (hinv : T.TilesInv False none)
    (hp : Tiling F (T.tilesOf w) T.tileBox) (ht : t ∈ T.tilesOf w) (dir : Direction) :
    ∃ found, T.findTileTowards dir t = .ok found ∧
      (FindsNeighbour T F w dir.axis dir.after t found ↔
        CentreInside T F w dir.axis dir.after t) := by
  have key : ∀ a after, ∃ found, T.findDirTile a after t = .ok found ∧
      (FindsNeighbour T F w a after t found ↔ CentreInside T F w a after t) := by
    intro a after
    obtain ⟨found, hfound, hsome, hnone⟩ := findDirTile_spec hinv ht a after
    refine ⟨found, hfound, ?_⟩
    have hpos := hp.pos t ht
    by_cases hb : (T.tileBox t).edge a after = F.edge a after
    · refine iff_of_true ?_ (.inl hb)
      cases found with
      | none => exact hb
      | some c =>
        obtain ⟨hc, hface⟩ := hsome c rfl
        rw [facesCentre_iff (hp.pos c hc a.compl)] at hface
        exact absurd hface.1 (not_edge_of_boundary hp hc hb)
    -- a tile across the edge at the centre is the one that is found
    have hunique : ∀ c c', Borders T w a after t c → c' ∈ T.tilesOf w →
        (T.tileBox c').edge a (!after) = (T.tileBox t).edge a after →
        ContainsCentre (T.tileBox t) (T.tileBox c) a →
        ContainsCentre (T.tileBox t) (T.tileBox c') a → c = c' := by
      intro c c' hc hc' he' hcc hcc'
      exact eq_of_edge hp hc.mem hc' (hc.edge.trans he'.symm) (containsCentre_iff.mp hcc)
        (containsCentre_iff.mp hcc')
    have hfinds : (∃ c, Borders T w a after t c ∧ ContainsCentre (T.tileBox t) (T.tileBox c) a) →
        FindsNeighbour T F w a after t found := by
      rintro ⟨c, hc, hcc⟩
      have hface : T.facesCentre a after t c = true :=
        (facesCentre_iff (hp.pos c hc.mem a.compl)).mpr ⟨hc.edge, hcc⟩
      have hct : c ≠ t := by
        rintro rfl
        have hedge := hc.edge
        have := hpos a
        cases after with
        | true =>
          simp only [Rect.edge, if_true, Bool.not_true, Bool.false_eq_true, if_false] at hedge
          omega
        | false =>
          simp only [Rect.edge, if_true, Bool.not_false, Bool.false_eq_true, if_false] at hedge
          omega
      cases hf : found with
      | none =>
        rw [hnone hf c hc.mem hct] at hface
        exact absurd hface (by simp)
      | some c' =>
        obtain ⟨hc', hface'⟩ := hsome c' hf
        rw [facesCentre_iff (hp.pos c' hc' a.compl)] at hface'
        obtain rfl := hunique c c' hc hc' hface'.1 hcc hface'.2
        exact ⟨hb, hc, hcc, fun c' hc' hcc' => hunique c' c hc' hc.mem hc.edge hcc' hcc⟩
    constructor
    · intro hfinds
      cases found with
      | none => exact absurd hfinds hb
      | some c =>
        obtain ⟨-, hc, hcc, -⟩ := hfinds
        by_cases h2 : 2 ≤ (T.tileBox t).dim a.compl
        · exact .inr (.inl h2)
        · have h1 := hpos a.compl
          have hdim : (T.tileBox t).dim a.compl = 1 := by omega
          refine .inr (.inr ⟨c, hc, ?_⟩)
          rw [ContainsCentre, hdim] at hcc
          simpa using hcc.1
    · have h1 := hpos a.compl
      intro h
      by_cases h2 : 2 ≤ (T.tileBox t).dim a.compl
      · -- the row before the centre is one of the tile
        have hhalf : ((T.tileBox t).dim a.compl).tdiv 2 = (T.tileBox t).dim a.compl / 2 :=
          Int.tdiv_eq_ediv_of_nonneg (by omega)
        have hv : (T.tileBox t).Spans a.compl
            ((T.tileBox t).coord a.compl + ((T.tileBox t).dim a.compl).tdiv 2 - 1) := by
          simp only [Spans, hhalf]
          omega
        obtain ⟨c, hc, hcv⟩ := exists_borders hp ht hb hv
        exact hfinds ⟨c, hc, containsCentre_iff.mpr hcv⟩
      · obtain ⟨c, hc, hlt⟩ := (h.resolve_left hb).resolve_left h2
        have hdim : (T.tileBox t).dim a.compl = 1 := by omega
        have hm := hc.meets.1
        refine hfinds ⟨c, hc, ?_⟩
        rw [ContainsCentre, hdim]
        simp
        omega
  cases dir <;> exact key _ _

/-! ### Tiles of one row -/

/-- A tenth of a size, rounded down. -/
def tenth : Percentage where
  scale n := n / 10
  scale_nonneg n hn := by omega
  scale_lt n hn := by omega

/-- An output with a tile of one row in its upper left corner. -/
def oneRow : List Input :=
  [.outputNew "HDMI-A-1" tenByTen none,
    .command (.splitVertical half), .command (.splitHorizontal tenth)]

theorem exists_oneRow (p : Server → Prop) [DecidablePred p]
    (h : returns (run step Server.init oneRow) (fun s => decide (s.tiles.wsLive 0 = true ∧
      s.tiles.wsFrame 0 = ⟨0, 0, 10, 10⟩ ∧ p s)) = true) :
    ∃ s, Reachable s ∧ Tiling ⟨0, 0, 10, 10⟩ (s.tiles.tilesOf 0) s.tiles.tileBox ∧ p s := by
  obtain ⟨s, hs, hp⟩ := exists_of_returns h
  obtain ⟨hlive, hframe, hp⟩ := of_decide_eq_true hp
  have hpart : s.Partitioned :=
    tilesPartition (Steps.of_run hs (by simp [oneRow, Input.resizes, Action.resizes]))
  obtain ⟨b, hb, htiling⟩ := hpart 0 hlive
  rw [← hb, hframe] at htiling
  exact ⟨s, Steps.of_run hs (by simp), htiling, hp⟩

/-- The tile of one row has a tile at its right, which the search does not find. -/
theorem find_right_lost : ¬ ∀ (s : Server) (F : Rect) (w : WsPtr) (t : TilePtr) (dir : Direction)
    (found : Option TilePtr), Reachable s → Tiling F (s.tiles.tilesOf w) s.tiles.tileBox →
    t ∈ s.tiles.tilesOf w → s.tiles.findTileTowards dir t = .ok found →
    FindsNeighbour s.tiles F w dir.axis dir.after t found := by
  intro hall
  obtain ⟨s, hr, hp, hlive, hws, hfound, hedge⟩ := exists_oneRow (fun s =>
    s.tiles.tileLive 0 = true ∧ s.tiles.tileWorkspace 0 = 0 ∧
      s.tiles.findTileTowards .right 0 = .ok none ∧
      (s.tiles.tileBox 0).edge .horizontal true ≠ 10) (by decide)
  have h := hall s _ 0 0 .right none hr hp ⟨hlive, hws⟩ hfound
  exact hedge h

/-- The search to the right from the large tile below it. -/
theorem findTileTowards_large : ∃ (s : Server) (found : Option TilePtr),
    s.tiles.findTileTowards .right 2 = .ok found ∧
      (FindsNeighbour s.tiles ⟨0, 0, 10, 10⟩ 0 .horizontal true 2 found ↔
        CentreInside s.tiles ⟨0, 0, 10, 10⟩ 0 .horizontal true 2) := by
  obtain ⟨s, hr, hp, hlive, hws⟩ := exists_oneRow (fun s =>
    s.tiles.tileLive 2 = true ∧ s.tiles.tileWorkspace 2 = 0) (by decide)
  obtain ⟨found, hfound, hiff⟩ :=
    findTileTowards_iff hr.wellFormed.tiles hp ⟨hlive, hws⟩ .right
  exact ⟨s, found, hfound, hiff⟩

end Cagebreak
