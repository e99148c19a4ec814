/-
Tiles and workspaces stay well formed.

`TilesInv tiled hole T`: the tiles of every workspace form one ring with the
focused tile in it, their ids are those of the counter, and, if `tiled` holds,
their boxes partition the frame of the workspace.  The workspace `hole`, if
there is one, is exempt: its tiles have just been freed or not been made yet.

Each change the program makes to tiles keeps the invariant: `TilesInv.focus`,
`TilesInv.split`, `TilesInv.merge`, `TilesInv.freeTiles`, `TilesInv.fill`,
`TilesInv.addWs`, `TilesInv.freeWs`, `TilesInv.setBoxes`.
-/
import Cagebreak.State
import Mathlib.Data.List.Perm.Subperm

namespace Cagebreak

open Exec

theorem LayoutBox.one_le_dim (b : LayoutBox) : ∀ a, 1 ≤ b.frame.dim a
  | .horizontal => b.width_pos
  | .vertical => b.height_pos

namespace Tiles

/-- The tiles of a workspace. -/
def tilesOf (T : Tiles) (w : WsPtr) : Set TilePtr :=
  {t | T.tileLive t = true ∧ T.tileWorkspace t = w}

theorem mem_tilesOf {T : Tiles} {t : TilePtr} {w : WsPtr} :
    t ∈ T.tilesOf w ↔ T.tileLive t = true ∧ T.tileWorkspace t = w := Iff.rfl

/-- The tiles of every workspace but `hole` form a ring, and a partition of the
frame if `tiled` holds. -/
structure TilesInv (tiled : Prop) (hole : Option WsPtr) (T : Tiles) : Prop where
  tile_lt : ∀ t : ℕ, T.tileLive t = true → t < T.tileTop
  ws_lt : ∀ w : ℕ, T.wsLive w = true → w < T.wsTop
  tile_ws : ∀ t, T.tileLive t = true →
    T.wsLive (T.tileWorkspace t) = true ∧ hole ≠ some (T.tileWorkspace t)
  focused : ∀ w, T.wsLive w = true → hole ≠ some w →
    ∃ f, T.wsFocused w = some f ∧ f ∈ T.tilesOf w
  ring : ∀ w, T.wsLive w = true → hole ≠ some w → T.tileLinks.RingOn (T.tilesOf w)
  id : ∀ t : ℕ, T.tileLive t = true → T.tileId t = (t + 1) % uint32Size
  currId : T.tilesCurrId = (T.tileTop + 1) % uint32Size
  frame : ∀ w, T.wsLive w = true → hole ≠ some w → ∃ b : LayoutBox, T.wsFrame w = b.frame
  tiling : tiled → ∀ w, T.wsLive w = true → hole ≠ some w →
    Tiling (T.wsFrame w) (T.tilesOf w) T.tileBox

/-- `T'` has no tiles in `w` any more and is otherwise like `T`. -/
structure Freed (T : Tiles) (w : WsPtr) (T' : Tiles) : Prop where
  tileTop : T'.tileTop = T.tileTop
  tileLive : ∀ t, T'.tileLive t = true ↔ T.tileLive t = true ∧ T.tileWorkspace t ≠ w
  tileWorkspace : T'.tileWorkspace = T.tileWorkspace
  tileBox : T'.tileBox = T.tileBox
  next : ∀ t, T'.tileLive t = true → T'.tileLinks.next t = T.tileLinks.next t
  prev : T'.tileLinks.prev = T.tileLinks.prev
  tileId : T'.tileId = T.tileId
  tilesCurrId : T'.tilesCurrId = T.tilesCurrId
  wsTop : T'.wsTop = T.wsTop
  wsLive : T'.wsLive = T.wsLive
  wsOutput : T'.wsOutput = T.wsOutput
  wsNum : T'.wsNum = T.wsNum
  wsFocused : ∀ w', w' ≠ w → T'.wsFocused w' = T.wsFocused w'
  wsFrame : T'.wsFrame = T.wsFrame

theorem Freed.tilesOf {T T' : Tiles} {w w' : WsPtr} (h : Freed T w T') (hw : w' ≠ w) :
    T'.tilesOf w' = T.tilesOf w' := by
  ext u
  rw [mem_tilesOf, mem_tilesOf, h.tileLive, h.tileWorkspace]
  refine ⟨fun hu => ⟨hu.1.1, hu.2⟩, fun hu => ⟨⟨hu.1, ?_⟩, hu.2⟩⟩
  rw [hu.2]
  exact hw

namespace TilesInv

variable {tiled : Prop} {hole : Option WsPtr} {T T' : Tiles} {w f t m p n : ℕ}

theorem focused_mem (h : TilesInv tiled hole T) (hw : hole ≠ some w)
    (hf : T.focusedTile w = .ok f) : T.wsLive w = true ∧ f ∈ T.tilesOf w := by
  obtain ⟨_, hlive, hfoc⟩ := bind_eq_ok.mp hf
  rw [deref_eq_ok] at hlive
  rw [nonNull_eq_ok] at hfoc
  obtain ⟨f', hf', hmem⟩ := h.focused w hlive hw
  rw [Option.some_inj.mp (hfoc.symm.trans hf')]
  exact ⟨hlive, hmem⟩

theorem ring_of_mem (h : TilesInv tiled hole T) (ht : t ∈ T.tilesOf w) :
    T.tileLinks.RingOn (T.tilesOf w) := by
  obtain ⟨hlive, rfl⟩ := ht
  obtain ⟨hw, hh⟩ := h.tile_ws t hlive
  exact h.ring _ hw hh

/-- There are no more tiles in a ring than tiles have ever been made. -/
theorem length_le (h : TilesInv tiled hole T) {l : List TilePtr} (hl : l.Nodup)
    (hlive : ∀ u ∈ l, T.tileLive u = true) : l.length ≤ T.tileTop := by
  have hsub : l ⊆ List.range T.tileTop :=
    fun u hu => List.mem_range.mpr (h.tile_lt u (hlive u hu))
  simpa using (List.subperm_of_subset hl hsub).length_le

/-- Tiles made before the counter wraps around have different ids. -/
theorem id_inj (h : TilesInv tiled hole T) (htop : T.tileTop < uint32Size)
    (ht : T.tileLive t = true) (hm : T.tileLive m = true) (he : T.tileId t = T.tileId m) :
    t = m := by
  have h1 := h.tile_lt t ht
  have h2 := h.tile_lt m hm
  rw [h.id t ht, h.id m hm, Nat.mod_eq_of_lt (by omega), Nat.mod_eq_of_lt (by omega)] at he
  omega

/-- The partition may be forgotten. -/
theorem untiled (h : TilesInv tiled hole T) : TilesInv False hole T :=
  { h with tiling := fun hf => hf.elim }

/-! ### Focusing and resizing -/

theorem focus (h : TilesInv tiled hole T) (ht : t ∈ T.tilesOf w) :
    TilesInv tiled hole { T with wsFocused := Function.update T.wsFocused w (some t) } := by
  refine { h with focused := fun w' hw' hh => ?_ }
  by_cases e : w' = w
  · subst e
    exact ⟨t, by simp, ht⟩
  · obtain ⟨f, hf, hfw⟩ := h.focused w' hw' hh
    exact ⟨f, by simpa [e] using hf, hfw⟩

/-- Without the partition, boxes may be anything. -/
theorem setBoxes (h : TilesInv False hole T) (b : TilePtr → Rect) :
    TilesInv False hole { T with tileBox := b } :=
  { h with tiling := fun hf => hf.elim }

/-! ### Splitting and merging -/

/-- A new tile behind `f` takes over a part of its box. -/
theorem split (h : TilesInv tiled hole T) (hf : f ∈ T.tilesOf w) (hc : T.tileLinks.next f = some n)
    {a : Axis} {k : ℤ} (hk : tiled → 1 ≤ k ∧ k < (T.tileBox f).dim a) :
    TilesInv tiled hole { T with
      tileTop := T.tileTop + 1
      tileLive := Function.update T.tileLive T.tileTop true
      tileWorkspace := Function.update T.tileWorkspace T.tileTop w
      tileBox := Function.update (Function.update T.tileBox T.tileTop
          ((T.tileBox f).setSpan a ((T.tileBox f).coord a + k) ((T.tileBox f).dim a - k)))
        f ((T.tileBox f).setSpan a ((T.tileBox f).coord a) k)
      tileLinks := T.tileLinks.insert f T.tileTop n
      tileId := Function.update T.tileId T.tileTop T.tilesCurrId
      tilesCurrId := (T.tilesCurrId + 1) % uint32Size } := by
  obtain ⟨hlive, rfl⟩ := hf
  obtain ⟨hw, hh⟩ := h.tile_ws f hlive
  have hne : ∀ u : ℕ, T.tileLive u = true → u ≠ T.tileTop := fun u hu e => by
    have := h.tile_lt u hu
    omega
  have htop : T.tileLive T.tileTop ≠ true := fun e => hne _ e rfl
  set T' : Tiles := { T with
      tileTop := T.tileTop + 1
      tileLive := Function.update T.tileLive T.tileTop true
      tileWorkspace := Function.update T.tileWorkspace T.tileTop (T.tileWorkspace f)
      tileBox := Function.update (Function.update T.tileBox T.tileTop
          ((T.tileBox f).setSpan a ((T.tileBox f).coord a + k) ((T.tileBox f).dim a - k)))
        f ((T.tileBox f).setSpan a ((T.tileBox f).coord a) k)
      tileLinks := T.tileLinks.insert f T.tileTop n
      tileId := Function.update T.tileId T.tileTop T.tilesCurrId
      tilesCurrId := (T.tilesCurrId + 1) % uint32Size } with hT'
  -- the workspace of `f` gets the new tile, the others keep theirs
  have hself : T'.tilesOf (T.tileWorkspace f) =
      insert T.tileTop (T.tilesOf (T.tileWorkspace f)) := by
    ext u
    by_cases e : u = T.tileTop <;> simp [hT', tilesOf, e]
  have hother : ∀ w', w' ≠ T.tileWorkspace f → T'.tilesOf w' = T.tilesOf w' := by
    intro w' e
    ext u
    by_cases e' : u = T.tileTop
    · subst e'
      simp [hT', tilesOf, htop, Ne.symm e]
    · simp [hT', tilesOf, e']
  have hnew : ∀ w', T.tileTop ∉ T.tilesOf w' := fun w' hm => htop hm.1
  refine ⟨?_, h.ws_lt, ?_, ?_, ?_, ?_, ?_, h.frame, ?_⟩
  · intro u hu
    by_cases e : u = T.tileTop
    · subst e
      exact Nat.lt_succ_self _
    · exact Nat.lt_succ_of_lt (h.tile_lt u (by simpa [hT', e] using hu))
  · intro u hu
    by_cases e : u = T.tileTop
    · simpa [hT', e] using ⟨hw, hh⟩
    · simpa [hT', e] using h.tile_ws u (by simpa [hT', e] using hu)
  · intro w' hw' hh'
    obtain ⟨g, hg, hgw⟩ := h.focused w' hw' hh'
    refine ⟨g, hg, ?_⟩
    by_cases e : w' = T.tileWorkspace f
    · subst e
      rw [hself]
      exact Set.mem_insert_of_mem _ hgw
    · rwa [hother w' e]
  · intro w' hw' hh'
    by_cases e : w' = T.tileWorkspace f
    · subst e
      rw [hself]
      exact (h.ring _ hw hh).insert ⟨hlive, rfl⟩ (hnew _) hc
    · rw [hother w' e]
      have hn := (h.ring _ hw hh).next_mem ⟨hlive, rfl⟩ hc
      exact (h.ring w' hw' hh').insert_of_notMem (fun hf => e hf.2.symm) (hnew _)
        fun hn' => e (hn'.2.symm.trans hn.2)
  · intro u hu
    by_cases e : u = T.tileTop
    · subst e
      simp [hT', h.currId]
    · simpa [hT', e] using h.id u (by simpa [hT', e] using hu)
  · simp [hT', h.currId]
  · intro htiled w' hw' hh'
    obtain ⟨hk1, hk2⟩ := hk htiled
    have hft : f ≠ T.tileTop := hne f hlive
    by_cases e : w' = T.tileWorkspace f
    · subst e
      rw [hself]
      refine (h.tiling htiled _ hw hh).split (i := f) ⟨hlive, rfl⟩ (hnew _) hk1 hk2 ?_ ?_ ?_
      · simp [hT']
      · simp [hT', hft.symm]
      · intro u hu huf
        simp [hT', huf, hne u hu.1]
    · rw [hother w' e]
      refine (h.tiling htiled _ hw' hh').congr fun u hu => ?_
      have h1 : u ≠ f := fun e' => e (e' ▸ hu.2.symm)
      simp [hT', h1, hne u hu.1]

/-- `f` gets the box of its neighbour `m`, which goes away. -/
theorem merge (h : TilesInv tiled hole T) (hf : f ∈ T.tilesOf w) (hm : m ∈ T.tilesOf w)
    (hfm : f ≠ m) (hp : T.tileLinks.prev m = some p) (hn : T.tileLinks.next m = some n) {a : Axis}
    {b : Rect} (hb : tiled → ((T.tileBox m).coord a = (T.tileBox f).coord a + (T.tileBox f).dim a ∨
        (T.tileBox m).coord a + (T.tileBox m).dim a = (T.tileBox f).coord a) ∧
      (T.tileBox f).coord a.compl = (T.tileBox m).coord a.compl ∧
      (T.tileBox f).dim a.compl = (T.tileBox m).dim a.compl ∧
      b = (T.tileBox f).setSpan a (min ((T.tileBox m).coord a) ((T.tileBox f).coord a))
        ((T.tileBox m).dim a + (T.tileBox f).dim a)) :
    TilesInv tiled hole { T with
      tileLive := Function.update T.tileLive m false
      tileLinks := T.tileLinks.unlink p m n
      wsFocused := if T.wsFocused w = some m then Function.update T.wsFocused w (some f)
        else T.wsFocused
      tileBox := Function.update T.tileBox f b } := by
  obtain ⟨hflive, hfw⟩ := hf
  obtain ⟨hmlive, rfl⟩ := hm
  obtain ⟨hw, hh⟩ := h.tile_ws m hmlive
  set T' : Tiles := { T with
      tileLive := Function.update T.tileLive m false
      tileLinks := T.tileLinks.unlink p m n
      wsFocused := if T.wsFocused (T.tileWorkspace m) = some m
        then Function.update T.wsFocused (T.tileWorkspace m) (some f) else T.wsFocused
      tileBox := Function.update T.tileBox f b } with hT'
  have hlive : ∀ u : ℕ, T'.tileLive u = true ↔ T.tileLive u = true ∧ u ≠ m := by
    intro u
    by_cases e : u = m <;> simp [hT', e]
  -- the workspace of `m` loses it, the others keep their tiles
  have hself : T'.tilesOf (T.tileWorkspace m) = T.tilesOf (T.tileWorkspace m) \ {m} := by
    ext u
    rw [mem_tilesOf, hlive, Set.mem_sdiff, mem_tilesOf, Set.mem_singleton_iff]
    tauto
  have hother : ∀ w', w' ≠ T.tileWorkspace m → T'.tilesOf w' = T.tilesOf w' := by
    intro w' e
    ext u
    rw [mem_tilesOf, hlive, mem_tilesOf]
    refine ⟨fun hu => ⟨hu.1.1, hu.2⟩, fun hu => ⟨⟨hu.1, ?_⟩, hu.2⟩⟩
    rintro rfl
    exact e hu.2.symm
  refine ⟨fun u hu => h.tile_lt u ((hlive u).mp hu).1, h.ws_lt,
    fun u hu => h.tile_ws u ((hlive u).mp hu).1, ?_, ?_,
    fun u hu => h.id u ((hlive u).mp hu).1, h.currId, h.frame, ?_⟩
  · intro w' hw' hh'
    obtain ⟨g, hg, hgw⟩ := h.focused w' hw' hh'
    by_cases e : w' = T.tileWorkspace m
    · subst e
      rw [hself]
      by_cases hgm : g = m
      · exact ⟨f, by simp [hT', hg, hgm], ⟨hflive, hfw⟩, hfm⟩
      · exact ⟨g, by simp [hT', hg, hgm], hgw, hgm⟩
    · refine ⟨g, ?_, by rwa [hother w' e]⟩
      by_cases hwm : T.wsFocused (T.tileWorkspace m) = some m <;> simp [hT', hwm, e, hg]
  · intro w' hw' hh'
    by_cases e : w' = T.tileWorkspace m
    · subst e
      rw [hself]
      exact (h.ring _ hw hh).unlink ⟨hmlive, rfl⟩ ⟨hflive, hfw⟩ hfm hp hn
    · rw [hother w' e]
      have hp' := (h.ring _ hw hh).prev_mem ⟨hmlive, rfl⟩ hp
      have hn' := (h.ring _ hw hh).next_mem ⟨hmlive, rfl⟩ hn
      exact (h.ring w' hw' hh').unlink_of_notMem (fun hu => e (hu.2.symm.trans hp'.2))
        (fun hu => e hu.2.symm) fun hu => e (hu.2.symm.trans hn'.2)
  · intro htiled w' hw' hh'
    obtain ⟨hadj, hcoord, hdim, rfl⟩ := hb htiled
    by_cases e : w' = T.tileWorkspace m
    · subst e
      rw [hself]
      refine (h.tiling htiled _ hw hh).merge (i := f) ⟨hflive, hfw⟩ ⟨hmlive, rfl⟩ hfm hadj
        hcoord hdim (by simp [hT']) fun u hu huf hum => ?_
      simp [hT', huf]
    · rw [hother w' e]
      refine (h.tiling htiled _ hw' hh').congr fun u hu => ?_
      have h1 : u ≠ f := fun e' => e (hu.2.symm.trans (e' ▸ hfw))
      simp [hT', h1]

/-! ### Freeing and refilling a workspace -/

theorem freeTiles (h : TilesInv tiled none T) (hT : Freed T w T') : TilesInv tiled (some w) T' := by
  have hne : ∀ w', (some w : Option WsPtr) ≠ some w' → w' ≠ w := fun w' hh e => hh (by rw [e])
  refine ⟨?_, ?_, ?_, ?_, ?_, ?_, ?_, ?_, ?_⟩
  · intro u hu
    rw [hT.tileTop]
    exact h.tile_lt u ((hT.tileLive u).mp hu).1
  · intro w' hw'
    rw [hT.wsTop]
    exact h.ws_lt w' (by rwa [hT.wsLive] at hw')
  · intro u hu
    obtain ⟨hu, huw⟩ := (hT.tileLive u).mp hu
    rw [hT.tileWorkspace, hT.wsLive]
    exact ⟨(h.tile_ws u hu).1, fun e => huw (Option.some_inj.mp e).symm⟩
  · intro w' hw' hh
    rw [hT.wsFocused w' (hne w' hh), hT.tilesOf (hne w' hh)]
    exact h.focused w' (by rwa [hT.wsLive] at hw') (by simp)
  · intro w' hw' hh
    have hr := h.ring w' (by rwa [hT.wsLive] at hw') (by simp)
    rw [← hT.tilesOf (hne w' hh)] at hr
    exact hr.congr (fun u hu => hT.next u hu.1) fun u _ => by rw [hT.prev]
  · intro u hu
    rw [hT.tileId]
    exact h.id u ((hT.tileLive u).mp hu).1
  · rw [hT.tilesCurrId, hT.tileTop]
    exact h.currId
  · intro w' hw' hh
    rw [hT.wsFrame]
    exact h.frame w' (by rwa [hT.wsLive] at hw') (by simp)
  · intro htiled w' hw' hh
    rw [hT.wsFrame, hT.tilesOf (hne w' hh), hT.tileBox]
    exact h.tiling htiled w' (by rwa [hT.wsLive] at hw') (by simp)

/-- A workspace without tiles gets one that fills its frame. -/
theorem fill (h : TilesInv tiled (some w) T) (hw : T.wsLive w = true) (b : LayoutBox) :
    TilesInv tiled none { T with
      tileTop := T.tileTop + 1
      tileLive := Function.update T.tileLive T.tileTop true
      tileWorkspace := Function.update T.tileWorkspace T.tileTop w
      tileBox := Function.update T.tileBox T.tileTop b.frame
      tileLinks := ⟨Function.update T.tileLinks.next T.tileTop (some T.tileTop),
        Function.update T.tileLinks.prev T.tileTop (some T.tileTop)⟩
      tileId := Function.update T.tileId T.tileTop T.tilesCurrId
      tilesCurrId := (T.tilesCurrId + 1) % uint32Size
      wsFocused := Function.update T.wsFocused w (some T.tileTop)
      wsFrame := Function.update T.wsFrame w b.frame } := by
  have hne : ∀ u : ℕ, T.tileLive u = true → u ≠ T.tileTop := fun u hu e => by
    have := h.tile_lt u hu
    omega
  have htop : T.tileLive T.tileTop ≠ true := fun e => hne _ e rfl
  set T' : Tiles := { T with
      tileTop := T.tileTop + 1
      tileLive := Function.update T.tileLive T.tileTop true
      tileWorkspace := Function.update T.tileWorkspace T.tileTop w
      tileBox := Function.update T.tileBox T.tileTop b.frame
      tileLinks := ⟨Function.update T.tileLinks.next T.tileTop (some T.tileTop),
        Function.update T.tileLinks.prev T.tileTop (some T.tileTop)⟩
      tileId := Function.update T.tileId T.tileTop T.tilesCurrId
      tilesCurrId := (T.tilesCurrId + 1) % uint32Size
      wsFocused := Function.update T.wsFocused w (some T.tileTop)
      wsFrame := Function.update T.wsFrame w b.frame } with hT'
  have hself : T'.tilesOf w = {T.tileTop} := by
    ext u
    by_cases e : u = T.tileTop
    · simp [hT', tilesOf, e]
    · -- the workspace had no tile left
      have : T.tileLive u = true → T.tileWorkspace u ≠ w := fun hu e' =>
        (h.tile_ws u hu).2 (by rw [e'])
      simpa [hT', tilesOf, e] using this
  -- no other workspace gets a tile
  have hother : ∀ w', w' ≠ w → T'.tilesOf w' = T.tilesOf w' := by
    intro w' e
    ext u
    by_cases e' : u = T.tileTop
    · subst e'
      simp [hT', tilesOf, htop, Ne.symm e]
    · simp [hT', tilesOf, e']
  have hh : ∀ w', w' ≠ w → (some w : Option WsPtr) ≠ some w' := fun w' e e' =>
    e (Option.some_inj.mp e').symm
  refine ⟨?_, h.ws_lt, ?_, ?_, ?_, ?_, ?_, ?_, ?_⟩
  · intro u hu
    by_cases e : u = T.tileTop
    · subst e
      exact Nat.lt_succ_self _
    · exact Nat.lt_succ_of_lt (h.tile_lt u (by simpa [hT', e] using hu))
  · intro u hu
    by_cases e : u = T.tileTop
    · simpa [hT', e] using hw
    · simpa [hT', e] using (h.tile_ws u (by simpa [hT', e] using hu)).1
  · intro w' hw' _
    by_cases e : w' = w
    · subst e
      exact ⟨T.tileTop, by simp [hT'], by simp [hself]⟩
    · rw [hother w' e]
      simpa [hT', e] using h.focused w' hw' (hh w' e)
  · intro w' hw' _
    by_cases e : w' = w
    · subst e
      rw [hself]
      exact DLinks.RingOn.singleton (by simp [hT']) (by simp [hT'])
    · rw [hother w' e]
      refine (h.ring w' hw' (hh w' e)).congr (fun u hu => ?_) fun u hu => ?_
      · simp [hT', hne u hu.1]
      · simp [hT', hne u hu.1]
  · intro u hu
    by_cases e : u = T.tileTop
    · subst e
      simp [hT', h.currId]
    · simpa [hT', e] using h.id u (by simpa [hT', e] using hu)
  · simp [hT', h.currId]
  · intro w' hw' _
    by_cases e : w' = w
    · exact ⟨b, by simp [hT', e]⟩
    · simpa [hT', e] using h.frame w' hw' (hh w' e)
  · intro htiled w' hw' _
    by_cases e : w' = w
    · subst e
      rw [hself]
      simpa [hT'] using Tiling.single b.one_le_dim (i := T.tileTop) (by simp)
    · rw [hother w' e]
      have := h.tiling htiled w' hw' (hh w' e)
      simp only [hT', ne_eq, e, not_false_eq_true, Function.update_of_ne]
      exact this.congr fun u hu => by simp [hne u hu.1]

/-! ### New and freed workspaces -/

theorem addWs (h : TilesInv tiled none T) (o : OutPtr) (num : ℕ) : TilesInv tiled (some T.wsTop)
    { T with
      wsTop := T.wsTop + 1
      wsLive := Function.update T.wsLive T.wsTop true
      wsOutput := Function.update T.wsOutput T.wsTop o
      wsNum := Function.update T.wsNum T.wsTop num } := by
  have hne : ∀ w' : ℕ, T.wsLive w' = true → w' ≠ T.wsTop := fun w' hw' e => by
    have := h.ws_lt w' hw'
    omega
  have hold : ∀ w' : ℕ, Function.update T.wsLive T.wsTop true w' = true →
      (some T.wsTop : Option WsPtr) ≠ some w' → T.wsLive w' = true := by
    intro w' hw' hh
    have : w' ≠ T.wsTop := fun e => hh (by rw [e])
    simpa [this] using hw'
  refine ⟨h.tile_lt, ?_, ?_, ?_, ?_, h.id, h.currId, ?_, ?_⟩
  · intro w' hw'
    by_cases e : w' = T.wsTop
    · subst e
      exact Nat.lt_succ_self _
    · exact Nat.lt_succ_of_lt (h.ws_lt w' (by simpa [e] using hw'))
  · intro u hu
    have := (h.tile_ws u hu).1
    have hne' := hne _ this
    exact ⟨by simpa [hne'] using this, fun e => hne' (Option.some_inj.mp e).symm⟩
  · exact fun w' hw' hh => h.focused w' (hold w' hw' hh) (by simp)
  · exact fun w' hw' hh => h.ring w' (hold w' hw' hh) (by simp)
  · exact fun w' hw' hh => h.frame w' (hold w' hw' hh) (by simp)
  · exact fun htiled w' hw' hh => h.tiling htiled w' (hold w' hw' hh) (by simp)

theorem freeWs (h : TilesInv tiled (some w) T) :
    TilesInv tiled none { T with wsLive := Function.update T.wsLive w false } := by
  have hold : ∀ w' : ℕ, Function.update T.wsLive w false w' = true →
      T.wsLive w' = true ∧ (some w : Option WsPtr) ≠ some w' := by
    intro w' hw'
    by_cases e : w' = w
    · simp [e] at hw'
    · exact ⟨by simpa [e] using hw', fun e' => e (Option.some_inj.mp e').symm⟩
  refine ⟨h.tile_lt, fun w' hw' => h.ws_lt w' (hold w' hw').1, ?_, ?_, ?_, h.id, h.currId, ?_, ?_⟩
  · intro u hu
    obtain ⟨h1, h2⟩ := h.tile_ws u hu
    have : T.tileWorkspace u ≠ w := fun e => h2 (by rw [e])
    exact ⟨by simpa [this] using h1, by simp⟩
  · exact fun w' hw' _ => h.focused w' (hold w' hw').1 (hold w' hw').2
  · exact fun w' hw' _ => h.ring w' (hold w' hw').1 (hold w' hw').2
  · exact fun w' hw' _ => h.frame w' (hold w' hw').1 (hold w' hw').2
  · exact fun htiled w' hw' _ => h.tiling htiled w' (hold w' hw').1 (hold w' hw').2

end TilesInv

end Tiles

end Cagebreak
