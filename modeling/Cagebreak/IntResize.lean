/-
Resizing tiles in the `int`s of the program.

`resize_tile` and the two recursions below it once more, with every sum, difference and
negation of coordinates and sizes in 32 bits.

* `resizeAlongInt_eq` — in a partitioned workspace only the first sum can overflow, the
  one that the pixel count is checked with;
* `resize_overflows_iff` — the same for the commands, in every run that keeps workspaces
  partitioned.
-/
import Cagebreak.Frames
import Cagebreak.Lib.Outcome
import Cagebreak.Lib.Overflow
import Cagebreak.ParseOperands
import Cagebreak.ResizeRuns

namespace Cagebreak

open Exec Rect Overflow

/-- The values of an `int`. -/
def IsInt (n : ℤ) : Prop := -2 ^ 31 ≤ n ∧ n < 2 ^ 31

instance : DecidablePred IsInt := fun _ => inferInstanceAs (Decidable (_ ∧ _))

/-- A computation with `int`s. -/
abbrev IntExec (α : Type) := Except (Stop Fault) α

/-- The result of an operation on `int`s. -/
def int (n : ℤ) : IntExec ℤ := checked IsInt n

namespace Server

/-! ### The code -/

/-- The test of `intervalls_intersect` that `resize_allowed` and `resize` make. -/
def meetAcrossInt (T : Tiles) (a : Axis) (tile it : TilePtr) : IntExec Bool := do
  let b := T.tileBox tile
  let c := T.tileBox it
  let far ← int (b.coord a.compl + b.dim a.compl)
  let far' ← int (c.coord a.compl + c.dim a.compl)
  .ok (intervallsIntersect (b.coord a.compl) far (c.coord a.compl) far')

/-- The offsets handed on to `it` when `tile` gets the given ones. -/
def handedOnInt (T : Tiles) (a : Axis) (tile it : TilePtr) (coordOffset dimOffset : ℤ) :
    IntExec (Option (ℤ × ℤ)) := do
  let b := T.tileBox tile
  let c := T.tileBox it
  let meet ← meetAcrossInt T a tile it
  if meet then do
    let far ← int (b.coord a + b.dim a)
    if c.coord a = far then do
      let coordOffset' ← int (dimOffset + coordOffset)
      let negated ← int (-dimOffset)
      let dimOffset' ← int (negated - coordOffset)
      .ok (some (coordOffset', dimOffset'))
    else do
      let far' ← int (c.coord a + c.dim a)
      .ok (if far' = b.coord a then some (0, coordOffset) else none)
  else .ok none

/-- `resize_allowed`. -/
def resizeAllowedInt (T : Tiles) (a : Axis) (orig : TilePtr) :
    ℕ → TilePtr → Option TilePtr → ℤ → ℤ → IntExec Bool
  | 0, _, _, _, _ => .error (.fault .diverges)
  | n + 1, tile, parent, coordOffset, dimOffset =>
    if coordOffset = 0 ∧ dimOffset = 0 then .ok true
    else do
      let dim ← int ((T.tileBox tile).dim a + dimOffset)
      if dim ≤ 0 then .ok false
      else do
        let its ← lift (siblings T tile)
        its.allM fun it =>
          if some it = parent ∨ it = orig then .ok true
          else handedOnInt T a tile it coordOffset dimOffset >>= fun
            | none => .ok true
            | some (c, d) => resizeAllowedInt T a orig n it (some tile) c d

/-- The end of `resize`: the view of the tile is redrawn and the clients are told. -/
def redraw (s : Server) (tile : TilePtr) (b b' : Rect) : Exec Server := do
  let s ← ifSome (s.disp.tileView tile) s fun v => s.viewMaximize v tile
  let (ws, output, outputId) ← s.placeOf tile
  .ok (s.emit (.resizeTile (s.tiles.tileId tile) b b' ws output outputId))

/-- `resize`. -/
def resizeInt (a : Axis) (orig : TilePtr) :
    ℕ → Server → TilePtr → Option TilePtr → ℤ → ℤ → IntExec Server
  | 0, _, _, _, _, _ => .error (.fault .diverges)
  | n + 1, s, tile, parent, coordOffset, dimOffset =>
    if coordOffset = 0 ∧ dimOffset = 0 then .ok s
    else do
      let its ← lift (siblings s.tiles tile)
      let s ← its.foldlM (fun s it =>
        if some it = parent ∨ it = orig then .ok s
        else handedOnInt s.tiles a tile it coordOffset dimOffset >>= fun
          | none => .ok s
          | some (c, d) => resizeInt a orig n s it (some tile) c d) s
      let b := s.tiles.tileBox tile
      let coord ← int (b.coord a + coordOffset)
      let dim ← int (b.dim a + dimOffset)
      let b' := b.setSpan a coord dim
      lift ({ s with tiles.tileBox := Function.update s.tiles.tileBox tile b' }.redraw tile b b')

/-- The offset for the start of the tile: at the far edge of the output its near edge
moves. -/
def startOffset (far size pixs : ℤ) : IntExec ℤ := if far = size then int (-pixs) else .ok 0

/-- One half of `resize_tile`.  The sum in the third operand of `&&` is only formed when
the first two hold. -/
def resizeAlongInt (s : Server) (a : Axis) (o : OutPtr) (tile : TilePtr) (pixs : ℤ) :
    IntExec Server := do
  lift (deref (s.tiles.tileLive tile))
  let b := s.tiles.tileBox tile
  let size := (s.outs.outBox o).frame.dim a
  if pixs ≠ 0 ∧ b.dim a < size then do
    let dim ← int (b.dim a + pixs)
    if isBetweenStrict 0 size dim then do
      let far ← int (b.coord a + b.dim a)
      let offset ← startOffset far size pixs
      let allowed ← resizeAllowedInt s.tiles a tile (s.tiles.tileTop + 2) tile none offset pixs
      if allowed then resizeInt a tile (s.tiles.tileTop + 2) s tile none offset pixs else .ok s
    else .ok s
  else .ok s

/-- `resize_tile`. -/
def resizeTileInt (s : Server) (hpixs vpixs : ℤ) (tileId : ℕ) : IntExec Server := do
  let o ← lift s.outs.curOut
  let f ← lift s.curTile
  let tile ← lift (if tileId ≠ 0 then s.tileFromId tileId else .ok (some f))
  match tile with
  | none => .ok s
  | some tile => do
    let s ← s.resizeAlongInt .horizontal o tile hpixs
    s.resizeAlongInt .vertical o tile vpixs

/-- The branches of `run_action` for `resizeleft`, `resizeright`, `resizeup` and
`resizedown`. -/
def runResizeInt (s : Server) : Axis → ℤ → ℕ → IntExec Server
  | .horizontal, pixs, tileId => s.resizeTileInt pixs 0 tileId
  | .vertical, pixs, tileId => s.resizeTileInt 0 pixs tileId

/-! ### Operations that fit -/

variable {T : Tiles} {F : Rect} {a : Axis} {X d n c e : ℤ} {w t it orig : TilePtr}
  {s s' s₀ : Server} {D : Set TilePtr}

theorem int_bind {β : Type} (h : IsInt n) (f : ℤ → IntExec β) : int n >>= f = f n :=
  checked_bind h f

/-- Where the box ends is an `int`, along both axes. -/
def EndsInt (b : Rect) : Prop := ∀ a, IsInt (b.coord a + b.dim a)

theorem meetAcrossInt_eq (ht : EndsInt (T.tileBox t)) (hi : EndsInt (T.tileBox it)) :
    meetAcrossInt T a t it = .ok (meetAcross T a t it) := by
  simp only [meetAcrossInt, int_bind (ht a.compl), int_bind (hi a.compl)]
  rfl

theorem handedOnInt_eq (ht : EndsInt (T.tileBox t)) (hi : EndsInt (T.tileBox it))
    (hsum : IsInt (e + c)) (hneg : IsInt (-e)) (hdiff : IsInt (-e - c)) :
    handedOnInt T a t it c e = .ok (handedOn T a t it c e) := by
  rw [handedOnInt, handedOn, meetAcrossInt_eq ht hi]
  show (if meetAcross T a t it = true then _ else _) = _
  split
  · simp only [int_bind (ht a), int_bind (hi a), int_bind hsum, int_bind hneg, int_bind hdiff]
    split
    · rfl
    · rfl
  · rfl

/-- Where the boxes end along the axis is not looked at for tiles that do not meet. -/
theorem handedOnInt_of_not_meets
    (ht : IsInt ((T.tileBox t).coord a.compl + (T.tileBox t).dim a.compl))
    (hi : IsInt ((T.tileBox it).coord a.compl + (T.tileBox it).dim a.compl))
    (hno : ¬ (T.tileBox t).Meets a (T.tileBox it)) : handedOnInt T a t it c e = .ok none := by
  have hmeet : meetAcrossInt T a t it = .ok (meetAcross T a t it) := by
    simp only [meetAcrossInt, int_bind ht, int_bind hi]
    rfl
  rw [handedOnInt, hmeet]
  show (if meetAcross T a t it = true then _ else _) = _
  rw [if_neg fun hm => hno (meetAcross_iff.mp hm)]

/-- The tiles of a frame that has `int`s for its sizes, and a line that is moved by less
than such a size. -/
structure FitsInt (F : Rect) (d : ℤ) : Prop where
  coord : ∀ a, F.coord a = 0
  dim : ∀ a, F.dim a < 2 ^ 31
  offset : -2 ^ 31 < d ∧ d < 2 ^ 31

theorem FitsInt.endsInt (hF : FitsInt F d) (h : Tiling F (T.tilesOf w) T.tileBox)
    (ht : t ∈ T.tilesOf w) : EndsInt (T.tileBox t) := by
  intro b
  have hpos := h.pos t ht b
  have hins := h.inside t ht b
  have hcoord := hF.coord b
  have hdim := hF.dim b
  constructor
  · omega
  · omega

/-- The offsets of a tile on the line are handed on without an overflow. -/
theorem FitsInt.handedOnInt {box : TilePtr → Rect} (hF : FitsInt F d)
    (ht : EndsInt (T.tileBox t)) (hi : EndsInt (T.tileBox it)) :
    handedOnInt T a t it (offsets box a X d t).1 (offsets box a X d t).2 =
      .ok (handedOn T a t it (offsets box a X d t).1 (offsets box a X d t).2) := by
  obtain ⟨hlow, hhigh⟩ := hF.offset
  rw [offsets]
  split
  · exact handedOnInt_eq ht hi ⟨by omega, by omega⟩ ⟨by omega, by omega⟩ ⟨by omega, by omega⟩
  · exact handedOnInt_eq ht hi ⟨by omega, by omega⟩ ⟨by omega, by omega⟩ ⟨by omega, by omega⟩

/-- A tile grows by less than the tile it faces is long, if something is left of that one. -/
theorem moved_dim_le {S : Set TilePtr} {box : TilePtr → Rect} (h : Tiling F S box)
    (hf : Facing S box a X t it) (hroom : 1 ≤ (Tiling.moved box a X d t).dim a) :
    (Tiling.moved box a X d it).dim a ≤ F.dim a := by
  have hpt := h.pos t hf.left a
  have hpi := h.pos it hf.right a
  have hit := h.inside t hf.left a
  have hii := h.inside it hf.right a
  rcases hf.sides with ⟨he, hs⟩ | ⟨hs, he⟩
  · rw [EndsAt] at he
    rw [StartsAt] at hs
    rw [Tiling.moved, if_pos he, dim_setSpan] at hroom
    rw [Tiling.moved, if_neg (by omega), dim_setSpan]
    omega
  · rw [EndsAt] at he
    rw [StartsAt] at hs
    rw [Tiling.moved, if_neg (by omega), dim_setSpan] at hroom
    rw [Tiling.moved, if_pos he, dim_setSpan]
    omega

/-- The new size of a tile on the line is an `int` if it is not too large. -/
theorem FitsInt.isInt_dim {box : TilePtr → Rect} (hF : FitsInt F d)
    (hpos : 1 ≤ (box t).dim a) (hdim : (Tiling.moved box a X d t).dim a < 2 ^ 31) :
    IsInt ((Tiling.moved box a X d t).dim a) := by
  obtain ⟨hlow, hhigh⟩ := hF.offset
  refine ⟨?_, hdim⟩
  rw [Tiling.moved]
  split
  · rw [dim_setSpan]
    omega
  · rw [dim_setSpan]
    omega

/-! ### The two recursions -/

variable {k : ℕ} {anc : List TilePtr} {parent : Option TilePtr}

/-- Nothing overflows in `resize_allowed`: a tile is only asked after one that it faces,
and after something was left of that one. -/
theorem resizeAllowedInt_eq (h : OnRing T w F a X d orig) (hF : FitsInt F d)
    (hv : Visit T w a X orig k anc parent t)
    (hdim : (Tiling.moved T.tileBox a X d t).dim a < 2 ^ 31) :
    resizeAllowedInt T a orig k t parent (offsets T.tileBox a X d t).1
        (offsets T.tileBox a X d t).2 =
      lift (resizeAllowed T a orig k t parent (offsets T.tileBox a X d t).1
        (offsets T.tileBox a X d t).2) := by
  induction k generalizing anc parent t with
  | zero => exact absurd (hv.three_le h) (by omega)
  | succ k ih =>
    have hk := hv.three_le h
    have htw := hv.onLine.1
    obtain ⟨its, hits, -, hmem⟩ := siblings_spec h.inv htw
    have hint := hF.isInt_dim (h.tiling.pos t htw a) hdim
    rw [resizeAllowedInt, resizeAllowed, if_neg (offsets_ne_zero h.moves),
      if_neg (offsets_ne_zero h.moves), dim_offsets, int_bind hint, hits]
    refine ite_lift (fun _ => rfl) fun hlt => ?_
    refine allM_lift fun it hit => ite_lift (fun _ => rfl) fun hskip => ?_
    obtain ⟨hitw, -⟩ := (hmem it).mp hit
    rw [not_or] at hskip
    rw [hF.handedOnInt (hF.endsInt h.tiling htw) (hF.endsInt h.tiling hitw)]
    rcases handedOn_offsets (d := d) h.tiling hv.onLine hitw rfl rfl with
      ⟨hf, he⟩ | ⟨hf, he | he⟩
    · rw [he]
      exact ih (hv.child h hf hskip.1)
        (lt_of_le_of_lt (moved_dim_le h.tiling hf (by omega)) (hF.dim a))
    · rw [he]
      rfl
    · obtain ⟨m, rfl⟩ : ∃ m, k = m + 1 := ⟨k - 1, by omega⟩
      rw [he]
      rfl

/-- The new start of a tile on the line is an `int` if something is left of the tile. -/
theorem FitsInt.isInt_coord {S : Set TilePtr} {box : TilePtr → Rect} (hF : FitsInt F d)
    (h : Tiling F S box) (ht : Tiling.OnLine S box a X t)
    (hroom : 1 ≤ (Tiling.moved box a X d t).dim a) :
    IsInt ((box t).coord a + (offsets box a X d t).1) := by
  have hpos := h.pos t ht.1 a
  have hins := h.inside t ht.1 a
  have hcoord := hF.coord a
  have hdim := hF.dim a
  obtain ⟨hlow, hhigh⟩ := hF.offset
  rw [Tiling.moved] at hroom
  rw [offsets]
  split
  · constructor
    · show -2 ^ 31 ≤ (box t).coord a + 0
      omega
    · show (box t).coord a + 0 < 2 ^ 31
      omega
  · rename_i hend
    rw [if_neg hend, dim_setSpan] at hroom
    constructor
    · show -2 ^ 31 ≤ (box t).coord a + d
      omega
    · show (box t).coord a + d < 2 ^ 31
      omega

/-- After the branches that begin at tiles of `l`, that of `it` is still away from what has
been visited. -/
theorem Away.next {l : List TilePtr} (h : OnRing T w F a X d orig)
    (ht : Tiling.OnLine (T.tilesOf w) T.tileBox a X t)
    (haway : Away T w a X D {u | Branch (Facing (T.tilesOf w) T.tileBox a X) parent t u})
    (hf : Facing (T.tilesOf w) T.tileBox a X t it) (hp : some it ≠ parent) (hl : it ∉ l) :
    Away T w a X (D ∪ branches T w a X parent t l)
      {u | Branch (Facing (T.tilesOf w) T.tileBox a X) (some t) it u} := by
  have hI := h.tiling.interleaved a X
  have hne : ∀ j ∈ l, j ≠ it := fun j hj e => hl (e ▸ hj)
  refine ⟨?_, ?_, ?_⟩
  · rintro u (hu | hu)
    · exact haway.onLine u hu
    · exact ht.branch (branches_subset hu)
  · rintro u (hu | ⟨j, hj, hfj, -, hu⟩) hb
    · exact haway.notMem u hu (Branch.step hf hp hb)
    · exact hI.ne_of_branch hfj hf (hne j hj) hu hb rfl
  · rintro u (hu | ⟨j, hj, hfj, -, hu⟩) v hv
    · exact haway.notFacing u hu v (Branch.step hf hp hv)
    · exact hI.not_of_branch hf hfj (hne j hj).symm hv hu

/-- What has been visited before `it` does not overlap with `t`. -/
theorem not_meets_visited {l : List TilePtr} (h : OnRing s₀.tiles w F a X d orig)
    (ht : Tiling.OnLine (s₀.tiles.tilesOf w) s₀.tiles.tileBox a X t)
    (haway : Away s₀.tiles w a X D
      {u | Branch (Facing (s₀.tiles.tilesOf w) s₀.tiles.tileBox a X) parent t u})
    (hs : Moved s₀ a X d (D ∪ branches s₀.tiles w a X parent t l) s) (hne : t ≠ it) (hl : it ∉ l)
    (hit : it ∈ D ∪ branches s₀.tiles w a X parent t l) :
    ¬ (s.tiles.tileBox t).Meets a (s.tiles.tileBox it) := by
  have hI := h.tiling.interleaved a X
  intro hm
  rcases hit with hD | hb
  · exact haway.notFacing it hD t .root
      (ht.facing h.tiling (haway.onLine it hD) hne (hs.meets hm))
  · have hf := ht.facing h.tiling (ht.branch (branches_subset hb)) hne (hs.meets hm)
    obtain ⟨j, hj, hfj, -, hb⟩ := hb
    exact hI.ne_of_branch hfj hf (fun e => hl (e ▸ hj)) hb .root rfl

/-- Nothing overflows in `resize`, if all tiles have been found to stay nonempty. -/
theorem resizeInt_eq (h : OnRing s₀.tiles w F a X d orig) (hF : FitsInt F d)
    (hv : Visit s₀.tiles w a X orig k anc parent t) (hs : Moved s₀ a X d D s)
    (hr : Redrawn s₀ s)
    (haway : Away s₀.tiles w a X D
      {u | Branch (Facing (s₀.tiles.tilesOf w) s₀.tiles.tileBox a X) parent t u})
    (hroom : ∀ u, Branch (Facing (s₀.tiles.tilesOf w) s₀.tiles.tileBox a X) parent t u →
      1 ≤ (Tiling.moved s₀.tiles.tileBox a X d u).dim a)
    (hdim : (Tiling.moved s₀.tiles.tileBox a X d t).dim a < 2 ^ 31) :
    resizeInt a orig k s t parent (offsets s₀.tiles.tileBox a X d t).1
        (offsets s₀.tiles.tileBox a X d t).2 =
      lift (resize a orig k s t parent (offsets s₀.tiles.tileBox a X d t).1
        (offsets s₀.tiles.tileBox a X d t).2) := by
  induction k generalizing anc parent t D s with
  | zero => exact absurd (hv.three_le h) (by omega)
  | succ k ih =>
    have hk := hv.three_le h
    have htw := hv.onLine.1
    have hinv : s.tiles.TilesInv False none := by
      rw [hs.tiles]
      exact h.inv.setBoxes _
    have hw : s.tiles.tilesOf w = s₀.tiles.tilesOf w := by
      rw [hs.tiles]
      rfl
    obtain ⟨its, hits, hnd, hmem⟩ := siblings_spec hinv (hw ▸ htw)
    rw [hw] at hmem
    have htD : t ∉ D := fun ht => haway.notMem t ht .root
    -- where the tiles are after the iterations for those of `l₁`
    have hprefix : ∀ l₁ l₂ s', its = l₁ ++ l₂ → (l₁.foldlM (fun s it =>
        if some it = parent ∨ it = orig then .ok s
        else match handedOn s.tiles a t it (offsets s₀.tiles.tileBox a X d t).1
            (offsets s₀.tiles.tileBox a X d t).2 with
          | none => .ok s
          | some (c, d) => resize a orig k s it (some t) c d) s : Exec Server) = .ok s' →
        Resized s₀ a X d D (branches s₀.tiles w a X parent t l₁) s s' ∧
          s'.tiles.tileBox t = s₀.tiles.tileBox t := by
      intro l₁ l₂ s' hl hs'
      have hsub : ∀ u ∈ l₁, u ∈ its := fun u hu => hl ▸ List.mem_append_left _ hu
      have hresized := ((resize_loop h (resize_exactly h) hv
        (List.nodup_append.mp (hl ▸ hnd)).1 (fun u hu => (hmem u).mp (hsub u hu)) hs hr
        (haway.anti branches_subset) htD
        fun u hu _ => haway.notFacing u hu t .root).ends.2 s' hs').2
      exact ⟨hresized, hresized.moved.same t fun ht => ht.elim htD (notMem_branches h)⟩
    have hends : EndsInt (s₀.tiles.tileBox t) := hF.endsInt h.tiling htw
    rw [resizeInt, resize, if_neg (offsets_ne_zero h.moves), if_neg (offsets_ne_zero h.moves),
      hits]
    show its.foldlM _ s >>= _ = lift (its.foldlM _ s >>= _)
    rw [foldlM_lift fun l₁ it l₂ s' hl hs' => ?_]
    · refine bind_lift fun s₁ hs₁ => ?_
      obtain ⟨-, hbox⟩ := hprefix its [] s₁ (List.append_nil its).symm hs₁
      have hcoord := hF.isInt_coord h.tiling hv.onLine (hroom t .root)
      have hint := hF.isInt_dim (h.tiling.pos t htw a) hdim
      rw [← dim_offsets] at hint
      simp only [hbox, int_bind hcoord, int_bind hint]
      rfl
    · obtain ⟨hresized, hbox⟩ := hprefix l₁ (it :: l₂) s' hl hs'
      have hm := hresized.moved
      have hit : it ∈ its := hl ▸ List.mem_append_right _ List.mem_cons_self
      obtain ⟨hitw, hne⟩ := (hmem it).mp hit
      have hitl : it ∉ l₁ := fun hit₁ =>
        (List.nodup_append.mp (hl ▸ hnd)).2.2 it hit₁ it List.mem_cons_self rfl
      have hendi : EndsInt (s₀.tiles.tileBox it) := hF.endsInt h.tiling hitw
      refine ite_lift (fun _ => rfl) fun hskip => ?_
      rw [not_or] at hskip
      by_cases hvisited : it ∈ D ∪ branches s₀.tiles w a X parent t l₁
      · have hno := not_meets_visited h hv.onLine haway hm hne.symm hitl hvisited
        obtain ⟨h1, h2⟩ := hm.across it
        have hcompl := hendi a.compl
        rw [← h1, ← h2] at hcompl
        have hcompl' := hends a.compl
        rw [← hbox] at hcompl'
        rw [handedOnInt_of_not_meets hcompl' hcompl hno, handedOn_of_not_meets hno]
        rfl
      · have hsame := hm.same it hvisited
        rw [hF.handedOnInt (by rwa [hbox]) (by rwa [hsame])]
        rcases handedOn_offsets (T := s'.tiles) (d := d) h.tiling hv.onLine hitw hbox hsame with
          ⟨hf, he⟩ | ⟨hf, he | he⟩
        · rw [he]
          refine ih (hv.child h hf hskip.1) hm hresized.redrawn
            (haway.next h hv.onLine hf hskip.1 hitl)
            (fun u hu => hroom u (.step hf hskip.1 hu)) ?_
          exact lt_of_le_of_lt (moved_dim_le h.tiling hf (hroom t .root)) (hF.dim a)
        · rw [he]
          rfl
        · obtain ⟨m, rfl⟩ : ∃ m, k = m + 1 := ⟨k - 1, by omega⟩
          rw [he]
          rfl

/-! ### Along one axis -/

variable {o : OutPtr} {offset pixs : ℤ} {tileId : ℕ}

/-- The sizes of the box are `int`s. -/
def IntSized (r : Rect) : Prop := ∀ a, r.dim a < 2 ^ 31

/-- The first sum of `resize_tile` is formed, and is too large for an `int`. -/
def SumOverflows (s : Server) (a : Axis) (o : OutPtr) (t : TilePtr) (pixs : ℤ) : Prop :=
  pixs ≠ 0 ∧ (s.tiles.tileBox t).dim a < (s.outs.outBox o).frame.dim a ∧
    2 ^ 31 ≤ (s.tiles.tileBox t).dim a + pixs

theorem startOffset_eq {far size : ℤ} (h : IsInt (-pixs)) :
    startOffset far size pixs = .ok (if far = size then -pixs else 0) := by
  rw [startOffset]
  split
  · exact checked_of h
  · rfl

/-- The recursions begun at a tile, for the line at `X`. -/
theorem resizeLineInt_eq (h : OnRing s.tiles w F a X d t) (hF : FitsInt F d)
    (hoff : offsets s.tiles.tileBox a X d t = (offset, pixs))
    (hdim : (s.tiles.tileBox t).dim a + pixs < 2 ^ 31) :
    (resizeAllowedInt s.tiles a t (s.tiles.tileTop + 2) t none offset pixs >>= fun allowed =>
      if allowed then resizeInt a t (s.tiles.tileTop + 2) s t none offset pixs else .ok s) =
    lift (resizeAllowed s.tiles a t (s.tiles.tileTop + 2) t none offset pixs >>= fun allowed =>
      if allowed then resize a t (s.tiles.tileTop + 2) s t none offset pixs else .ok s) := by
  have hv := h.visit le_rfl
  have hmoved : (Tiling.moved s.tiles.tileBox a X d t).dim a < 2 ^ 31 := by
    rw [← dim_offsets, hoff]
    exact hdim
  have hdry := resizeAllowedInt_eq h hF hv hmoved
  have hroom := (resizeAllowed_gives h hv).ensures
  have hrun := resizeInt_eq (D := ∅) (s := s) h hF hv ⟨rfl, by simp, by simp⟩ ⟨rfl, rfl, rfl⟩
    ⟨by simp, by simp, by simp⟩
  rw [hoff] at hdry hroom hrun
  rw [hdry]
  exact bind_lift fun allowed hallowed =>
    ite_lift (fun hok => hrun ((hroom allowed hallowed).mp hok) hmoved) fun _ => rfl

/-- **Only the first sum overflows** in `resize_tile`, along one axis. -/
theorem resizeAlongInt_eq (h : WellFormed True s) (hs : s.Framed IntSized) (hpixs : IsInt pixs)
    (hno : ¬ s.SumOverflows a o t pixs) :
    s.resizeAlongInt a o t pixs = lift (s.resizeAlong a o t pixs) := by
  rw [resizeAlongInt, resizeAlong]
  refine bind_lift fun _ hderef => ?_
  have hlive := deref_eq_ok.mp hderef
  obtain ⟨hw, -⟩ := h.tiles.tile_ws t hlive
  have hp := h.tiles.tiling trivial _ hw (by simp)
  have htw : t ∈ s.tiles.tilesOf (s.tiles.tileWorkspace t) := ⟨hlive, rfl⟩
  have hpos := hp.pos t htw a
  have hins := hp.inside t htw a
  have hcoord := WellFormed.frame_coord h hw
  have hsize := hs.outBox o a
  rw [hcoord a] at hins
  by_cases hg : pixs ≠ 0 ∧ (s.tiles.tileBox t).dim a < (s.outs.outBox o).frame.dim a
  swap
  · have hnot : ¬ (pixs ≠ 0 ∧ (s.tiles.tileBox t).dim a < (s.outs.outBox o).frame.dim a ∧
        isBetweenStrict 0 ((s.outs.outBox o).frame.dim a) ((s.tiles.tileBox t).dim a + pixs)) :=
      fun hc => hg ⟨hc.1, hc.2.1⟩
    simp only [if_neg hg, if_neg hnot]
    rfl
  obtain ⟨hpix, hlt⟩ := hg
  have hsum : IsInt ((s.tiles.tileBox t).dim a + pixs) := by
    obtain ⟨hlow, -⟩ := hpixs
    constructor
    · omega
    · by_contra hover
      exact hno ⟨hpix, hlt, not_lt.mp hover⟩
  by_cases hbetween : isBetweenStrict 0 ((s.outs.outBox o).frame.dim a)
      ((s.tiles.tileBox t).dim a + pixs) = true
  swap
  · have hnot : ¬ (pixs ≠ 0 ∧ (s.tiles.tileBox t).dim a < (s.outs.outBox o).frame.dim a ∧
        isBetweenStrict 0 ((s.outs.outBox o).frame.dim a) ((s.tiles.tileBox t).dim a + pixs)) :=
      fun hc => hbetween hc.2.2
    simp only [if_pos (And.intro hpix hlt), int_bind hsum, if_neg hbetween, if_neg hnot]
    rfl
  have hguard : pixs ≠ 0 ∧ (s.tiles.tileBox t).dim a < (s.outs.outBox o).frame.dim a ∧
      isBetweenStrict 0 ((s.outs.outBox o).frame.dim a) ((s.tiles.tileBox t).dim a + pixs) :=
    ⟨hpix, hlt, hbetween⟩
  have hends : IsInt ((s.tiles.tileBox t).coord a + (s.tiles.tileBox t).dim a) := by
    have hdim := hs.wsFrame (s.tiles.tileWorkspace t) a
    constructor
    · omega
    · omega
  have hrange : 0 < (s.tiles.tileBox t).dim a + pixs ∧
      (s.tiles.tileBox t).dim a + pixs < (s.outs.outBox o).frame.dim a := by
    simpa [isBetweenStrict] using hbetween
  have hneg : IsInt (-pixs) := by
    constructor
    · omega
    · omega
  simp only [if_pos (And.intro hpix hlt), int_bind hsum, if_pos hbetween, int_bind hends,
    startOffset_eq hneg, if_pos hguard]
  -- which line is moved
  by_cases hfar : (s.tiles.tileBox t).coord a + (s.tiles.tileBox t).dim a =
      (s.outs.outBox o).frame.dim a
  · rw [if_pos hfar]
    refine resizeLineInt_eq (X := (s.tiles.tileBox t).coord a) (d := -pixs)
      ⟨h.tiles.untiled, hp, ⟨htw, .inr rfl⟩, neg_ne_zero.mpr hpix⟩
      ⟨hcoord, hs.wsFrame _, by omega, by omega⟩ ?_ hsum.2
    rw [offsets, if_neg (by omega), neg_neg]
  · rw [if_neg hfar]
    refine resizeLineInt_eq (d := pixs)
      (X := (s.tiles.tileBox t).coord a + (s.tiles.tileBox t).dim a)
      ⟨h.tiles.untiled, hp, ⟨htw, .inl rfl⟩, hpix⟩
      ⟨hcoord, hs.wsFrame _, by omega, by omega⟩ ?_ hsum.2
    rw [offsets, if_pos rfl]

theorem resizeAlongInt_overflow (hlive : s.tiles.tileLive t = true)
    (hsum : s.SumOverflows a o t pixs) : s.resizeAlongInt a o t pixs = .error .overflow := by
  obtain ⟨hpix, hlt, hover⟩ := hsum
  have hint : int ((s.tiles.tileBox t).dim a + pixs) = .error .overflow :=
    checked_of_not fun h => absurd h.2 (not_lt.mpr hover)
  rw [resizeAlongInt, deref_eq_ok.mpr hlive]
  simp only [if_pos (And.intro hpix hlt), hint]
  rfl

theorem resizeAlongInt_zero : s.resizeAlongInt a o t 0 = lift (s.resizeAlong a o t 0) := by
  rw [resizeAlongInt, resizeAlong]
  refine bind_lift fun _ _ => ?_
  simp only [ne_eq, not_true_eq_false, false_and, if_false]
  rfl

/-! ### The commands -/

/-- The first sum overflows for the tile the command addresses. -/
def CommandOverflows (s : Server) (a : Axis) (pixs : ℤ) (tileId : ℕ) : Prop :=
  ∃ o f t, s.outs.currOutput = some o ∧ s.curTile = .ok f ∧
    s.addressedTile tileId = .ok (some t) ∧ s.SumOverflows a o t pixs

/-- The two halves of `resize_tile` decide whether it overflows. -/
theorem resizeTileInt_eq {hpixs vpixs : ℤ}
    (h : ∀ o f t, s.outs.currOutput = some o → s.curTile = .ok f →
      s.addressedTile tileId = .ok (some t) →
      (s.resizeAlongInt .horizontal o t hpixs >>= fun s => s.resizeAlongInt .vertical o t vpixs) =
        lift (s.resizeAlong .horizontal o t hpixs >>= fun s => s.resizeAlong .vertical o t vpixs)) :
    s.resizeTileInt hpixs vpixs tileId = lift (s.resizeTile hpixs vpixs tileId) := by
  rw [resizeTileInt, resizeTile]
  refine bind_lift fun o ho => bind_lift fun f hf => ?_
  rw [chosenTile_eq hf]
  refine bind_lift fun tile htile => ?_
  cases tile with
  | none => rfl
  | some t => exact h o f t (nonNull_eq_ok.mp ho) hf htile

theorem runResizeInt_eq (h : WellFormed True s) (hs : s.Framed IntSized) (hpixs : IsInt pixs)
    (hno : ¬ s.CommandOverflows a pixs tileId) :
    s.runResizeInt a pixs tileId = lift (s.runAction (.resize a pixs tileId)) := by
  cases a with
  | horizontal =>
    refine resizeTileInt_eq fun o f t ho hf ht => ?_
    rw [resizeAlongInt_eq h hs hpixs fun hsum => hno ⟨o, f, t, ho, hf, ht, hsum⟩]
    exact bind_lift fun s₁ _ => resizeAlongInt_zero
  | vertical =>
    refine resizeTileInt_eq fun o f t ho hf ht => ?_
    rw [resizeAlongInt_zero]
    refine bind_lift fun s₁ hs₁ => ?_
    obtain rfl := resizeAlong_zero s₁ hs₁
    exact resizeAlongInt_eq h hs hpixs fun hsum => hno ⟨o, f, t, ho, hf, ht, hsum⟩

theorem runResizeInt_overflow (h : WellFormed False s)
    (hover : s.CommandOverflows a pixs tileId) :
    s.runResizeInt a pixs tileId = .error .overflow := by
  obtain ⟨o, f, t, ho, hf, ht, hsum⟩ := hover
  have hlive := addressedTile_live h ht
  have hrun := resizeAlongInt_overflow hlive hsum
  have htile : ∀ hpixs vpixs, s.resizeTileInt hpixs vpixs tileId =
      s.resizeAlongInt .horizontal o t hpixs >>= fun s => s.resizeAlongInt .vertical o t vpixs := by
    intro hpixs vpixs
    have hchosen : (if tileId ≠ 0 then s.tileFromId tileId else .ok (some f)) =
        .ok (some t) := (chosenTile_eq hf).trans ht
    rw [resizeTileInt, Outputs.curOut, nonNull_eq_ok.mpr ho, hf]
    show lift (if tileId ≠ 0 then s.tileFromId tileId else .ok (some f)) >>= _ = _
    rw [hchosen]
    rfl
  cases a with
  | horizontal =>
    show s.resizeTileInt pixs 0 tileId = _
    rw [htile, hrun]
    rfl
  | vertical =>
    show s.resizeTileInt 0 pixs tileId = _
    rw [htile, resizeAlongInt_zero, resizeAlong_zero_eq hlive]
    exact hrun

/-- What `run_action` passes to `resize_tile`: the axis, the pixels and the tile id. -/
def resizeOf : Parse.Command → Option (Axis × ℤ × ℕ)
  | (.resizeTileHorizontal, .is pixels tile) =>
    some (.horizontal, Parse.OperandType.int.read pixels, tile.toNat)
  | (.resizeTileVertical, .is pixels tile) =>
    some (.vertical, Parse.OperandType.int.read pixels, tile.toNat)
  | _ => none

theorem isInt_read (n : UInt32) : IsInt (Parse.OperandType.int.read n) := by
  show -2 ^ 31 ≤ Parse.toInt n.toNat ∧ Parse.toInt n.toNat < 2 ^ 31
  rw [Parse.toInt]
  omega

theorem isInt_resizeOf {c : Parse.Command} (hc : resizeOf c = some (a, pixs, tileId)) :
    IsInt pixs := by
  unfold resizeOf at hc
  split at hc
  · obtain ⟨-, rfl, -⟩ : _ ∧ _ ∧ _ := by simpa using hc
    exact isInt_read _
  · obtain ⟨-, rfl, -⟩ : _ ∧ _ ∧ _ := by simpa using hc
    exact isInt_read _
  · simp at hc

theorem init_intSized : Server.init.Framed IntSized := by
  constructor
  · intro o b
    cases b with
    | horizontal =>
      show (1 : ℤ) < 2 ^ 31
      omega
    | vertical =>
      show (1 : ℤ) < 2 ^ 31
      omega
  · intro w b
    cases b with
    | horizontal =>
      show (0 : ℤ) < 2 ^ 31
      omega
    | vertical =>
      show (0 : ℤ) < 2 ^ 31
      omega

end Server

open Server

/-- **Overflows of a resize.**  In every run in which outputs have `int`s for their sizes
and no resize has moved the far edge of a frame, a resize command overflows exactly if the
sum does that its pixel count is checked with. -/
theorem resize_overflows_iff {s : Server} {a : Axis} {pixs : ℤ} {tileId : ℕ}
    (hs : Steps step (fun s i => i.Reports IntSized ∧ ¬ s.MovesFrameEdge i) Server.init s)
    {c : Parse.Command} (hc : resizeOf c = some (a, pixs, tileId)) :
    (s.runResizeInt a pixs tileId = .error .overflow ↔ s.CommandOverflows a pixs tileId) ∧
      (¬ s.CommandOverflows a pixs tileId →
        s.runResizeInt a pixs tileId = lift (s.runAction (.resize a pixs tileId))) := by
  have hpixs := isInt_resizeOf hc
  have hwf : WellFormed True s := partitioned_of_steps (hs.mono fun _ _ h => h.2)
  have hframed : s.Framed IntSized :=
    framed_of_steps (fun _ _ h => h.1) init_intSized hs
  have hsame : ¬ s.CommandOverflows a pixs tileId →
      s.runResizeInt a pixs tileId = lift (s.runAction (.resize a pixs tileId)) :=
    runResizeInt_eq hwf hframed hpixs
  refine ⟨⟨fun hover => ?_, ?_⟩, hsame⟩
  · by_contra hno
    rw [hsame hno] at hover
    exact lift_ne_overflow _ hover
  · exact runResizeInt_overflow ⟨hwf.tiles.untiled, hwf.cursor, hwf.outs⟩

/-- An output with two tiles side by side. -/
def splitScreen : List Input :=
  [.outputNew "HDMI-A-1" ⟨0, 0, 1920, 1080, by decide, by decide⟩ none,
    .command (.splitVertical half)]

theorem splitScreen_intSized : ∀ i ∈ splitScreen, ∀ _ : Server, i.Reports IntSized := by
  intro i hi _
  rcases List.mem_cons.mp hi with rfl | hi
  · intro b
    cases b
    · show (1920 : ℤ) < 2 ^ 31
      omega
    · show (1080 : ℤ) < 2 ^ 31
      omega
  · obtain rfl := List.mem_singleton.mp hi
    trivial

/-- The conditions on a run hold here. -/
theorem resize_overflows_split : ∃ s : Server, run step Server.init splitScreen = .ok s ∧
    (s.runResizeInt .horizontal 2147483647 0 = .error .overflow ↔
      s.CommandOverflows .horizontal 2147483647 0) := by
  obtain ⟨s, hs, -⟩ := exists_of_returns (p := fun _ : Server => true)
    (m := run step Server.init splitScreen) (by decide +kernel)
  have hc : resizeOf (.resizeTileHorizontal, .is 2147483647 0) =
      some (.horizontal, 2147483647, 0) := by decide
  refine ⟨s, hs, (resize_overflows_iff (Steps.of_run hs fun i hi s => ⟨?_, ?_⟩) hc).1⟩
  · exact splitScreen_intSized i hi s
  · intro hmoves
    rcases List.mem_cons.mp hi with rfl | hi
    · exact hmoves
    · obtain rfl := List.mem_singleton.mp hi
      exact hmoves

/-- What the compiled in libraries say does not matter for a resize. -/
def noLibraries : Parse.Libraries := ⟨fun _ => 0, fun _ => -1, fun _ => none⟩

/-- The left tile of the screen is asked to grow by the largest `int`. -/
theorem hugeResize_overflows : ¬ ∀ (line : Text) (c : Parse.Command) (a : Axis) (pixs : ℤ)
    (tileId : ℕ) (s : Server),
    (Parse.parseCommand noLibraries [] 1).result line .clear = some c →
    resizeOf c = some (a, pixs, tileId) →
    Steps step (fun _ i => i.Reports IntSized) Server.init s →
    s.runResizeInt a pixs tileId ≠ .error .overflow := by
  intro hall
  obtain ⟨s, hs, hover⟩ := exists_of_returns
    (p := fun s : Server => Outcome.fails (s.runResizeInt .horizontal 2147483647 0) .overflow)
    (m := run step Server.init splitScreen) (by decide +kernel)
  have hread : ((Parse.parseCommand noLibraries [] 1).result
      (ascii "resizeright 2147483647") .clear).bind resizeOf =
        some (.horizontal, 2147483647, 0) := by decide
  obtain ⟨c, hc, hresize⟩ := Option.bind_eq_some_iff.mp hread
  refine hall _ c _ _ _ s hc hresize (Steps.of_run hs ?_) (Outcome.eq_error_of_fails hover)
  exact splitScreen_intSized

/-- Two tiles on a small output are resized for a large one, until the second ends beyond
the largest `int`.  No size with a pixel count added comes near it. -/
example : returns (run step Server.init
    [.outputNew "HDMI-A-1" ⟨0, 0, 2147483647, 10, by decide, by decide⟩ none,
      .outputNew "DP-1" ⟨0, 10, 6, 6, by decide, by decide⟩ none,
      .command (.switchOutput 2), .command (.splitVertical half), .command (.switchOutput 1),
      .command (.resizeTileHorizontal 1500000000 3),
      .command (.resizeTileHorizontal 1400000000 2),
      .command (.resizeTileHorizontal 1400000000 3)])
    (fun s => Outcome.fails (s.runResizeInt .horizontal 10 3) .overflow) = true := by
  decide +kernel

end Cagebreak
