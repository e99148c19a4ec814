/-
Resizing tiles.

`resize` moves the line a tile touches, in the tile and in the tiles facing it
across the line, and goes on from each of them.  The recursion follows the
branches of `Facing`, so that it visits every tile once, although it changes
boxes on its way and reads them again.

* `resizeAllowed_gives`, `resize_exactly` — what the two recursions do, and that
  they end;
* `resizeAlong_frame` — when the resize of a tile along one axis is defined, and when
  the partition of a workspace survives it.
-/
import Cagebreak.Lib.Line
import Cagebreak.TileRuns

namespace Cagebreak

open Exec Rect

/-- `resizeleft`, `resizeright` and `resizeup`, `resizedown`. -/
def Action.resize : Axis → ℤ → ℕ → Action
  | .horizontal, pixs, tileId => .resizeTileHorizontal pixs tileId
  | .vertical, pixs, tileId => .resizeTileVertical pixs tileId

namespace Server

variable {T : Tiles} {S : Set TilePtr} {F : Rect} {a : Axis} {X d : ℤ} {w t it orig : TilePtr}

/-! ### The tiles around -/

/-- The loop over the other tiles of a ring visits each of them once. -/
theorem siblings_spec (h : T.TilesInv False none) (ht : t ∈ T.tilesOf w) :
    ∃ l, siblings T t = .ok l ∧ l.Nodup ∧ ∀ u, u ∈ l ↔ u ∈ T.tilesOf w ∧ u ≠ t := by
  obtain ⟨r, hr, hmem⟩ := h.ring_of_mem ht
  obtain ⟨l, hl, hperm⟩ := hr.startAt ((hmem t).mpr ht)
  have hmem' : ∀ u, u ∈ t :: l ↔ u ∈ T.tilesOf w := fun u => hperm.mem_iff.trans (hmem u)
  have hlen := h.length_le hl.nodup fun u hu => ((hmem' u).mp hu).1
  rw [List.length_cons] at hlen
  have hloop : ∀ n cur m, DLinks.collect T.tileLinks.next t n cur = .ok m →
      (∀ u ∈ m, T.tileLive u = true) → siblingsLoop T t n cur = .ok m := by
    intro n
    induction n with
    | zero => simp [DLinks.collect]
    | succ n ih =>
      intro cur m hm hlive
      cases cur with
      | none => simp [DLinks.collect] at hm
      | some it =>
        rw [DLinks.collect] at hm
        rw [siblingsLoop]
        by_cases hit : it = t
        · rwa [if_pos hit] at hm ⊢
        · rw [if_neg hit] at hm ⊢
          obtain ⟨m', hm', he⟩ := bind_eq_ok.mp hm
          obtain rfl := Except.ok.inj he
          rw [deref_eq_ok.mpr (hlive it List.mem_cons_self), ok_bind,
            ih _ m' hm' fun u hu => hlive u (List.mem_cons_of_mem _ hu)]
          rfl
  have hnd := List.nodup_cons.mp hl.nodup
  refine ⟨l, ?_, hnd.2, fun u => ?_⟩
  · rw [siblings, deref_eq_ok.mpr ht.1, ok_bind]
    refine hloop _ _ l (hl.collect (Nat.lt_succ_of_lt hlen) fun _ _ => rfl) fun u hu => ?_
    exact ((hmem' u).mp (List.mem_cons_of_mem _ hu)).1
  · rw [← hmem', List.mem_cons]
    refine ⟨fun hu => ⟨.inr hu, fun e => hnd.1 (e ▸ hu)⟩, fun hu => hu.1.resolve_left hu.2⟩

/-- The offsets for a tile on the line at `X` when the line moves by `d`. -/
def offsets (box : TilePtr → Rect) (a : Axis) (X d : ℤ) (t : TilePtr) : ℤ × ℤ :=
  if (box t).coord a + (box t).dim a = X then (0, d) else (d, -d)

theorem setSpan_offsets {box : TilePtr → Rect} : (box t).setSpan a
    ((box t).coord a + (offsets box a X d t).1) ((box t).dim a + (offsets box a X d t).2) =
      Tiling.moved box a X d t := by
  rw [offsets, Tiling.moved]
  split
  · rw [add_zero]
  · rfl

theorem dim_offsets {box : TilePtr → Rect} :
    (box t).dim a + (offsets box a X d t).2 = (Tiling.moved box a X d t).dim a := by
  rw [← setSpan_offsets, dim_setSpan]

theorem offsets_ne_zero {box : TilePtr → Rect} (hd : d ≠ 0) :
    ¬ ((offsets box a X d t).1 = 0 ∧ (offsets box a X d t).2 = 0) := by
  rw [offsets]
  split <;> simp [hd]

theorem meetAcross_iff : meetAcross T a t it = true ↔ (T.tileBox t).Meets a (T.tileBox it) := by
  simp [meetAcross, intervallsIntersect, Meets]

theorem handedOn_of_not_meets {c e : ℤ} (h : ¬ (T.tileBox t).Meets a (T.tileBox it)) :
    handedOn T a t it c e = none := by
  rw [handedOn, if_neg (fun hm => h (meetAcross_iff.mp hm))]

/-- A tile facing `t` is handed its own offsets, any other tile none. -/
theorem handedOn_offsets {box : TilePtr → Rect} (h : Tiling F S box)
    (ht : Tiling.OnLine S box a X t) (hit : it ∈ S) (hbt : T.tileBox t = box t)
    (hbi : T.tileBox it = box it) :
    Facing S box a X t it ∧ handedOn T a t it (offsets box a X d t).1 (offsets box a X d t).2 =
        some (offsets box a X d it) ∨
      ¬ Facing S box a X t it ∧
        (handedOn T a t it (offsets box a X d t).1 (offsets box a X d t).2 = none ∨
          handedOn T a t it (offsets box a X d t).1 (offsets box a X d t).2 = some (0, 0)) := by
  by_cases hm : (T.tileBox t).Meets a (T.tileBox it)
  · have hpt := h.pos t ht.1 a
    have hpi := h.pos it hit a
    have hface : Facing S box a X t it ↔ (box t).EndsAt a X ∧ (box it).StartsAt a X ∨
        (box t).StartsAt a X ∧ (box it).EndsAt a X :=
      ⟨Facing.sides, fun hs => ⟨ht.1, hit, by rwa [← hbt, ← hbi], hs⟩⟩
    have hline := ht.2
    rw [hface, handedOn, if_pos (meetAcross_iff.mpr hm), hbt, hbi, offsets, offsets]
    simp only [EndsAt, StartsAt] at hline ⊢
    by_cases h1 : (box t).coord a + (box t).dim a = X
    · by_cases h2 : (box it).coord a = (box t).coord a + (box t).dim a
      · refine .inl ⟨.inl ⟨h1, by omega⟩, ?_⟩
        rw [if_pos h2, if_pos h1, if_neg (by omega)]
        simp
      · refine .inr ⟨by omega, ?_⟩
        rw [if_neg h2, if_pos h1]
        by_cases h3 : (box it).coord a + (box it).dim a = (box t).coord a
        · rw [if_pos h3]
          exact .inr rfl
        · rw [if_neg h3]
          exact .inl rfl
    · by_cases h2 : (box it).coord a = (box t).coord a + (box t).dim a
      · refine .inr ⟨by omega, .inr ?_⟩
        rw [if_pos h2, if_neg h1]
        simp
      · by_cases h3 : (box it).coord a + (box it).dim a = (box t).coord a
        · refine .inl ⟨.inr ⟨by omega, by omega⟩, ?_⟩
          rw [if_neg h2, if_pos h3, if_neg h1, if_pos (by omega)]
        · refine .inr ⟨by omega, .inl ?_⟩
          rw [if_neg h2, if_neg h3]
  · refine .inr ⟨fun hf => hm ?_, .inl (handedOn_of_not_meets hm)⟩
    rw [hbt, hbi]
    exact hf.meet

/-! ### The two recursions -/

/-- The line at `X` that a resize of `orig` moves by `d`, between tiles whose
pointers are sound. -/
structure OnRing (T : Tiles) (w : WsPtr) (F : Rect) (a : Axis) (X d : ℤ) (orig : TilePtr) :
    Prop where
  inv : T.TilesInv False none
  tiling : Tiling F (T.tilesOf w) T.tileBox
  orig : Tiling.OnLine (T.tilesOf w) T.tileBox a X orig
  moves : d ≠ 0

/-- The situation of a recursive call on `t`, reached by way of the tiles `anc`:
it cannot come back to these, or to the tile the resize began with, and there is
enough fuel left to visit all other tiles. -/
structure Visit (T : Tiles) (w : WsPtr) (a : Axis) (X : ℤ) (orig : TilePtr) (n : ℕ)
    (anc : List TilePtr) (parent : Option TilePtr) (t : TilePtr) : Prop where
  onLine : Tiling.OnLine (T.tilesOf w) T.tileBox a X t
  nodup : anc.Nodup
  live : ∀ u ∈ anc, T.tileLive u = true
  fresh : ∀ u ∈ anc, ¬ Branch (Facing (T.tilesOf w) T.tileBox a X) parent t u
  orig : t = orig ∨ ¬ Branch (Facing (T.tilesOf w) T.tileBox a X) parent t orig
  fuel : T.tileTop + 2 ≤ n + anc.length

variable {n : ℕ} {anc : List TilePtr} {parent : Option TilePtr}

theorem Visit.three_le (h : OnRing T w F a X d orig) (hv : Visit T w a X orig n anc parent t) :
    3 ≤ n := by
  have hnd : (t :: anc).Nodup := List.nodup_cons.mpr ⟨fun ht => hv.fresh t ht .root, hv.nodup⟩
  have hlen := h.inv.length_le hnd fun u hu => by
    rcases List.mem_cons.mp hu with rfl | hu
    · exact hv.onLine.1.1
    · exact hv.live u hu
  have := hv.fuel
  rw [List.length_cons] at hlen
  omega

/-- The visit of the tile the resize begins with. -/
theorem OnRing.visit (h : OnRing T w F a X d t) (hn : T.tileTop + 2 ≤ n) :
    Visit T w a X t n [] none t :=
  ⟨h.orig, List.nodup_nil, by simp, by simp, .inl rfl, hn⟩

/-- The visit of a tile facing `t`. -/
theorem Visit.child (h : OnRing T w F a X d orig) (hv : Visit T w a X orig (n + 1) anc parent t)
    (hf : Facing (T.tilesOf w) T.tileBox a X t it) (hit : some it ≠ parent) :
    Visit T w a X orig n (t :: anc) (some t) it := by
  have hI := h.tiling.interleaved a X
  refine ⟨hv.onLine.branch (.step hf hit .root), ?_, ?_, ?_, .inr ?_, ?_⟩
  · exact List.nodup_cons.mpr ⟨fun ht => hv.fresh t ht .root, hv.nodup⟩
  · intro u hu
    rcases List.mem_cons.mp hu with rfl | hu
    · exact hv.onLine.1.1
    · exact hv.live u hu
  · intro u hu hb
    rcases List.mem_cons.mp hu with rfl | hu
    · exact hI.ne_root_of_branch hf hb rfl
    · exact hv.fresh u hu (.step hf hit hb)
  · intro hb
    rcases hv.orig with rfl | ho
    · exact hI.ne_root_of_branch hf hb rfl
    · exact ho (.step hf hit hb)
  · have := hv.fuel
    rw [List.length_cons]
    omega

/-- **`resize_allowed`** asks whether all tiles of the branch stay nonempty. -/
theorem resizeAllowed_gives (h : OnRing T w F a X d orig)
    (hv : Visit T w a X orig n anc parent t) :
    Gives (resizeAllowed T a orig n t parent (offsets T.tileBox a X d t).1
      (offsets T.tileBox a X d t).2) fun b => b = true ↔
        ∀ u, Branch (Facing (T.tilesOf w) T.tileBox a X) parent t u →
          1 ≤ (Tiling.moved T.tileBox a X d u).dim a := by
  induction n generalizing anc parent t with
  | zero => exact absurd (hv.three_le h) (by omega)
  | succ n ih =>
    have hn := hv.three_le h
    obtain ⟨its, hits, -, hmem⟩ := siblings_spec h.inv hv.onLine.1
    rw [resizeAllowed, if_neg (offsets_ne_zero h.moves), dim_offsets, hits, ok_bind]
    refine Gives.ite (fun hle => Gives.ok ?_) fun hlt => ?_
    · refine ⟨by simp, fun hall => ?_⟩
      have := hall t .root
      omega
    -- the tile itself is fine: what is left are the branches of its neighbours
    refine Gives.mono (P := fun b => b = true ↔ ∀ it ∈ its,
      Facing (T.tilesOf w) T.tileBox a X t it → some it ≠ parent →
        ∀ u, Branch (Facing (T.tilesOf w) T.tileBox a X) (some t) it u →
          1 ≤ (Tiling.moved T.tileBox a X d u).dim a) (Gives.allM fun it hit => ?_) fun b hb => ?_
    · obtain ⟨hitw, hne⟩ := (hmem it).mp hit
      refine Gives.ite (fun hskip => Gives.ok ?_) fun hskip => ?_
      · refine ⟨fun _ hf hp => ?_, fun _ => rfl⟩
        obtain rfl := hskip.resolve_left hp
        rcases hv.orig with rfl | ho
        · exact absurd rfl hne
        · exact absurd (.step hf hp .root) ho
      · rw [not_or] at hskip
        rcases handedOn_offsets (d := d) h.tiling hv.onLine hitw rfl rfl with
          ⟨hf, he⟩ | ⟨hf, he | he⟩
        · rw [he]
          refine (ih (hv.child h hf hskip.1)).mono fun b hb => hb.trans ?_
          exact ⟨fun hall _ _ => hall, fun hall => hall hf hskip.1⟩
        · rw [he]
          exact Gives.ok ⟨fun _ hf' => absurd hf' hf, fun _ => rfl⟩
        · obtain ⟨m, rfl⟩ : ∃ m, n = m + 1 := ⟨n - 1, by omega⟩
          rw [he]
          simp only [resizeAllowed, and_self, if_true]
          exact Gives.ok ⟨fun _ hf' => absurd hf' hf, fun _ => rfl⟩
    · rw [hb]
      refine ⟨fun hall u hu => ?_, fun hall it _ hf hp u hu => hall u (.step hf hp hu)⟩
      cases hu with
      | root => omega
      | @step _ _ j _ hf hp hu =>
        have hj : t ≠ j := by
          rintro rfl
          exact (h.tiling.interleaved a X).irrefl _ hf
        exact hall j ((hmem j).mpr ⟨hf.right, hj.symm⟩) hf hp u hu

/-- `s` is `s₀` with the line at `X` moved by `d` in the tiles of `D`. -/
structure Moved (s₀ : Server) (a : Axis) (X d : ℤ) (D : Set TilePtr) (s : Server) : Prop where
  tiles : s.tiles = { s₀.tiles with tileBox := s.tiles.tileBox }
  moved : ∀ u ∈ D, s.tiles.tileBox u = Tiling.moved s₀.tiles.tileBox a X d u
  same : ∀ u, u ∉ D → s.tiles.tileBox u = s₀.tiles.tileBox u

variable {s₀ s s' : Server} {D : Set TilePtr}

theorem Moved.congr (h : Moved s₀ a X d D s) (hs : s'.tiles = s.tiles) : Moved s₀ a X d D s' := by
  refine ⟨?_, ?_, ?_⟩
  · rw [hs]
    exact h.tiles
  · rw [hs]
    exact h.moved
  · rw [hs]
    exact h.same

/-- Nothing changes across the axis. -/
theorem Moved.across (h : Moved s₀ a X d D s) (u : TilePtr) :
    (s.tiles.tileBox u).coord a.compl = (s₀.tiles.tileBox u).coord a.compl ∧
      (s.tiles.tileBox u).dim a.compl = (s₀.tiles.tileBox u).dim a.compl := by
  by_cases hu : u ∈ D
  · simp [h.moved u hu]
  · simp [h.same u hu]

theorem Moved.meets (h : Moved s₀ a X d D s) {u v : TilePtr}
    (hm : (s.tiles.tileBox u).Meets a (s.tiles.tileBox v)) :
    (s₀.tiles.tileBox u).Meets a (s₀.tiles.tileBox v) := by
  obtain ⟨h1, h2⟩ := h.across u
  obtain ⟨h3, h4⟩ := h.across v
  rwa [Meets, h1, h2, h3, h4] at hm

/-- The tiles of `D`, which have been visited, are not in the branches of
`pending`, and nothing in those faces them. -/
structure Away (T : Tiles) (w : WsPtr) (a : Axis) (X : ℤ) (D pending : Set TilePtr) : Prop where
  onLine : ∀ u ∈ D, Tiling.OnLine (T.tilesOf w) T.tileBox a X u
  notMem : ∀ u ∈ D, u ∉ pending
  notFacing : ∀ u ∈ D, ∀ v ∈ pending, ¬ Facing (T.tilesOf w) T.tileBox a X v u

theorem Away.anti {P P' : Set TilePtr} (h : Away T w a X D P) (hsub : P' ⊆ P) :
    Away T w a X D P' :=
  ⟨h.onLine, fun u hu hb => h.notMem u hu (hsub hb), fun u hu v hb =>
    h.notFacing u hu v (hsub hb)⟩

/-- What `resize` reads when it redraws the tile `t` and tells where it is. -/
@[mk_iff]
structure Drawable (s : Server) (t : TilePtr) : Prop where
  tile : s.tiles.tileLive t = true
  ws : s.tiles.wsLive (s.tiles.tileWorkspace t) = true
  out : s.outs.outLive (s.tiles.wsOutput (s.tiles.tileWorkspace t)) = true
  view : ∀ v, s.disp.tileView t = some v → s.views.viewLive v = true ∧
    ∃ w, s.views.viewWorkspace v = some w ∧ s.tiles.wsLive w = true ∧
      s.outs.outLive (s.tiles.wsOutput w) = true

/-- What a resize leaves alone, boxes apart. -/
structure Redrawn (s₀ s : Server) : Prop where
  outs : s.outs = s₀.outs
  views : s.views = s₀.views
  tileView : s.disp.tileView = s₀.disp.tileView

theorem Redrawn.trans (h : Redrawn s₀ s) (h' : Redrawn s s') : Redrawn s₀ s' :=
  ⟨h'.outs.trans h.outs, h'.views.trans h.views, h'.tileView.trans h.tileView⟩

theorem drawable_congr (ht : s.tiles = { s₀.tiles with tileBox := s.tiles.tileBox })
    (hr : Redrawn s₀ s) : s.Drawable t ↔ s₀.Drawable t := by
  have h1 : s.tiles.tileLive = s₀.tiles.tileLive := by rw [ht]
  have h2 : s.tiles.wsLive = s₀.tiles.wsLive := by rw [ht]
  have h3 : s.tiles.tileWorkspace = s₀.tiles.tileWorkspace := by rw [ht]
  have h4 : s.tiles.wsOutput = s₀.tiles.wsOutput := by rw [ht]
  rw [drawable_iff, drawable_iff, h1, h2, h3, h4, hr.outs, hr.views, hr.tileView]

/-- The event for a tile on the line at `X` that has moved by `d`. -/
def resizeEvent (s : Server) (a : Axis) (X d : ℤ) (t : TilePtr) : Event :=
  let w := s.tiles.tileWorkspace t
  let o := s.tiles.wsOutput w
  .resizeTile (s.tiles.tileId t) (s.tiles.tileBox t) (Tiling.moved s.tiles.tileBox a X d t)
    (s.tiles.wsNum w + 1) (s.outs.outName o) (s.outs.outputGetNum o)

/-- The tiles of `B` have been visited once each, in some order. -/
def Reported (s₀ : Server) (a : Axis) (X d : ℤ) (B : Set TilePtr) (s s' : Server) : Prop :=
  ∃ l : List TilePtr, l.Nodup ∧ (∀ u, u ∈ l ↔ u ∈ B) ∧
    s'.events = s.events ++ l.map (s₀.resizeEvent a X d)

theorem Reported.nil : Reported s₀ a X d ∅ s s := ⟨[], List.nodup_nil, by simp, by simp⟩

theorem Reported.trans {B C : Set TilePtr} {s'' : Server} (h : Reported s₀ a X d B s s')
    (h' : Reported s₀ a X d C s' s'') (hdisj : ∀ u ∈ B, u ∉ C) :
    Reported s₀ a X d (B ∪ C) s s'' := by
  obtain ⟨l, hl, hmem, he⟩ := h
  obtain ⟨l', hl', hmem', he'⟩ := h'
  refine ⟨l ++ l', ?_, ?_, ?_⟩
  · refine List.nodup_append.mpr ⟨hl, hl', ?_⟩
    rintro u hu v hv rfl
    exact hdisj u ((hmem u).mp hu) ((hmem' u).mp hv)
  · intro u
    rw [List.mem_append, hmem, hmem', Set.mem_union]
  · rw [he', he, List.append_assoc, List.map_append]

/-- From `s` the tiles of `B` are visited, after those of `D`. -/
structure Resized (s₀ : Server) (a : Axis) (X d : ℤ) (D B : Set TilePtr) (s s' : Server) :
    Prop where
  moved : Moved s₀ a X d (D ∪ B) s'
  redrawn : Redrawn s₀ s'
  reported : Reported s₀ a X d B s s'

/-- What a recursive call with `n` units of fuel does. -/
def ResizeSpec (s₀ : Server) (w : WsPtr) (a : Axis) (X d : ℤ) (orig : TilePtr) (n : ℕ) : Prop :=
  ∀ (anc : List TilePtr) (parent : Option TilePtr) (t : TilePtr) (D : Set TilePtr) (s : Server),
    Visit s₀.tiles w a X orig n anc parent t → Moved s₀ a X d D s → Redrawn s₀ s →
    Away s₀.tiles w a X D
      {u | Branch (Facing (s₀.tiles.tilesOf w) s₀.tiles.tileBox a X) parent t u} →
    Exactly (∀ u, Branch (Facing (s₀.tiles.tilesOf w) s₀.tiles.tileBox a X) parent t u →
        s₀.Drawable u)
      (resize a orig n s t parent (offsets s₀.tiles.tileBox a X d t).1
        (offsets s₀.tiles.tileBox a X d t).2)
      (Resized s₀ a X d D
        {u | Branch (Facing (s₀.tiles.tilesOf w) s₀.tiles.tileBox a X) parent t u} s)

/-- The branches that begin at the tiles of `l` facing `t`. -/
def branches (T : Tiles) (w : WsPtr) (a : Axis) (X : ℤ) (parent : Option TilePtr) (t : TilePtr)
    (l : List TilePtr) : Set TilePtr :=
  {u | ∃ j ∈ l, Facing (T.tilesOf w) T.tileBox a X t j ∧ some j ≠ parent ∧
    Branch (Facing (T.tilesOf w) T.tileBox a X) (some t) j u}

theorem branches_subset {l : List TilePtr} : branches T w a X parent t l ⊆
    {u | Branch (Facing (T.tilesOf w) T.tileBox a X) parent t u} := by
  rintro u ⟨j, -, hf, hp, hu⟩
  exact Branch.step hf hp hu

theorem branches_cons_subset {l : List TilePtr} :
    branches T w a X parent t l ⊆ branches T w a X parent t (it :: l) :=
  fun _ ⟨j, hj, hu⟩ => ⟨j, List.mem_cons_of_mem _ hj, hu⟩

/-- A tile that is no neighbour, or the parent, adds no branch. -/
theorem branches_cons_skip {l : List TilePtr}
    (hno : Facing (T.tilesOf w) T.tileBox a X t it → some it = parent) :
    branches T w a X parent t (it :: l) = branches T w a X parent t l := by
  refine Set.Subset.antisymm ?_ branches_cons_subset
  rintro u ⟨j, hj, hf, hp, hu⟩
  rcases List.mem_cons.mp hj with rfl | hj
  · exact absurd (hno hf) hp
  · exact ⟨j, hj, hf, hp, hu⟩

theorem notMem_branches (h : OnRing T w F a X d orig) {l : List TilePtr} :
    t ∉ branches T w a X parent t l := by
  rintro ⟨j, -, hf, -, hu⟩
  exact (h.tiling.interleaved a X).ne_root_of_branch hf hu rfl

theorem viewMaximize_exactly {v : ViewPtr} :
    Exactly (s.tiles.tileLive t = true ∧ s.views.viewLive v = true ∧
        ∃ w, s.views.viewWorkspace v = some w ∧ s.tiles.wsLive w = true ∧
          s.outs.outLive (s.tiles.wsOutput w) = true)
      (s.viewMaximize v t) fun s' => s'.tiles = s.tiles ∧ Redrawn s s' ∧ s'.events = s.events := by
  refine Exactly.deref ?_
  show Exactly _ ((Exec.deref (s.views.viewLive v) >>=
    fun _ => nonNull (s.views.viewWorkspace v)) >>=
    _) _
  rw [bind_assoc]
  refine Exactly.deref ?_
  cases s.views.viewWorkspace v with
  | none => exact .inr ⟨by simp, rfl⟩
  | some w =>
    refine Exactly.congr (Exactly.deref (Exactly.ok ⟨rfl, ⟨rfl, rfl, rfl⟩, rfl⟩)) ?_
    simp

theorem placeOf_exactly :
    Exactly (s.tiles.tileLive t = true ∧ s.tiles.wsLive (s.tiles.tileWorkspace t) = true ∧
        s.outs.outLive (s.tiles.wsOutput (s.tiles.tileWorkspace t)) = true)
      (s.placeOf t) fun place => place = ((s.tiles.wsNum (s.tiles.tileWorkspace t) + 1 : ℤ),
        s.outs.outName (s.tiles.wsOutput (s.tiles.tileWorkspace t)),
        s.outs.outputGetNum (s.tiles.wsOutput (s.tiles.tileWorkspace t))) := by
  refine Exactly.congr (Exactly.bind (P := fun o => o = s.tiles.wsOutput (s.tiles.tileWorkspace t))
    (Exactly.deref (Exactly.deref (Exactly.deref (Exactly.ok rfl)))) (e := True) ?_) (by simp)
  rintro _ rfl
  exact Exactly.ok rfl

/-- The end of a visit: the view of the tile is redrawn and the clients are told. -/
theorem redraw_exactly {b b' : Rect} :
    Exactly (s.Drawable t)
      (ifSome (s.disp.tileView t) s (fun v => s.viewMaximize v t) >>= fun s =>
        s.placeOf t >>= fun (ws, output, outputId) =>
          .ok (s.emit (.resizeTile (s.tiles.tileId t) b b' ws output outputId)))
      fun s' => s'.tiles = s.tiles ∧ Redrawn s s' ∧ s'.events = s.events ++
        [.resizeTile (s.tiles.tileId t) b b' (s.tiles.wsNum (s.tiles.tileWorkspace t) + 1)
          (s.outs.outName (s.tiles.wsOutput (s.tiles.tileWorkspace t)))
          (s.outs.outputGetNum (s.tiles.wsOutput (s.tiles.tileWorkspace t)))] := by
  refine Exactly.congr (Exactly.bind (P := fun s' => s'.tiles = s.tiles ∧ Redrawn s s' ∧
      s'.events = s.events)
    (Exactly.ifSome (fun _ => ⟨rfl, ⟨rfl, rfl, rfl⟩, rfl⟩) fun v _ => viewMaximize_exactly)
    (e := s.tiles.tileLive t = true ∧ s.tiles.wsLive (s.tiles.tileWorkspace t) = true ∧
        s.outs.outLive (s.tiles.wsOutput (s.tiles.tileWorkspace t)) = true) ?_) ?_
  · rintro s' ⟨ht, hr, he⟩
    have houts := hr.outs
    refine Exactly.congr (Exactly.bind placeOf_exactly (e := True) ?_) (by rw [ht, houts, and_true])
    rintro _ rfl
    refine Exactly.ok ⟨ht, ⟨houts, hr.views, hr.tileView⟩, ?_⟩
    rw [emit, he, ht, houts]
  · constructor
    · rintro ⟨h1, h2, h3, h4⟩
      exact ⟨fun v hv => ⟨h1, h4 v hv⟩, h1, h2, h3⟩
    · rintro ⟨h4, h1, h2, h3⟩
      exact ⟨h1, h2, h3, fun v hv => (h4 v hv).2⟩

/-- The loop over the tiles around `t`: those left to look at are `l`, those
visited so far `D`. -/
theorem resize_loop (h : OnRing s₀.tiles w F a X d orig) (ih : ResizeSpec s₀ w a X d orig n)
    (hv : Visit s₀.tiles w a X orig (n + 1) anc parent t) {l : List TilePtr} (hnd : l.Nodup)
    (hl : ∀ u ∈ l, u ∈ s₀.tiles.tilesOf w ∧ u ≠ t) (hs : Moved s₀ a X d D s)
    (hr : Redrawn s₀ s)
    (haway : Away s₀.tiles w a X D (branches s₀.tiles w a X parent t l)) (htD : t ∉ D)
    (hface : ∀ u ∈ D, u ∈ l → ¬ Facing (s₀.tiles.tilesOf w) s₀.tiles.tileBox a X t u) :
    Exactly (∀ u ∈ branches s₀.tiles w a X parent t l, s₀.Drawable u) (l.foldlM (fun s it =>
        if some it = parent ∨ it = orig then .ok s
        else match handedOn s.tiles a t it (offsets s₀.tiles.tileBox a X d t).1
            (offsets s₀.tiles.tileBox a X d t).2 with
          | none => .ok s
          | some (c, d) => resize a orig n s it (some t) c d) s)
      (Resized s₀ a X d D (branches s₀.tiles w a X parent t l) s) := by
  have hI := h.tiling.interleaved a X
  have hn := hv.three_le h
  induction l generalizing D s with
  | nil =>
    have he : branches s₀.tiles w a X parent t [] = ∅ := by
      ext u
      simp [branches]
    rw [he]
    refine (Exactly.ok ⟨?_, hr, .nil⟩).congr (by simp)
    rwa [Set.union_empty]
  | cons it l ihl =>
    obtain ⟨hitl, hnd⟩ := List.nodup_cons.mp hnd
    obtain ⟨hitw, hne⟩ := hl it List.mem_cons_self
    have haway' := haway.anti branches_cons_subset
    -- a tile that is no neighbour, or the parent, adds no branch
    have hskip : (Facing (s₀.tiles.tilesOf w) s₀.tiles.tileBox a X t it → some it = parent) →
        Exactly (∀ u ∈ branches s₀.tiles w a X parent t (it :: l), s₀.Drawable u)
          (l.foldlM (fun s it =>
            if some it = parent ∨ it = orig then .ok s
            else match handedOn s.tiles a t it (offsets s₀.tiles.tileBox a X d t).1
                (offsets s₀.tiles.tileBox a X d t).2 with
              | none => .ok s
              | some (c, d) => resize a orig n s it (some t) c d) s)
          (Resized s₀ a X d D (branches s₀.tiles w a X parent t (it :: l)) s) := by
      intro hno
      rw [branches_cons_skip hno]
      exact ihl hnd (fun u hu => hl u (List.mem_cons_of_mem _ hu)) hs hr haway' htD
        fun u hu hul => hface u hu (List.mem_cons_of_mem _ hul)
    rw [List.foldlM_cons]
    by_cases hc : some it = parent ∨ it = orig
    · rw [if_pos hc, ok_bind]
      refine hskip fun hf => ?_
      by_contra hp
      obtain rfl := hc.resolve_left hp
      rcases hv.orig with rfl | ho
      · exact hne rfl
      · exact ho (.step hf hp .root)
    rw [if_neg hc]
    rw [not_or] at hc
    by_cases hitD : it ∈ D
    · -- visited on an earlier branch: it does not even overlap with `t`
      have hno := hface it hitD List.mem_cons_self
      have hm : ¬ (s.tiles.tileBox t).Meets a (s.tiles.tileBox it) := fun hm =>
        hno (hv.onLine.facing h.tiling (haway.onLine it hitD) hne.symm (hs.meets hm))
      rw [handedOn_of_not_meets hm]
      exact hskip fun hf => absurd hf hno
    rcases handedOn_offsets (T := s.tiles) (d := d) h.tiling hv.onLine hitw (hs.same t htD)
      (hs.same it hitD) with ⟨hf, he⟩ | ⟨hf, he | he⟩
    · have hsplit : branches s₀.tiles w a X parent t (it :: l) =
          {u | Branch (Facing (s₀.tiles.tilesOf w) s₀.tiles.tileBox a X) (some t) it u} ∪
            branches s₀.tiles w a X parent t l := by
        refine Set.Subset.antisymm ?_ (Set.union_subset ?_ branches_cons_subset)
        · rintro u ⟨j, hj, hfj, hp, hu⟩
          rcases List.mem_cons.mp hj with rfl | hj
          · exact .inl hu
          · exact .inr ⟨j, hj, hfj, hp, hu⟩
        · exact fun u hu => ⟨it, List.mem_cons_self, hf, hc.1, hu⟩
      have hmem : ∀ u, Branch (Facing (s₀.tiles.tilesOf w) s₀.tiles.tileBox a X) (some t) it u →
          u ∈ branches s₀.tiles w a X parent t (it :: l) := fun u hu =>
        ⟨it, List.mem_cons_self, hf, hc.1, hu⟩
      have hjne : ∀ j ∈ l, it ≠ j := fun j hj e => hitl (e ▸ hj)
      rw [he, hsplit]
      refine (Exactly.bind (ih (t :: anc) (some t) it D s (hv.child h hf hc.1) hs hr
        (haway.anti fun u hu => hmem u hu)) fun s₁ hs₁ =>
          (ihl hnd (fun u hu => hl u (List.mem_cons_of_mem _ hu)) hs₁.moved hs₁.redrawn
            ⟨?_, ?_, ?_⟩ ?_ ?_).mono fun s₂ hs₂ => ?_).congr ?_
      · rintro u (hu | hu)
        · exact haway.onLine u hu
        · exact hv.onLine.branch (.step hf hc.1 hu)
      · rintro u (hu | hu)
        · exact haway'.notMem u hu
        · rintro ⟨j, hj, hfj, -, hb⟩
          exact hI.ne_of_branch hf hfj (hjne j hj) hu hb rfl
      · rintro u (hu | hu)
        · exact haway'.notFacing u hu
        · rintro v ⟨j, hj, hfj, -, hb⟩
          exact hI.not_of_branch hfj hf (hjne j hj).symm hb hu
      · rintro (hu | hu)
        · exact htD hu
        · exact hI.ne_root_of_branch hf hu rfl
      · rintro u (hu | hu) hul hfu
        · exact hface u hu (List.mem_cons_of_mem _ hul) hfu
        · exact hI.ne_of_branch hf hfu (hjne u hul) hu .root rfl
      · refine ⟨?_, hs₂.redrawn, hs₁.reported.trans hs₂.reported fun u hu => ?_⟩
        · rw [← Set.union_assoc]
          exact hs₂.moved
        · rintro ⟨j, hj, hfj, -, hb⟩
          exact hI.ne_of_branch hf hfj (hjne j hj) hu hb rfl
      · simp only [Set.mem_union, or_imp, forall_and]
        rfl
    · rw [he]
      exact hskip fun hf' => absurd hf' hf
    · obtain ⟨m, rfl⟩ : ∃ m, n = m + 1 := ⟨n - 1, by omega⟩
      rw [he]
      simp only [resize, and_self, if_true]
      exact hskip fun hf' => absurd hf' hf

/-- **`resize`** moves the line in all tiles of the branch, and visits each of
them once. -/
theorem resize_exactly (h : OnRing s₀.tiles w F a X d orig) : ResizeSpec s₀ w a X d orig n := by
  induction n with
  | zero => exact fun anc parent t D s hv => absurd (hv.three_le h) (by omega)
  | succ n ih =>
    intro anc parent t D s hv hs hr haway
    have hI := h.tiling.interleaved a X
    have hinv : s.tiles.TilesInv False none := by
      rw [hs.tiles]
      exact h.inv.setBoxes _
    have hw : s.tiles.tilesOf w = s₀.tiles.tilesOf w := by
      rw [hs.tiles]
      rfl
    obtain ⟨its, hits, hnd, hmem⟩ := siblings_spec hinv (hw ▸ hv.onLine.1)
    rw [hw] at hmem
    have htD : t ∉ D := fun ht => haway.notMem t ht .root
    -- the tile and the branches of its neighbours make up the branch
    have hbranch : {u | Branch (Facing (s₀.tiles.tilesOf w) s₀.tiles.tileBox a X) parent t u} =
        branches s₀.tiles w a X parent t its ∪ {t} := by
      ext u
      refine ⟨fun hu => ?_, ?_⟩
      · cases hu with
        | root => exact .inr rfl
        | @step _ _ j _ hf hp hu =>
          have hj : j ≠ t := by
            rintro rfl
            exact hI.irrefl _ hf
          exact .inl ⟨j, (hmem j).mpr ⟨hf.right, hj⟩, hf, hp, hu⟩
      · rintro (hu | rfl)
        · exact branches_subset hu
        · exact Branch.root
    have htb : t ∉ branches s₀.tiles w a X parent t its := notMem_branches h
    have hdraw : (∀ u, Branch (Facing (s₀.tiles.tilesOf w) s₀.tiles.tileBox a X) parent t u →
        s₀.Drawable u) ↔
          (∀ u ∈ branches s₀.tiles w a X parent t its, s₀.Drawable u) ∧ s₀.Drawable t := by
      change (∀ u ∈ {u | Branch (Facing (s₀.tiles.tilesOf w) s₀.tiles.tileBox a X) parent t u},
        s₀.Drawable u) ↔ _
      rw [hbranch]
      simp [or_imp, forall_and, and_comm]
    rw [hbranch] at haway
    rw [resize, if_neg (offsets_ne_zero h.moves), hits, ok_bind, hbranch]
    refine (Exactly.bind (resize_loop h ih hv hnd (fun u hu => (hmem u).mp hu) hs hr
      (haway.anti Set.subset_union_left) htD
      fun u hu _ => haway.notFacing u hu t (.inr rfl)) fun s₁ hs₁ => ?_).congr hdraw
    have hbox : s₁.tiles.tileBox t = s₀.tiles.tileBox t :=
      hs₁.moved.same t fun ht => ht.elim htD htb
    set box : TilePtr → Rect := Function.update s₁.tiles.tileBox t
      (Tiling.moved s₀.tiles.tileBox a X d t) with hboxes
    have hs₂ : Moved s₀ a X d (D ∪ (branches s₀.tiles w a X parent t its ∪ {t}))
        { s₁ with tiles.tileBox := box } := by
      rw [← Set.union_assoc]
      refine ⟨?_, fun u hu => ?_, fun u hu => ?_⟩
      · rw [hs₁.moved.tiles]
      · by_cases e : u = t
        · subst e
          simp [hboxes]
        · simpa [hboxes, e] using hs₁.moved.moved u (hu.resolve_right e)
      · have e : u ≠ t := fun e => hu (.inr e)
        simpa [hboxes, e] using hs₁.moved.same u fun h => hu (.inl h)
    have hid : s₁.tiles.tileId = s₀.tiles.tileId := by rw [hs₁.moved.tiles]
    have hws : s₁.tiles.tileWorkspace = s₀.tiles.tileWorkspace := by rw [hs₁.moved.tiles]
    have hnum : s₁.tiles.wsNum = s₀.tiles.wsNum := by rw [hs₁.moved.tiles]
    have hout : s₁.tiles.wsOutput = s₀.tiles.wsOutput := by rw [hs₁.moved.tiles]
    have hr₂ : Redrawn s₀ { s₁ with tiles.tileBox := box } :=
      ⟨hs₁.redrawn.outs, hs₁.redrawn.views, hs₁.redrawn.tileView⟩
    simp only [hbox, setSpan_offsets]
    refine Exactly.congr (redraw_exactly.mono fun s₃ ⟨ht₃, hr₃, he₃⟩ => ?_)
      (drawable_congr hs₂.tiles hr₂).symm
    refine ⟨hs₂.congr ht₃, hr₂.trans hr₃, hs₁.reported.trans ⟨[t], ?_, ?_, ?_⟩ ?_⟩
    · simp
    · simp
    · simp only [he₃, hid, hws, hnum, hout, hs₁.redrawn.outs]
      rfl
    · rintro u hu rfl
      exact htb hu

/-! ### The commands -/

/-- The box of the output a tile is on. -/
def ownFrame (s : Server) (t : TilePtr) : Rect :=
  (s.outs.outBox (s.tiles.wsOutput (s.tiles.tileWorkspace t))).frame

/-- A resize for the box of the output `o` moves the far edge of the box of the
output the tile is on: the tile ends there, the edge is not taken for the far
edge because `o` has another size, and the size of the tile lies within that of
`o` before and after. -/
def MovesOuterEdge (s : Server) (a : Axis) (o : OutPtr) (t : TilePtr) (pixs : ℤ) : Prop :=
  let b := s.tiles.tileBox t
  let size := (s.outs.outBox o).frame.dim a
  pixs ≠ 0 ∧ b.dim a < size ∧ 0 < b.dim a + pixs ∧ b.dim a + pixs < size ∧
    b.coord a + b.dim a = (s.ownFrame t).dim a ∧ (s.ownFrame t).dim a ≠ size

/-- The same with the far edge of any frame. -/
def MovesEdgeOf (s : Server) (F : Rect) (a : Axis) (o : OutPtr) (t : TilePtr) (pixs : ℤ) : Prop :=
  let b := s.tiles.tileBox t
  let size := (s.outs.outBox o).frame.dim a
  pixs ≠ 0 ∧ b.dim a < size ∧ 0 < b.dim a + pixs ∧ b.dim a + pixs < size ∧
    b.coord a + b.dim a = F.dim a ∧ F.dim a ≠ size

/-- The tiles joined to the edge at `X` of the tile `t`. -/
def joined (T : Tiles) (w : WsPtr) (a : Axis) (X : ℤ) (t : TilePtr) : Set TilePtr :=
  {u | Relation.ReflTransGen (Facing (T.tilesOf w) T.tileBox a X) t u}

theorem mem_joined {u : TilePtr} : u ∈ joined T w a X t ↔
    Branch (Facing (T.tilesOf w) T.tileBox a X) none t u :=
  Branch.none_iff.symm

theorem tilesOf_of_joined (ht : t ∈ T.tilesOf w) (hit : it ∈ joined T w a X t) :
    it ∈ T.tilesOf w := by
  cases hit with
  | refl => exact ht
  | tail _ hf => exact hf.right

/-- The edge of `t` that a resize for the box of the output `o` moves, and by how much:
the near one if `t` ends at the far edge of that box, else the far one. -/
def movedEdge (s : Server) (a : Axis) (o : OutPtr) (t : TilePtr) (pixs : ℤ) : ℤ × ℤ :=
  let b := s.tiles.tileBox t
  if b.coord a + b.dim a = (s.outs.outBox o).frame.dim a then (b.coord a, -pixs)
  else (b.coord a + b.dim a, pixs)

/-- The tiles that such a resize changes. -/
def movedTiles (s : Server) (a : Axis) (o : OutPtr) (t : TilePtr) (pixs : ℤ) : Set TilePtr :=
  joined s.tiles (s.tiles.tileWorkspace t) a (s.movedEdge a o t pixs).1 t

/-- The resize is carried out: the size of `t` lies within that of `o` before and after,
and every tile that is changed keeps a size. -/
structure CarriesOut (s : Server) (a : Axis) (o : OutPtr) (t : TilePtr) (pixs : ℤ) : Prop where
  moves : pixs ≠ 0
  lt : (s.tiles.tileBox t).dim a < (s.outs.outBox o).frame.dim a
  pos : 0 < (s.tiles.tileBox t).dim a + pixs
  below : (s.tiles.tileBox t).dim a + pixs < (s.outs.outBox o).frame.dim a
  roomy : ∀ u ∈ s.movedTiles a o t pixs, 1 ≤ (Tiling.moved s.tiles.tileBox a
    (s.movedEdge a o t pixs).1 (s.movedEdge a o t pixs).2 u).dim a

/-- If the resize is carried out, no tile that it changes shows a view that is gone. -/
def DrawsLive (s : Server) (a : Axis) (o : OutPtr) (t : TilePtr) (pixs : ℤ) : Prop :=
  s.CarriesOut a o t pixs → ∀ u ∈ s.movedTiles a o t pixs, s.Drawable u

/-- Nothing but boxes of tiles in the workspace of `t` has changed among the tiles. -/
structure Reshaped (s : Server) (t : TilePtr) (s' : Server) : Prop where
  tiles : s'.tiles = { s.tiles with tileBox := s'.tiles.tileBox }
  elsewhere : ∀ u, u ∉ s.tiles.tilesOf (s.tiles.tileWorkspace t) →
    s'.tiles.tileBox u = s.tiles.tileBox u

/-- The recursion begun at a tile moves the line in the tiles joined to it, or nothing. -/
theorem resize_joined (h : OnRing s.tiles w F a X d t) :
    Exactly ((∀ u ∈ joined s.tiles w a X t, 1 ≤ (Tiling.moved s.tiles.tileBox a X d u).dim a) →
        ∀ u ∈ joined s.tiles w a X t, s.Drawable u)
      (resizeAllowed s.tiles a t (s.tiles.tileTop + 2) t none
        (offsets s.tiles.tileBox a X d t).1 (offsets s.tiles.tileBox a X d t).2 >>= fun allowed =>
      if allowed then resize a t (s.tiles.tileTop + 2) s t none
        (offsets s.tiles.tileBox a X d t).1 (offsets s.tiles.tileBox a X d t).2 else .ok s)
      fun s' =>
      s' = s ∧ ¬ (∀ u ∈ joined s.tiles w a X t,
          1 ≤ (Tiling.moved s.tiles.tileBox a X d u).dim a) ∨
        Moved s a X d (joined s.tiles w a X t) s' ∧
          ∀ u ∈ joined s.tiles w a X t, 1 ≤ (Tiling.moved s.tiles.tileBox a X d u).dim a := by
  have hv := h.visit le_rfl
  have hset : {u | Branch (Facing (s.tiles.tilesOf w) s.tiles.tileBox a X) none t u} =
      joined s.tiles w a X t := by
    ext u
    exact mem_joined.symm
  obtain ⟨allowed, hallowed, hroom⟩ := resizeAllowed_gives h hv
  rw [hallowed, ok_bind]
  have hroom' : allowed = true ↔ ∀ u ∈ joined s.tiles w a X t,
      1 ≤ (Tiling.moved s.tiles.tileBox a X d u).dim a := by
    simp only [hroom, mem_joined]
  have hspec := resize_exactly h [] none t ∅ s hv ⟨rfl, by simp, by simp⟩ ⟨rfl, rfl, rfl⟩
    ⟨by simp, by simp, by simp⟩
  rw [hset] at hspec
  rw [← hroom']
  refine Exactly.ite (fun hok => ?_) fun hno => Gives.ok (.inl ⟨rfl, hno⟩)
  refine (hspec.mono fun s' hs' => .inr ⟨?_, hok⟩).congr (by simp only [mem_joined])
  have hmoved := hs'.moved
  rwa [Set.empty_union] at hmoved

/-- **Resizing along one axis** keeps the partition of the frame of the workspace exactly
when it does not move the far edge of the frame.  Other workspaces are left alone. -/
theorem resizeAlong_frame (h : s.tiles.TilesInv False none) {o : OutPtr} {pixs : ℤ}
    (hlive : s.tiles.tileLive t = true) (hF : ∀ a, F.coord a = 0)
    (hp : Tiling F (s.tiles.tilesOf (s.tiles.tileWorkspace t)) s.tiles.tileBox) :
    Exactly (s.DrawsLive a o t pixs) (s.resizeAlong a o t pixs) fun s' => s.Reshaped t s' ∧
      (Tiling F (s.tiles.tilesOf (s.tiles.tileWorkspace t)) s'.tiles.tileBox ↔
        ¬ s.MovesEdgeOf F a o t pixs) := by
  have htw : t ∈ s.tiles.tilesOf (s.tiles.tileWorkspace t) := ⟨hlive, rfl⟩
  have hpos := hp.pos t htw a
  have hins := hp.inside t htw a
  have hF := hF a
  rw [hF] at hins
  rw [resizeAlong, deref_eq_ok.mpr hlive, ok_bind]
  by_cases hguard : pixs ≠ 0 ∧ (s.tiles.tileBox t).dim a < (s.outs.outBox o).frame.dim a ∧
      isBetweenStrict 0 ((s.outs.outBox o).frame.dim a) ((s.tiles.tileBox t).dim a + pixs)
  swap
  · -- the guards hold the resize back
    have hno : ¬ s.CarriesOut a o t pixs := fun hc =>
      hguard ⟨hc.moves, hc.lt, by simp [isBetweenStrict, hc.pos, hc.below]⟩
    simp only [if_neg hguard]
    refine (Exactly.ok ⟨⟨rfl, fun _ _ => rfl⟩, iff_of_true hp fun hout => hguard ?_⟩).congr
      (iff_true_intro fun hc => absurd hc hno)
    obtain ⟨h1, h2, h3, h4, -⟩ := hout
    exact ⟨h1, h2, by simp [isBetweenStrict, h3, h4]⟩
  simp only [if_pos hguard]
  obtain ⟨hpix, hlt, hbetween⟩ := hguard
  simp only [isBetweenStrict, Bool.and_eq_true, decide_eq_true_eq] at hbetween
  -- which edge is moved, by how much, and where it lies
  obtain ⟨X, d, hedge, hoff, hline, hd, hX, hcase⟩ : ∃ X d, s.movedEdge a o t pixs = (X, d) ∧
      offsets s.tiles.tileBox a X d t = (if (s.tiles.tileBox t).coord a +
        (s.tiles.tileBox t).dim a = (s.outs.outBox o).frame.dim a then -pixs else 0, pixs) ∧
      Tiling.OnLine (s.tiles.tilesOf (s.tiles.tileWorkspace t)) s.tiles.tileBox a X t ∧
      d ≠ 0 ∧ 0 < X ∧ (X < F.dim a ∧ ¬ s.MovesEdgeOf F a o t pixs ∨ X = F.dim a ∧
        (s.tiles.tileBox t).coord a + (s.tiles.tileBox t).dim a = X ∧ d = pixs ∧
          s.MovesEdgeOf F a o t pixs) := by
    by_cases hfar : (s.tiles.tileBox t).coord a + (s.tiles.tileBox t).dim a =
        (s.outs.outBox o).frame.dim a
    · -- at the far edge of `o`: the near edge of the tile moves
      refine ⟨(s.tiles.tileBox t).coord a, -pixs, if_pos hfar, ?_, ⟨htw, .inr rfl⟩,
        neg_ne_zero.mpr hpix, by omega,
        .inl ⟨by omega, fun hout => hout.2.2.2.2.2 (hout.2.2.2.2.1.symm.trans hfar)⟩⟩
      rw [offsets, if_neg (by omega), neg_neg, if_pos hfar]
    · refine ⟨(s.tiles.tileBox t).coord a + (s.tiles.tileBox t).dim a, pixs, if_neg hfar, ?_,
        ⟨htw, .inl rfl⟩, hpix, by omega, ?_⟩
      · rw [offsets, if_pos rfl, if_neg hfar]
      by_cases hend : (s.tiles.tileBox t).coord a + (s.tiles.tileBox t).dim a = F.dim a
      · exact .inr ⟨hend, rfl, rfl, hpix, hlt, hbetween.1, hbetween.2, hend,
          fun e => hfar (hend.trans e)⟩
      · exact .inl ⟨by omega, fun hout => hend hout.2.2.2.2.1⟩
  have hmain := resize_joined ⟨h, hp, hline, hd⟩
  rw [hoff] at hmain
  refine (hmain.mono ?_).congr ?_
  swap
  · -- the guards let the resize pass
    have hroom : s.CarriesOut a o t pixs ↔
        ∀ u ∈ joined s.tiles (s.tiles.tileWorkspace t) a X t,
          1 ≤ (Tiling.moved s.tiles.tileBox a X d u).dim a := by
      have hall : s.movedTiles a o t pixs = joined s.tiles (s.tiles.tileWorkspace t) a X t := by
        rw [movedTiles, hedge]
      rw [← hall]
      refine ⟨fun hc => ?_, fun hroom => ⟨hpix, hlt, hbetween.1, hbetween.2, ?_⟩⟩
      · have := hc.roomy
        rwa [hedge] at this
      · rwa [hedge]
    rw [DrawsLive, hroom, movedTiles, hedge]
  have hreshaped : ∀ s', Moved s a X d (joined s.tiles (s.tiles.tileWorkspace t) a X t) s' →
      s.Reshaped t s' := fun s' hm =>
    ⟨hm.tiles, fun u hu => hm.same u fun hb => hu (hline.branch (mem_joined.mp hb)).1⟩
  rcases hcase with ⟨hX', hno⟩ | ⟨hX', hend, rfl, hout⟩
  · rintro s' (⟨rfl, -⟩ | ⟨hm, hfine⟩)
    · exact ⟨⟨rfl, fun _ _ => rfl⟩, iff_of_true hp hno⟩
    · exact ⟨hreshaped s' hm, iff_of_true (hp.shift_branch (d := d) (by omega) (by omega) hline
        (fun u hu => hm.moved u (mem_joined.mpr hu))
        (fun u _ hu => hm.same u fun hj => hu (mem_joined.mp hj))
        fun u hu => hfine u (mem_joined.mpr hu)) hno⟩
  · -- nothing lies behind the outer edge
    have halone : ∀ u ∈ joined s.tiles (s.tiles.tileWorkspace t) a X t, u = t := by
      intro u hu
      cases mem_joined.mp hu with
      | root => rfl
      | @step _ _ j _ hf _ _ =>
        have hj := hp.pos j hf.right a
        have hj' := hp.inside j hf.right a
        rw [hF] at hj'
        have hs := hf.sides
        simp only [EndsAt, StartsAt] at hs
        omega
    have hself : t ∈ joined s.tiles (s.tiles.tileWorkspace t) a X t := mem_joined.mpr .root
    have hmt : (Tiling.moved s.tiles.tileBox a X d t).dim a = (s.tiles.tileBox t).dim a + d := by
      rw [Tiling.moved, if_pos hend, dim_setSpan]
    rintro s' (⟨-, hbad⟩ | ⟨hm, -⟩)
    · refine absurd (fun u hu => ?_) hbad
      rw [halone u hu, hmt]
      omega
    · refine ⟨hreshaped s' hm, iff_of_false ?_ (not_not.mpr hout)⟩
      exact hp.not_tiling_of_edge (a := a) (d := d) (by omega) htw hend hd (hm.moved t hself)
        fun u _ hu => hm.same u fun hu' => hu (halone u hu')

theorem resizeAlong_zero {o : OutPtr} : Ensures (s.resizeAlong a o t 0) fun s' => s' = s :=
  Ensures.deref fun _ => Ensures.ite (fun h => absurd rfl h.1) fun _ => Ensures.ok rfl

theorem resizeAlong_zero_eq {o : OutPtr} (hlive : s.tiles.tileLive t = true) :
    s.resizeAlong a o t 0 = .ok s := by
  rw [resizeAlong, deref_eq_ok.mpr hlive, ok_bind]
  exact if_neg fun h => h.1 rfl

/-- The tile that `resize_tile` chooses is the one the command addresses. -/
theorem chosenTile_eq {f : TilePtr} {tileId : ℕ} (hf : s.curTile = .ok f) :
    (if tileId ≠ 0 then s.tileFromId tileId else .ok (some f)) = s.addressedTile tileId := by
  rw [addressedTile, hf, ok_bind]
  by_cases hid : tileId = 0
  · rw [if_neg (not_not.mpr hid), if_pos hid]
  · rw [if_pos hid, if_neg hid]

theorem resizeTile_eq {o : OutPtr} {f : TilePtr} {hpixs vpixs : ℤ} {tileId : ℕ}
    (ho : s.outs.currOutput = some o) (hf : s.curTile = .ok f)
    (ht : s.addressedTile tileId = .ok (some t)) :
    s.resizeTile hpixs vpixs tileId =
      (s.resizeAlong .horizontal o t hpixs >>= fun s => s.resizeAlong .vertical o t vpixs) := by
  have htile : (if tileId ≠ 0 then s.tileFromId tileId else .ok (some f)) = .ok (some t) :=
    (chosenTile_eq hf).trans ht
  rw [resizeTile, Outputs.curOut, nonNull_eq_ok.mpr ho, ok_bind, hf, ok_bind, htile, ok_bind,
    ifSome_some]

/-- A resize command works along its own axis. -/
theorem runAction_resize {o : OutPtr} {f : TilePtr} {pixs : ℤ} {tileId : ℕ}
    (ho : s.outs.currOutput = some o) (hf : s.curTile = .ok f)
    (ht : s.addressedTile tileId = .ok (some t)) (hlive : s.tiles.tileLive t = true)
    (hs : ∀ s', s.resizeAlong a o t pixs = .ok s' → s'.tiles.tileLive t = true) :
    s.runAction (.resize a pixs tileId) = s.resizeAlong a o t pixs := by
  cases a with
  | horizontal =>
    show s.resizeTile pixs 0 tileId = _
    rw [resizeTile_eq ho hf ht]
    cases hm : s.resizeAlong .horizontal o t pixs with
    | error _ => rfl
    | ok s₁ => exact resizeAlong_zero_eq (hs s₁ hm)
  | vertical =>
    show s.resizeTile 0 pixs tileId = _
    rw [resizeTile_eq ho hf ht, resizeAlong_zero_eq hlive, ok_bind]

end Server

open Server

/-- An output of size 10 × 10, which is the current one and is split in two, and
one of size 6 × 6. -/
def twoSizes : List Input :=
  [.outputNew "HDMI-A-1" tenByTen none, .outputNew "DP-1" sixBySix none,
    .command (.splitVertical half)]

/-- The state after the two outputs have come, and what a resize leads to. -/
theorem exists_twoSizes (pixs : ℤ) (tileId t : ℕ) (box : Rect)
    (h : returns (do
      let s ← run step init twoSizes
      let s' ← s.runAction (.resizeTileHorizontal pixs tileId)
      .ok (s, s')) (fun p => decide (p.1.addressedTile tileId = .ok (some t) ∧
        p.1.tiles.wsLive (p.1.tiles.tileWorkspace t) = true ∧ p.1.tiles.tileLive t = true ∧
        p.1.tiles.wsFrame (p.1.tiles.tileWorkspace t) = p.1.ownFrame t ∧
        p.2.tiles.tileLive t = true ∧
        p.2.tiles.tileWorkspace t = p.1.tiles.tileWorkspace t ∧
        p.2.tiles.tileBox t = box)) = true) :
    ∃ s s', Reachable s ∧ s.addressedTile tileId = .ok (some t) ∧
      Tiling (s.ownFrame t) (s.tiles.tilesOf (s.tiles.tileWorkspace t)) s.tiles.tileBox ∧
      s.runAction (.resizeTileHorizontal pixs tileId) = .ok s' ∧
      t ∈ s'.tiles.tilesOf (s.tiles.tileWorkspace t) ∧ s'.tiles.tileBox t = box ∧
      run step init twoSizes = .ok s := by
  obtain ⟨⟨s, s'⟩, hrun, hp⟩ := exists_of_returns h
  obtain ⟨s₁, hs, hrun⟩ := bind_eq_ok.mp hrun
  obtain ⟨s₂, hs', hrun⟩ := bind_eq_ok.mp hrun
  obtain ⟨rfl, rfl⟩ := Prod.mk.inj (Except.ok.inj hrun)
  obtain ⟨h1, h2, h3, h4, h5, h6, h7⟩ := of_decide_eq_true hp
  have hsteps : Steps step (fun _ i => i.resizes = false) Server.init s₁ :=
    Steps.of_run hs (by simp [twoSizes, Input.resizes, Action.resizes])
  have hwf : WellFormed True s₁ :=
    WellFormed.init.of_steps (fun _ i hi hi' => by simp [hi] at hi') hsteps
  refine ⟨s₁, s₂, Steps.of_run hs (by simp), h1, ?_, hs', ⟨h5, h6⟩, h7, hs⟩
  rw [← h4]
  exact hwf.tiles.tiling trivial _ h2 (by simp)

theorem twoSizes_facts {s : Server} (h : run step init twoSizes = .ok s) :
    s.tiles.tileLive 0 = true ∧ s.tiles.tileBox 0 = ⟨0, 0, 5, 10⟩ ∧
      s.ownFrame 0 = ⟨0, 0, 10, 10⟩ ∧ s.outs.currOutput = some 0 ∧
      (s.outs.outBox 0).frame = ⟨0, 0, 10, 10⟩ ∧
      ∀ u < s.tiles.tileTop, s.disp.tileView u = none := by
  obtain ⟨s₁, hs₁, h₁⟩ := exists_of_returns (m := run step init twoSizes)
    (p := fun s => decide (s.tiles.tileLive 0 = true ∧ s.tiles.tileBox 0 = ⟨0, 0, 5, 10⟩ ∧
      s.ownFrame 0 = ⟨0, 0, 10, 10⟩ ∧ s.outs.currOutput = some 0 ∧
      (s.outs.outBox 0).frame = ⟨0, 0, 10, 10⟩ ∧
      ∀ u < s.tiles.tileTop, s.disp.tileView u = none)) (by decide)
  rw [Except.ok.inj (h.symm.trans hs₁)]
  exact of_decide_eq_true h₁

end Cagebreak
