/-
Walking along a line between rectangles.

Two tiles face each other across a line when one ends and the other starts
there and their extents across it overlap.  A walk that goes from a tile to the
tiles facing it, but not straight back, is a walk on a forest: the intervals
the tiles cut out of the line are sorted on both sides.

* `Interleaved` — two families of disjoint intervals, and which of them overlap;
* `Branch` — what a walk reaches without turning back;
* `Interleaved.separate` — different branches of a node do not meet;
* `Tiling.interleaved` — the tiles along a line of a tiling are interleaved;
* `Tiling.shift_branch` — moving the line in all tiles of a branch;
* `Tiling.branch_shift` — the same tiles make up the branch after the move.
-/
import Cagebreak.Lib.Rect
import Mathlib.Logic.Relation

/-! ### Branches -/

/-- What a walk along `F` reaches from `i` when it starts in another direction
than back to `parent` and never turns back. -/
inductive Branch {ι : Type*} (F : ι → ι → Prop) : Option ι → ι → ι → Prop
  | root {parent : Option ι} {i : ι} : Branch F parent i i
  | step {parent : Option ι} {i j k : ι} :
      F i j → some j ≠ parent → Branch F (some i) j k → Branch F parent i k

/-- What faces a node of a branch is in the branch too, or is the node the walk
came from. -/
theorem Branch.facing {ι : Type*} {F : ι → ι → Prop} {i u v : ι} {parent : Option ι}
    (hu : Branch F parent i u) (huv : F u v) : Branch F parent i v ∨ parent = some v := by
  induction hu with
  | @root parent i =>
    by_cases hv : some v = parent
    · exact .inr hv.symm
    · exact .inl (.step huv hv .root)
  | step hij hj _ ih =>
    rcases ih huv with hb | hv
    · exact .inl (.step hij hj hb)
    · exact .inl (Option.some_inj.mp hv ▸ .root)

theorem Branch.reach {ι : Type*} {F : ι → ι → Prop} {i u : ι} {parent : Option ι}
    (h : Branch F parent i u) : Relation.ReflTransGen F i u := by
  induction h with
  | root => exact .refl
  | step hij _ _ ih => exact ih.head hij

/-- A walk that may start in every direction reaches all that is connected. -/
theorem Branch.none_iff {ι : Type*} {F : ι → ι → Prop} {i u : ι} :
    Branch F none i u ↔ Relation.ReflTransGen F i u := by
  constructor
  · exact Branch.reach
  · intro h
    induction h with
    | refl => exact .root
    | tail _ huv ih => exact (ih.facing huv).resolve_right (by simp)

/-- The intervals `[lo i, hi i)` lie on two sides of a line, and `F` relates
those that overlap across it. -/
structure Interleaved {ι : Type*} (F : ι → ι → Prop) (lo hi : ι → ℤ) : Prop where
  symm : ∀ i j, F i j → F j i
  irrefl : ∀ i, ¬ F i i
  pos : ∀ i j, F i j → lo j < hi j
  meet : ∀ i j, F i j → lo i < hi j
  sep : ∀ i j k, F i j → F i k → j ≠ k → hi j ≤ lo k ∨ hi k ≤ lo j

namespace Interleaved

variable {ι : Type*} {F : ι → ι → Prop} {lo hi : ι → ℤ} {i j k u v : ι}

/-- The same line, seen from its other end. -/
theorem neg (h : Interleaved F lo hi) : Interleaved F (fun i => -hi i) fun i => -lo i where
  symm := h.symm
  irrefl := h.irrefl
  pos i j hij := by
    have := h.pos i j hij
    omega
  meet i j hij := by
    have := h.meet j i (h.symm i j hij)
    omega
  sep i j k hij hik hjk := by
    have := h.sep i j k hij hik hjk
    omega

/-- A branch that starts above another neighbour stays above its own start. -/
theorem lo_le_of_branch (h : Interleaved F lo hi) (hij : F i j) (hik : F i k)
    (hjk : hi j ≤ lo k) (hb : Branch F (some i) k u) : lo k ≤ lo u := by
  generalize hp : some i = parent at hb
  induction hb generalizing i j with
  | root => exact le_rfl
  | @step parent k l u hkl hl _ ih =>
    subst hp
    have hki := h.symm _ _ hik
    have hil : i ≠ l := fun e => hl (by rw [e])
    have h1 := h.meet _ _ hij
    have h2 := h.meet _ _ hkl
    have h3 := h.meet _ _ hki
    -- the next node lies on the side of `i`, and not before it
    have hl' : hi i ≤ lo l := by
      have := h.sep k i l hki hkl hil
      omega
    have := ih hki hkl hl' rfl
    omega

theorem hi_le_of_branch (h : Interleaved F lo hi) (hij : F i j) (hik : F i k)
    (hjk : hi j ≤ lo k) (hb : Branch F (some i) j u) : hi u ≤ hi j := by
  have hjk' : -lo k ≤ -hi j := by omega
  have := h.neg.lo_le_of_branch hik hij hjk' hb
  omega

theorem pos_of_branch (h : Interleaved F lo hi) (hij : F i j) {parent : Option ι}
    (hb : Branch F parent j u) : lo u < hi u := by
  induction hb generalizing i with
  | root => exact h.pos _ _ hij
  | step hjk _ _ ih => exact ih hjk

/-- **Branches of a node are separate**: everything in one lies on one side of
everything in the other. -/
theorem separate (h : Interleaved F lo hi) (hij : F i j) (hik : F i k) (hjk : j ≠ k)
    (hu : Branch F (some i) j u) (hv : Branch F (some i) k v) : hi u ≤ lo v ∨ hi v ≤ lo u := by
  rcases h.sep i j k hij hik hjk with hle | hle
  · have h1 := h.hi_le_of_branch hij hik hle hu
    have h2 := h.lo_le_of_branch hij hik hle hv
    exact .inl (by omega)
  · have h1 := h.hi_le_of_branch hik hij hle hv
    have h2 := h.lo_le_of_branch hik hij hle hu
    exact .inr (by omega)

theorem ne_of_branch (h : Interleaved F lo hi) (hij : F i j) (hik : F i k) (hjk : j ≠ k)
    (hu : Branch F (some i) j u) (hv : Branch F (some i) k v) : u ≠ v := by
  rintro rfl
  have h1 := h.separate hij hik hjk hu hv
  have h2 := h.pos_of_branch hij hu
  omega

theorem not_of_branch (h : Interleaved F lo hi) (hij : F i j) (hik : F i k) (hjk : j ≠ k)
    (hu : Branch F (some i) j u) (hv : Branch F (some i) k v) : ¬ F u v := by
  intro huv
  have h1 := h.separate hij hik hjk hu hv
  have h2 := h.meet u v huv
  have h3 := h.meet v u (h.symm u v huv)
  omega

/-- A walk does not come back to where it started. -/
theorem ne_root_of_branch (h : Interleaved F lo hi) (hij : F i j)
    (hu : Branch F (some i) j u) : u ≠ i := by
  cases hu with
  | root =>
    rintro rfl
    exact h.irrefl _ hij
  | step hjk hk hb =>
    exact h.ne_of_branch hjk (h.symm _ _ hij) (fun e => hk (by rw [e])) hb .root

end Interleaved

/-! ### Tiles along a line -/

namespace Rect

/-- The extents of two rectangles across an axis overlap. -/
def Meets (a : Axis) (r s : Rect) : Prop :=
  r.coord a.compl < s.coord a.compl + s.dim a.compl ∧
    s.coord a.compl < r.coord a.compl + r.dim a.compl

end Rect

/-- `i` and `j` face each other across the line at `X`. -/
structure Facing {ι : Type*} (S : Set ι) (box : ι → Rect) (a : Axis) (X : ℤ) (i j : ι) :
    Prop where
  left : i ∈ S
  right : j ∈ S
  meet : (box i).Meets a (box j)
  sides : (box i).EndsAt a X ∧ (box j).StartsAt a X ∨ (box i).StartsAt a X ∧ (box j).EndsAt a X

namespace Tiling

open Rect

variable {ι : Type*} {F : Rect} {S : Set ι} {box box' : ι → Rect} {a : Axis} {X d : ℤ} {i j : ι}

/-- Tiles on the same side of a line do not overlap along it. -/
theorem apart (h : Tiling F S box) (hi : i ∈ S) (hj : j ∈ S) (hij : i ≠ j)
    (hs : (box i).EndsAt a X ∧ (box j).EndsAt a X ∨
      (box i).StartsAt a X ∧ (box j).StartsAt a X) : ¬ (box i).Meets a (box j) := by
  rintro ⟨h1, h2⟩
  have hi1 := h.pos i hi a
  have hi2 := h.pos i hi a.compl
  have hj1 := h.pos j hj a
  have hj2 := h.pos j hj a.compl
  simp only [EndsAt, StartsAt] at hs
  -- both contain a point next to the line
  refine hij (h.eq_of_spans a hi hj
    (u := max ((box i).coord a) ((box j).coord a))
    (v := max ((box i).coord a.compl) ((box j).coord a.compl)) ?_ ?_ ?_ ?_)
  · exact ⟨le_max_left _ _, by omega⟩
  · exact ⟨le_max_left _ _, by omega⟩
  · exact ⟨le_max_right _ _, by omega⟩
  · exact ⟨le_max_right _ _, by omega⟩

/-- **Tiles along a line** are interleaved. -/
theorem interleaved (h : Tiling F S box) (a : Axis) (X : ℤ) :
    Interleaved (Facing S box a X) (fun i => (box i).coord a.compl)
      fun i => (box i).coord a.compl + (box i).dim a.compl where
  symm i j hij := ⟨hij.right, hij.left, hij.meet.symm, hij.sides.symm.imp And.symm And.symm⟩
  irrefl i hii := by
    have := h.pos i hii.left a
    have hs := hii.sides
    simp only [EndsAt, StartsAt] at hs
    omega
  pos i j hij := by
    have := h.pos j hij.right a.compl
    omega
  meet i j hij := hij.meet.1
  sep i j k hij hik hjk := by
    have hpos := h.pos i hij.left a
    have hs : (box j).EndsAt a X ∧ (box k).EndsAt a X ∨
        (box j).StartsAt a X ∧ (box k).StartsAt a X := by
      have h1 := hij.sides
      have h2 := hik.sides
      simp only [EndsAt, StartsAt] at h1 h2 ⊢
      omega
    have := h.apart hij.right hik.right hjk hs
    simp only [Meets, not_and_or, not_lt] at this
    omega

/-- The tile touches the line at `X`. -/
def OnLine (S : Set ι) (box : ι → Rect) (a : Axis) (X : ℤ) (i : ι) : Prop :=
  i ∈ S ∧ ((box i).EndsAt a X ∨ (box i).StartsAt a X)

/-- Two tiles on a line that overlap along it face each other. -/
theorem OnLine.facing (h : Tiling F S box) (hi : OnLine S box a X i) (hj : OnLine S box a X j)
    (hij : i ≠ j) (hm : (box i).Meets a (box j)) : Facing S box a X i j := by
  refine ⟨hi.1, hj.1, hm, ?_⟩
  rcases hi.2 with h1 | h1 <;> rcases hj.2 with h2 | h2
  · exact absurd hm (h.apart hi.1 hj.1 hij (.inl ⟨h1, h2⟩))
  · exact .inl ⟨h1, h2⟩
  · exact .inr ⟨h1, h2⟩
  · exact absurd hm (h.apart hi.1 hj.1 hij (.inr ⟨h1, h2⟩))

theorem OnLine.branch (hi : OnLine S box a X i) {parent : Option ι}
    (hb : Branch (Facing S box a X) parent i j) : OnLine S box a X j := by
  induction hb with
  | root => exact hi
  | step hij _ _ ih => exact ih ⟨hij.right, hij.sides.elim (fun h => .inr h.2) fun h => .inl h.2⟩

/-- The rectangle of a tile once the line at `X` it touches has moved by `d`. -/
def moved (box : ι → Rect) (a : Axis) (X d : ℤ) (i : ι) : Rect :=
  if (box i).coord a + (box i).dim a = X then
    (box i).setSpan a ((box i).coord a) ((box i).dim a + d)
  else (box i).setSpan a ((box i).coord a + d) ((box i).dim a - d)

@[simp] theorem coord_compl_moved :
    (moved box a X d i).coord a.compl = (box i).coord a.compl := by
  rw [moved]
  split <;> simp

@[simp] theorem dim_compl_moved : (moved box a X d i).dim a.compl = (box i).dim a.compl := by
  rw [moved]
  split <;> simp

/-- **Moving an inner line** in a tile and in all tiles a walk from it reaches. -/
theorem shift_branch (h : Tiling F S box) (hX : F.coord a < X) (hX' : X < F.coord a + F.dim a)
    (hi : OnLine S box a X i)
    (hmoved : ∀ j, Branch (Facing S box a X) none i j → box' j = moved box a X d j)
    (hrest : ∀ j ∈ S, ¬ Branch (Facing S box a X) none i j → box' j = box j)
    (hpos : ∀ j, Branch (Facing S box a X) none i j → 1 ≤ (moved box a X d j).dim a) :
    Tiling F S box' := by
  refine h.shift (M := {j | Branch (Facing S box a X) none i j}) (d := d) hX hX'
    (fun j hj => hi.branch hj) ?_ ⟨fun j hj he => ?_, fun j hj hs => ?_, hrest⟩ fun j hj => ?_
  · intro j hj k hk v hv hv' hs
    have hface : Facing S box a X j k :=
      ⟨(hi.branch hj).1, hk, ⟨lt_of_le_of_lt hv.1 hv'.2, lt_of_le_of_lt hv'.1 hv.2⟩, hs⟩
    exact (Branch.facing hj hface).resolve_right (by simp)
  · rw [EndsAt] at he
    rw [hmoved j hj, moved, if_pos he]
  · have hpos := h.pos j (hi.branch hj).1 a
    simp only [StartsAt] at hs
    rw [hmoved j hj, moved, if_neg (by omega)]
  · rw [hmoved j hj]
    exact hpos j hj

/-- **Moving the outer edge** of a tile ruins the tiling. -/
theorem not_tiling_of_edge (h : Tiling F S box) (hX : F.coord a + F.dim a = X) (hi : i ∈ S)
    (he : (box i).EndsAt a X) (hd : d ≠ 0) (hmoved : box' i = moved box a X d i)
    (hrest : ∀ j ∈ S, j ≠ i → box' j = box j) : ¬ Tiling F S box' := by
  intro h'
  have hpos := h.pos i hi a
  have hpos' := h.pos i hi a.compl
  have hins := h'.inside i hi a
  rw [EndsAt] at he
  rw [moved, if_pos he] at hmoved
  have hcoord : (box' i).coord a = (box i).coord a := by simp [hmoved]
  have hdim : (box' i).dim a = (box i).dim a + d := by simp [hmoved]
  -- the tile has become shorter, and nobody covers its last row
  have hF : F.Covers (a.point (X - 1) ((box i).coord a.compl)) := by
    refine h.mem_of_covers hi ((covers_iff a).mpr ?_)
    simp only [Axis.proj_point, Axis.compl_proj_point, Spans]
    omega
  obtain ⟨j, hj, hp⟩ := h'.cover _ hF
  simp only [covers_iff a, Axis.proj_point, Axis.compl_proj_point] at hp
  by_cases hji : j = i
  · subst hji
    have := hp.1.2
    omega
  · rw [hrest j hj hji] at hp
    exact hji (h.eq_of_spans a hj hi hp.1 hp.2 ⟨by omega, by omega⟩ ⟨le_rfl, by omega⟩)

/-! ### Moving a line back -/

theorem EndsAt.moved (h : (box i).EndsAt a X) : (moved box a X d i).EndsAt a (X + d) := by
  simp only [EndsAt] at h ⊢
  rw [Tiling.moved, if_pos h]
  simp
  omega

theorem StartsAt.moved (hpos : 1 ≤ (box i).dim a) (h : (box i).StartsAt a X) :
    (moved box a X d i).StartsAt a (X + d) := by
  simp only [StartsAt] at h ⊢
  rw [Tiling.moved, if_neg (by omega)]
  simp
  omega

theorem meets_moved : (moved box a X d i).Meets a (moved box a X d j) ↔
    (box i).Meets a (box j) := by
  simp [Meets]

/-- Moving the line back gives the rectangle that was there before. -/
theorem moved_back (hi : OnLine S box a X i) (hpos : 1 ≤ (moved box a X d i).dim a)
    (hb : box' i = moved box a X d i) : moved box' a (X + d) (-d) i = box i := by
  have hline := hi.2
  simp only [EndsAt, StartsAt] at hline
  rw [moved] at hpos hb
  rw [moved, hb]
  by_cases he : (box i).coord a + (box i).dim a = X
  · rw [if_pos he] at hpos ⊢
    rw [if_pos (by simp; omega)]
    simp only [setSpan_setSpan, coord_setSpan, dim_setSpan, Int.add_neg_cancel_right, setSpan_self]
  · rw [if_neg he] at hpos ⊢
    rw [dim_setSpan] at hpos
    rw [if_neg (by simp; omega)]
    simp only [setSpan_setSpan, coord_setSpan, dim_setSpan, Int.sub_neg, Int.sub_add_cancel,
      Int.add_neg_cancel_right, setSpan_self]

/-- **A moved segment stays what it is**: the tiles connected along the line
before are those connected along it where it is now, even if other tiles touch
the line there. -/
theorem branch_shift (h : Tiling F S box) (h' : Tiling F S box') (hX : F.coord a < X)
    (hX' : X < F.coord a + F.dim a) (hi : OnLine S box a X i)
    (hmoved : ∀ j, Branch (Facing S box a X) none i j → box' j = moved box a X d j) :
    Branch (Facing S box' a (X + d)) none i j ↔ Branch (Facing S box a X) none i j := by
  have hends : ∀ u, Branch (Facing S box a X) none i u →
      ((box' u).EndsAt a (X + d) ↔ (box u).EndsAt a X) ∧
      ((box' u).StartsAt a (X + d) ↔ (box u).StartsAt a X) := by
    intro u hu
    have hpos := h.pos u (hi.branch hu).1 a
    have hpos' := h'.pos u (hi.branch hu).1 a
    rw [hmoved u hu] at hpos' ⊢
    rcases (hi.branch hu).2 with he | hs
    · have he' := EndsAt.moved (d := d) he
      refine ⟨iff_of_true he' he, ?_⟩
      simp only [EndsAt, StartsAt] at he he' ⊢
      omega
    · have hs' := StartsAt.moved (d := d) hpos hs
      refine ⟨?_, iff_of_true hs' hs⟩
      simp only [EndsAt, StartsAt] at hs hs' ⊢
      omega
  have hstep : ∀ u v, Branch (Facing S box a X) none i u → Facing S box a X u v →
      Branch (Facing S box a X) none i v := fun u v hu huv =>
        (hu.facing huv).resolve_right (by simp)
  -- a tile facing one of the segment is the one that faced it before
  have hback : ∀ u v, Branch (Facing S box a X) none i u → Facing S box' a (X + d) u v →
      Facing S box a X u v := by
    intro u v hu huv
    obtain ⟨y, hyu, hyv⟩ : ∃ y, (box' u).Spans a.compl y ∧ (box' v).Spans a.compl y := by
      have hm := huv.meet
      have hu1 := h'.pos u huv.left a.compl
      have hv1 := h'.pos v huv.right a.compl
      simp only [Meets] at hm
      refine ⟨max ((box' u).coord a.compl) ((box' v).coord a.compl), ?_, ?_⟩ <;>
        simp only [Spans] <;> omega
    have hyu' : (box u).Spans a.compl y := by
      rw [hmoved u hu] at hyu
      simpa only [Spans, coord_compl_moved, dim_compl_moved] using hyu
    have same : ∀ r, Facing S box a X u r → (box r).Spans a.compl y →
        ((box' r).EndsAt a (X + d) ∧ (box' v).EndsAt a (X + d) ∨
          (box' r).StartsAt a (X + d) ∧ (box' v).StartsAt a (X + d)) → Facing S box a X u v := by
      intro r hur hyr hs
      by_cases hrv : r = v
      · rwa [← hrv]
      · refine absurd ?_ (h'.apart hur.right huv.right hrv hs)
        have hyr' : (box' r).Spans a.compl y := by
          rw [hmoved r (hstep u r hu hur)]
          simpa only [Spans, coord_compl_moved, dim_compl_moved] using hyr
        exact ⟨lt_of_le_of_lt hyr'.1 hyv.2, lt_of_le_of_lt hyv.1 hyr'.2⟩
    rcases huv.sides with ⟨hue, hvs⟩ | ⟨hus, hve⟩
    · have hue' := (hends u hu).1.mp hue
      obtain ⟨r, hr, hrs, hyr⟩ := h.exists_startsAt hX' huv.left hue' hyu'
      have hur : Facing S box a X u r :=
        ⟨huv.left, hr, ⟨lt_of_le_of_lt hyu'.1 hyr.2, lt_of_le_of_lt hyr.1 hyu'.2⟩, .inl ⟨hue', hrs⟩⟩
      exact same r hur hyr (.inr ⟨(hends r (hstep u r hu hur)).2.mpr hrs, hvs⟩)
    · have hus' := (hends u hu).2.mp hus
      obtain ⟨r, hr, hre, hyr⟩ := h.exists_endsAt hX huv.left hus' hyu'
      have hur : Facing S box a X u r :=
        ⟨huv.left, hr, ⟨lt_of_le_of_lt hyu'.1 hyr.2, lt_of_le_of_lt hyr.1 hyu'.2⟩, .inr ⟨hus', hre⟩⟩
      exact same r hur hyr (.inl ⟨(hends r (hstep u r hu hur)).1.mpr hre, hve⟩)
  rw [Branch.none_iff]
  constructor
  · intro hj
    induction hj with
    | refl => exact .root
    | tail _ huv ih => exact hstep _ _ ih (hback _ _ ih huv)
  · intro hj
    rw [Branch.none_iff] at hj
    induction hj with
    | refl => exact .refl
    | @tail u v hiu huv ih =>
      have hu := Branch.none_iff.mpr hiu
      have hv := hstep u v hu huv
      refine ih.tail ⟨huv.left, huv.right, ?_, ?_⟩
      · rw [hmoved u hu, hmoved v hv]
        exact meets_moved.mpr huv.meet
      · rw [(hends u hu).1, (hends u hu).2, (hends v hv).1, (hends v hv).2]
        exact huv.sides

end Tiling
