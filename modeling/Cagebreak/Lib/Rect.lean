/-
Rectangles on the integer grid, and tilings of a rectangle by rectangles.

A rectangle covers the points of a half-open box.  `Tiling F S box` says that
the rectangles `box i`, `i ∈ S`, partition the frame `F`: they are nonempty,
lie inside, do not overlap and leave no gap.  Three changes keep a tiling:

* `Tiling.split` — cutting one rectangle in two along an axis;
* `Tiling.merge` — uniting two neighbours with the same extent across the axis;
* `Tiling.shift` — moving a segment of a line between rectangles, together
  with all rectangles on both sides of the segment.

Everything is stated for an arbitrary `Axis`, so that each argument is made
once for the horizontal and the vertical direction.
-/
import Mathlib.Data.Set.Insert
import Mathlib.Logic.Function.Basic
import Mathlib.Tactic.Common

/-- A box of the integer grid: the points `[x, x + width) × [y, y + height)`. -/
structure Rect where
  x : ℤ
  y : ℤ
  width : ℤ
  height : ℤ
  deriving DecidableEq, Repr

/-- The two directions of the plane. -/
inductive Axis
  | horizontal
  | vertical
  deriving DecidableEq, Repr

namespace Axis

/-- The other direction. -/
def compl : Axis → Axis
  | horizontal => vertical
  | vertical => horizontal

/-- The coordinate of a point along an axis. -/
def proj : Axis → ℤ × ℤ → ℤ
  | horizontal, p => p.1
  | vertical, p => p.2

/-- The point with coordinate `u` along the axis and `v` across it. -/
def point : Axis → ℤ → ℤ → ℤ × ℤ
  | horizontal, u, v => (u, v)
  | vertical, u, v => (v, u)

@[simp] theorem proj_point (a : Axis) (u v : ℤ) : a.proj (a.point u v) = u := by
  cases a <;> rfl

@[simp] theorem compl_proj_point (a : Axis) (u v : ℤ) : a.compl.proj (a.point u v) = v := by
  cases a <;> rfl

end Axis

namespace Rect

/-- Where the rectangle starts along an axis. -/
def coord : Axis → Rect → ℤ
  | .horizontal, r => r.x
  | .vertical, r => r.y

/-- How long the rectangle is along an axis. -/
def dim : Axis → Rect → ℤ
  | .horizontal, r => r.width
  | .vertical, r => r.height

/-- The rectangle with another start and length along one axis. -/
def setSpan : Axis → Rect → ℤ → ℤ → Rect
  | .horizontal, r, c, d => { r with x := c, width := d }
  | .vertical, r, c, d => { r with y := c, height := d }

@[simp] theorem coord_setSpan (a : Axis) (r : Rect) (c d : ℤ) :
    (r.setSpan a c d).coord a = c := by cases a <;> rfl

@[simp] theorem dim_setSpan (a : Axis) (r : Rect) (c d : ℤ) :
    (r.setSpan a c d).dim a = d := by cases a <;> rfl

@[simp] theorem coord_compl_setSpan (a : Axis) (r : Rect) (c d : ℤ) :
    (r.setSpan a c d).coord a.compl = r.coord a.compl := by cases a <;> rfl

@[simp] theorem dim_compl_setSpan (a : Axis) (r : Rect) (c d : ℤ) :
    (r.setSpan a c d).dim a.compl = r.dim a.compl := by cases a <;> rfl

@[simp] theorem setSpan_setSpan (a : Axis) (r : Rect) (c d c' d' : ℤ) :
    (r.setSpan a c d).setSpan a c' d' = r.setSpan a c' d' := by cases a <;> rfl

@[simp] theorem setSpan_self (a : Axis) (r : Rect) :
    r.setSpan a (r.coord a) (r.dim a) = r := by cases a <;> rfl

/-- The points of the rectangle. -/
def Covers (r : Rect) (p : ℤ × ℤ) : Prop :=
  r.x ≤ p.1 ∧ p.1 < r.x + r.width ∧ r.y ≤ p.2 ∧ p.2 < r.y + r.height

/-- The extent of the rectangle along one axis contains `u`. -/
def Spans (r : Rect) (a : Axis) (u : ℤ) : Prop := r.coord a ≤ u ∧ u < r.coord a + r.dim a

/-- The rectangle touches the line at `X` from below. -/
def EndsAt (r : Rect) (a : Axis) (X : ℤ) : Prop := r.coord a + r.dim a = X

/-- The rectangle touches the line at `X` from above. -/
def StartsAt (r : Rect) (a : Axis) (X : ℤ) : Prop := r.coord a = X

theorem covers_iff (a : Axis) {r : Rect} {p : ℤ × ℤ} :
    r.Covers p ↔ r.Spans a (a.proj p) ∧ r.Spans a.compl (a.compl.proj p) := by
  cases a <;> simp only [Covers, Spans, Axis.compl, Axis.proj, coord, dim] <;> tauto

/-- A statement about both axes holds when it holds along one and across it. -/
theorem forall_axis {P : Axis → Prop} (a : Axis) (h : P a) (h' : P a.compl) : ∀ b, P b := by
  cases a <;> rintro (_ | _) <;> assumption

end Rect

/-- The rectangles `box i`, `i ∈ S`, partition the frame `F`. -/
structure Tiling {ι : Type*} (F : Rect) (S : Set ι) (box : ι → Rect) : Prop where
  pos : ∀ i ∈ S, ∀ a, 1 ≤ (box i).dim a
  inside : ∀ i ∈ S, ∀ a, F.coord a ≤ (box i).coord a ∧
    (box i).coord a + (box i).dim a ≤ F.coord a + F.dim a
  disjoint : ∀ i ∈ S, ∀ j ∈ S, ∀ p, (box i).Covers p → (box j).Covers p → i = j
  cover : ∀ p, F.Covers p → ∃ i ∈ S, (box i).Covers p

namespace Tiling

open Rect

variable {ι : Type*} {F : Rect} {S : Set ι} {box box' : ι → Rect} {a : Axis}

theorem congr (h : Tiling F S box) (hb : ∀ i ∈ S, box' i = box i) : Tiling F S box' where
  pos i hi := by simpa only [hb i hi] using h.pos i hi
  inside i hi := by simpa only [hb i hi] using h.inside i hi
  disjoint i hi j hj := by simpa only [hb i hi, hb j hj] using h.disjoint i hi j hj
  cover p hp := by
    obtain ⟨i, hi, hpi⟩ := h.cover p hp
    exact ⟨i, hi, by rwa [hb i hi]⟩

/-- One rectangle alone tiles the frame it fills. -/
theorem single {i : ι} (hF : ∀ a, 1 ≤ F.dim a) (hi : box i = F) : Tiling F {i} box where
  pos := by
    rintro j rfl
    rwa [hi]
  inside := by
    rintro j rfl a
    simp [hi]
  disjoint := by
    rintro j rfl k rfl p - -
    rfl
  cover p hp := ⟨i, rfl, by rwa [hi]⟩

theorem mem_of_covers (h : Tiling F S box) {i : ι} (hi : i ∈ S) {p : ℤ × ℤ}
    (hp : (box i).Covers p) : F.Covers p := by
  have h1 := h.inside i hi .horizontal
  have h2 := h.inside i hi .vertical
  simp only [coord, dim] at h1 h2
  obtain ⟨p1, p2, p3, p4⟩ := hp
  exact ⟨by omega, by omega, by omega, by omega⟩

/-- Tiles whose extents meet along an axis and across it are the same tile. -/
theorem eq_of_spans (h : Tiling F S box) (a : Axis) {i j : ι} (hi : i ∈ S) (hj : j ∈ S) {u v : ℤ}
    (hiu : (box i).Spans a u) (hiv : (box i).Spans a.compl v) (hju : (box j).Spans a u)
    (hjv : (box j).Spans a.compl v) : i = j :=
  h.disjoint i hi j hj (a.point u v) ((covers_iff a).mpr (by simpa using ⟨hiu, hiv⟩))
    ((covers_iff a).mpr (by simpa using ⟨hju, hjv⟩))

/-! ### Splitting and merging -/

section Update

variable [DecidableEq ι]

/-- Cutting the rectangle of `i` after `n` units and giving the rest to `j`. -/
theorem split (h : Tiling F S box) {i j : ι} (hi : i ∈ S) (hj : j ∉ S) {n : ℤ} (hn : 1 ≤ n)
    (hn' : n < (box i).dim a)
    (hbi : box' i = (box i).setSpan a ((box i).coord a) n)
    (hbj : box' j = (box i).setSpan a ((box i).coord a + n) ((box i).dim a - n))
    (hb : ∀ k ∈ S, k ≠ i → box' k = box k) : Tiling F (insert j S) box' := by
  have hpos := h.pos i hi
  have hins := h.inside i hi
  -- the points of the two parts are those of the old rectangle
  have hi' : ∀ p, (box' i).Covers p ↔ (box i).Covers p ∧ a.proj p < (box i).coord a + n := by
    intro p
    simp only [hbi, covers_iff a, Spans, coord_setSpan, dim_setSpan, coord_compl_setSpan,
      dim_compl_setSpan]
    omega
  have hj' : ∀ p, (box' j).Covers p ↔ (box i).Covers p ∧ (box i).coord a + n ≤ a.proj p := by
    intro p
    simp only [hbj, covers_iff a, Spans, coord_setSpan, dim_setSpan, coord_compl_setSpan,
      dim_compl_setSpan]
    omega
  -- every part lies in the old rectangle of the tile it comes from
  have hold : ∀ k ∈ insert j S, ∀ p, (box' k).Covers p →
      (box (if k = j then i else k)).Covers p := by
    rintro k (rfl | hk) p hp
    · rw [if_pos rfl]
      exact ((hj' p).mp hp).1
    · have hkj : k ≠ j := fun e => hj (e ▸ hk)
      rw [if_neg hkj]
      by_cases hki : k = i
      · subst hki
        exact ((hi' p).mp hp).1
      · rwa [hb k hk hki] at hp
  refine ⟨?_, ?_, ?_, ?_⟩
  · rintro k (rfl | hk)
    · rw [hbj]
      exact forall_axis a (by simp; omega) (by simpa using hpos a.compl)
    · by_cases hki : k = i
      · subst hki
        rw [hbi]
        exact forall_axis a (by simpa using hn) (by simpa using hpos a.compl)
      · rw [hb k hk hki]
        exact h.pos k hk
  · rintro k (rfl | hk)
    · rw [hbj]
      refine forall_axis a ?_ (by simpa using hins a.compl)
      have := hins a
      simp only [coord_setSpan, dim_setSpan]
      omega
    · by_cases hki : k = i
      · subst hki
        rw [hbi]
        refine forall_axis a ?_ (by simpa using hins a.compl)
        have := hins a
        simp only [coord_setSpan, dim_setSpan]
        omega
      · rw [hb k hk hki]
        exact h.inside k hk
  · intro k hk l hl p hpk hpl
    have hmem : ∀ m ∈ insert j S, (if m = j then i else m) ∈ S := by
      rintro m (rfl | hm)
      · rwa [if_pos rfl]
      · rwa [if_neg fun e : m = j => hj (e ▸ hm)]
    have heq := h.disjoint _ (hmem k hk) _ (hmem l hl) p (hold k hk p hpk) (hold l hl p hpl)
    by_cases hkj : k = j <;> by_cases hlj : l = j
    · rw [hkj, hlj]
    · -- one part each: they are separated by the cut
      rw [if_pos hkj, if_neg hlj] at heq
      subst hkj heq
      have := ((hj' p).mp hpk).2
      have := ((hi' p).mp hpl).2
      omega
    · rw [if_neg hkj, if_pos hlj] at heq
      subst hlj heq
      have := ((hj' p).mp hpl).2
      have := ((hi' p).mp hpk).2
      omega
    · rwa [if_neg hkj, if_neg hlj] at heq
  · intro p hp
    obtain ⟨k, hk, hpk⟩ := h.cover p hp
    by_cases hki : k = i
    · subst hki
      by_cases hcut : a.proj p < (box k).coord a + n
      · exact ⟨k, Set.mem_insert_of_mem _ hk, (hi' p).mpr ⟨hpk, hcut⟩⟩
      · exact ⟨j, Set.mem_insert _ _, (hj' p).mpr ⟨hpk, by omega⟩⟩
    · exact ⟨k, Set.mem_insert_of_mem _ hk, by rwa [hb k hk hki]⟩

/-- Giving `i` the rectangle of a neighbour `j` with the same extent across `a`. -/
theorem merge (h : Tiling F S box) {i j : ι} (hi : i ∈ S) (hj : j ∈ S) (hij : i ≠ j)
    (hadj : (box j).coord a = (box i).coord a + (box i).dim a ∨
      (box j).coord a + (box j).dim a = (box i).coord a)
    (hcoord : (box i).coord a.compl = (box j).coord a.compl)
    (hdim : (box i).dim a.compl = (box j).dim a.compl)
    (hbi : box' i = (box i).setSpan a (min ((box j).coord a) ((box i).coord a))
      ((box j).dim a + (box i).dim a))
    (hb : ∀ k ∈ S, k ≠ i → k ≠ j → box' k = box k) : Tiling F (S \ {j}) box' := by
  have hpi := h.pos i hi
  have hpj := h.pos j hj
  -- the union covers what the two covered
  have hi' : ∀ p, (box' i).Covers p ↔ (box i).Covers p ∨ (box j).Covers p := by
    intro p
    have := hpi a
    have := hpj a
    simp only [hbi, covers_iff a, Spans, coord_setSpan, dim_setSpan, coord_compl_setSpan,
      dim_compl_setSpan]
    omega
  refine ⟨?_, ?_, ?_, ?_⟩
  · rintro k ⟨hk, hkj⟩
    by_cases hki : k = i
    · subst hki
      rw [hbi]
      have := hpi a
      have := hpj a
      exact forall_axis a (by simp; omega) (by simpa using hpi a.compl)
    · rw [hb k hk hki hkj]
      exact h.pos k hk
  · rintro k ⟨hk, hkj⟩
    by_cases hki : k = i
    · subst hki
      rw [hbi]
      refine forall_axis a ?_ (by simpa using h.inside k hk a.compl)
      have := h.inside k hk a
      have := h.inside j hj a
      simp only [coord_setSpan, dim_setSpan]
      omega
    · rw [hb k hk hki hkj]
      exact h.inside k hk
  · rintro k ⟨hk, hkj⟩ l ⟨hl, hlj⟩ p hpk hpl
    -- a third tile meeting the union would meet one of the two
    have third : ∀ m ∈ S, m ≠ i → m ≠ j → (box' m).Covers p → ¬ (box' i).Covers p := by
      intro m hm hmi hmj hpm hpi'
      rw [hb m hm hmi hmj] at hpm
      rcases (hi' p).mp hpi' with hp | hp
      · exact hmi (h.disjoint m hm i hi p hpm hp)
      · exact hmj (h.disjoint m hm j hj p hpm hp)
    by_cases hki : k = i <;> by_cases hli : l = i
    · rw [hki, hli]
    · exact absurd (hki ▸ hpk) (third l hl hli hlj hpl)
    · exact absurd (hli ▸ hpl) (third k hk hki hkj hpk)
    · rw [hb k hk hki hkj] at hpk
      rw [hb l hl hli hlj] at hpl
      exact h.disjoint k hk l hl p hpk hpl
  · intro p hp
    obtain ⟨k, hk, hpk⟩ := h.cover p hp
    by_cases hkj : k = j
    · subst hkj
      exact ⟨i, ⟨hi, hij⟩, (hi' p).mpr (.inr hpk)⟩
    by_cases hki : k = i
    · subst hki
      exact ⟨k, ⟨hk, hij⟩, (hi' p).mpr (.inl hpk)⟩
    · exact ⟨k, ⟨hk, hkj⟩, by rwa [hb k hk hki hkj]⟩

end Update

/-! ### Moving an edge -/

variable {X d : ℤ} {M : Set ι}

/-- A tile ending at an inner line faces, in each of its rows, a tile that
starts there. -/
theorem exists_startsAt (h : Tiling F S box) (hX : X < F.coord a + F.dim a) {i : ι} (hi : i ∈ S)
    (he : (box i).EndsAt a X) {v : ℤ} (hv : (box i).Spans a.compl v) :
    ∃ j ∈ S, (box j).StartsAt a X ∧ (box j).Spans a.compl v := by
  have hpos := h.pos i hi a
  have hins := h.inside i hi
  have := hins a
  have := hins a.compl
  simp only [EndsAt, Spans] at he hv
  have hF : F.Covers (a.point X v) := by
    simp only [covers_iff a, Spans, Axis.proj_point, Axis.compl_proj_point]
    omega
  obtain ⟨j, hj, hp⟩ := h.cover _ hF
  simp only [covers_iff a, Axis.proj_point, Axis.compl_proj_point] at hp
  refine ⟨j, hj, ?_, hp.2⟩
  by_contra hs
  -- otherwise `j` would reach across the line into `i`
  have hji : i = j := h.eq_of_spans a hi hj (u := X - 1) (v := v) ⟨by omega, by omega⟩ hv
    ⟨by have := hp.1.1; simp only [StartsAt] at hs; omega, by have := hp.1.2; omega⟩ hp.2
  subst hji
  have := hp.1.2
  omega

/-- A tile starting at an inner line faces, in each of its rows, a tile that
ends there. -/
theorem exists_endsAt (h : Tiling F S box) (hX : F.coord a < X) {i : ι} (hi : i ∈ S)
    (hs : (box i).StartsAt a X) {v : ℤ} (hv : (box i).Spans a.compl v) :
    ∃ j ∈ S, (box j).EndsAt a X ∧ (box j).Spans a.compl v := by
  have hpos := h.pos i hi a
  have hins := h.inside i hi
  have := hins a
  have := hins a.compl
  simp only [StartsAt, Spans] at hs hv
  have hF : F.Covers (a.point (X - 1) v) := by
    simp only [covers_iff a, Spans, Axis.proj_point, Axis.compl_proj_point]
    omega
  obtain ⟨j, hj, hp⟩ := h.cover _ hF
  simp only [covers_iff a, Axis.proj_point, Axis.compl_proj_point] at hp
  refine ⟨j, hj, ?_, hp.2⟩
  by_contra he
  have hji : i = j := h.eq_of_spans a hi hj (u := X) (v := v) ⟨by omega, by omega⟩ hv
    ⟨by have := hp.1.1; omega, by have := hp.1.2; simp only [EndsAt] at he; omega⟩ hp.2
  subst hji
  have := hp.1.1
  omega

/-- `M` contains, with a tile on the line at `X`, all tiles facing it across
the line. -/
def Closed (S : Set ι) (box : ι → Rect) (a : Axis) (X : ℤ) (M : Set ι) : Prop :=
  ∀ i ∈ M, ∀ j ∈ S, ∀ v, (box i).Spans a.compl v → (box j).Spans a.compl v →
    ((box i).EndsAt a X ∧ (box j).StartsAt a X ∨ (box i).StartsAt a X ∧ (box j).EndsAt a X) →
    j ∈ M

/-- `box'` arises from `box` by moving the line at `X` by `d` in the tiles of `M`. -/
structure Shifted (S : Set ι) (a : Axis) (X d : ℤ) (M : Set ι) (box box' : ι → Rect) : Prop where
  low : ∀ i ∈ M, (box i).EndsAt a X →
    box' i = (box i).setSpan a ((box i).coord a) ((box i).dim a + d)
  high : ∀ i ∈ M, (box i).StartsAt a X →
    box' i = (box i).setSpan a ((box i).coord a + d) ((box i).dim a - d)
  same : ∀ i ∈ S, i ∉ M → box' i = box i

/-- Across the axis nothing changes. -/
theorem Shifted.spans (hb : Shifted S a X d M box box')
    (hM : ∀ i ∈ M, i ∈ S ∧ ((box i).EndsAt a X ∨ (box i).StartsAt a X)) {i : ι} (hi : i ∈ S)
    {v : ℤ} : (box' i).Spans a.compl v ↔ (box i).Spans a.compl v := by
  by_cases hiM : i ∈ M
  · obtain ⟨-, he | hs⟩ := hM i hiM
    · simp [hb.low i hiM he, Spans]
    · simp [hb.high i hiM hs, Spans]
  · rw [hb.same i hi hiM]

/-- **Moving a segment of an inner line.**  If with every tile on the segment
all tiles facing it take part, and no tile becomes empty, the result is again a
tiling of the same frame. -/
theorem shift (h : Tiling F S box) (hX : F.coord a < X) (hX' : X < F.coord a + F.dim a)
    (hM : ∀ i ∈ M, i ∈ S ∧ ((box i).EndsAt a X ∨ (box i).StartsAt a X))
    (hclosed : Closed S box a X M) (hb : Shifted S a X d M box box')
    (hpos : ∀ i ∈ M, 1 ≤ (box' i).dim a) : Tiling F S box' := by
  have hspans : ∀ i ∈ S, ∀ v, (box' i).Spans a.compl v ↔ (box i).Spans a.compl v :=
    fun i hi v => hb.spans hM hi
  -- a row with a tile of `M` in it contains a pair of tiles of `M` facing each other
  have hpair : ∀ m ∈ M, ∀ v, (box m).Spans a.compl v → ∃ l ∈ M, ∃ r ∈ M,
      (box l).EndsAt a X ∧ (box r).StartsAt a X ∧
      (box l).Spans a.compl v ∧ (box r).Spans a.compl v := by
    intro m hm v hv
    obtain ⟨hmS, he | hs⟩ := hM m hm
    · obtain ⟨r, hr, hrs, hrv⟩ := h.exists_startsAt hX' hmS he hv
      exact ⟨m, hm, r, hclosed m hm r hr v hv hrv (.inl ⟨he, hrs⟩), he, hrs, hv, hrv⟩
    · obtain ⟨l, hl, hle, hlv⟩ := h.exists_endsAt hX hmS hs hv
      exact ⟨l, hclosed m hm l hl v hv hlv (.inr ⟨hs, hle⟩), m, hm, hle, hs, hlv, hv⟩
  have hlow : ∀ l ∈ M, (box l).EndsAt a X →
      (box' l).coord a = (box l).coord a ∧ (box' l).dim a = (box l).dim a + d := by
    intro l hl he
    simp [hb.low l hl he]
  have hhigh : ∀ r ∈ M, (box r).StartsAt a X →
      (box' r).coord a = X + d ∧ (box' r).dim a = (box r).dim a - d := by
    intro r hr hs
    rw [hb.high r hr hs]
    simp only [StartsAt] at hs
    simp [hs]
  refine ⟨?_, ?_, ?_, ?_⟩
  · intro i hi
    by_cases hiM : i ∈ M
    · refine forall_axis a (hpos i hiM) ?_
      obtain ⟨-, he | hs⟩ := hM i hiM
      · simpa [hb.low i hiM he] using h.pos i hi a.compl
      · simpa [hb.high i hiM hs] using h.pos i hi a.compl
    · rw [hb.same i hi hiM]
      exact h.pos i hi
  · intro i hi
    by_cases hiM : i ∈ M
    · have hv : (box i).Spans a.compl ((box i).coord a.compl) := by
        have := h.pos i hi a.compl
        exact ⟨le_rfl, by omega⟩
      obtain ⟨l, hl, r, hr, hle, hrs, -, -⟩ := hpair i hiM _ hv
      have := h.inside l (hM l hl).1 a
      have := h.inside r (hM r hr).1 a
      have := hpos l hl
      have := hpos r hr
      have := hlow l hl hle
      have := hhigh r hr hrs
      simp only [EndsAt, StartsAt] at hle hrs
      obtain ⟨-, he | hs⟩ := hM i hiM
      · refine forall_axis a ?_ (by simpa [hb.low i hiM he] using h.inside i hi a.compl)
        have := hlow i hiM he
        have := h.inside i hi a
        simp only [EndsAt] at he
        omega
      · refine forall_axis a ?_ (by simpa [hb.high i hiM hs] using h.inside i hi a.compl)
        have := hhigh i hiM hs
        have := h.inside i hi a
        simp only [StartsAt] at hs
        omega
    · rw [hb.same i hi hiM]
      exact h.inside i hi
  · intro i hi j hj p hpi hpj
    rw [covers_iff a] at hpi hpj
    rw [hspans i hi] at hpi
    rw [hspans j hj] at hpj
    by_cases hrow : ∃ m ∈ M, (box m).Spans a.compl (a.compl.proj p)
    · obtain ⟨m, hm, hmv⟩ := hrow
      obtain ⟨l, hl, r, hr, hle, hrs, hlv, hrv⟩ := hpair m hm _ hmv
      -- all tiles of this row but `l` and `r` are where they were
      have key : ∀ k ∈ S, (box k).Spans a.compl (a.compl.proj p) → (box' k).Spans a (a.proj p) →
          (k = l ∧ a.proj p < X + d) ∨ (k = r ∧ X + d ≤ a.proj p) ∨
          (k ≠ l ∧ k ≠ r ∧ (box k).Spans a (a.proj p) ∧
            ¬ (box' l).Spans a (a.proj p) ∧ ¬ (box' r).Spans a (a.proj p)) := by
        intro k hk hkv hku
        have hl' := hlow l hl hle
        have hr' := hhigh r hr hrs
        have hlpos := h.pos l (hM l hl).1 a
        have hrpos := h.pos r (hM r hr).1 a
        simp only [EndsAt, StartsAt] at hle hrs
        by_cases hkl : k = l
        · subst hkl
          exact .inl ⟨rfl, by have := hku.2; omega⟩
        by_cases hkr : k = r
        · subst hkr
          exact .inr (.inl ⟨rfl, by have := hku.1; omega⟩)
        have hkM : k ∉ M := by
          intro hkM
          obtain ⟨-, he | hs⟩ := hM k hkM
          · have := h.pos k hk a
            simp only [EndsAt] at he
            exact hkl (h.eq_of_spans a hk (hM l hl).1 (u := X - 1) ⟨by omega, by omega⟩ hkv
              ⟨by omega, by omega⟩ hlv)
          · have := h.pos k hk a
            simp only [StartsAt] at hs
            exact hkr (h.eq_of_spans a hk (hM r hr).1 (u := X) ⟨by omega, by omega⟩ hkv
              ⟨by omega, by omega⟩ hrv)
        rw [hb.same k hk hkM] at hku
        have hnl : ¬ (box l).Spans a (a.proj p) := fun hlu =>
          hkl (h.eq_of_spans a hk (hM l hl).1 hku hkv hlu hlv)
        have hnr : ¬ (box r).Spans a (a.proj p) := fun hru =>
          hkr (h.eq_of_spans a hk (hM r hr).1 hku hkv hru hrv)
        have := hpos l hl
        have := hpos r hr
        simp only [Spans] at hnl hnr ⊢
        exact .inr (.inr ⟨hkl, hkr, hku, by omega, by omega⟩)
      rcases key i hi hpi.2 hpi.1 with ⟨rfl, hi1⟩ | ⟨rfl, hi1⟩ | ⟨-, -, hi1, hi2, hi3⟩ <;>
        rcases key j hj hpj.2 hpj.1 with ⟨rfl, hj1⟩ | ⟨rfl, hj1⟩ | ⟨-, -, hj1, hj2, hj3⟩
      · rfl
      · omega
      · exact absurd hpi.1 hj2
      · omega
      · rfl
      · exact absurd hpi.1 hj3
      · exact absurd hpj.1 hi2
      · exact absurd hpj.1 hi3
      · exact h.eq_of_spans a hi hj hi1 hpi.2 hj1 hpj.2
    · have hiM : i ∉ M := fun hiM => hrow ⟨i, hiM, hpi.2⟩
      have hjM : j ∉ M := fun hjM => hrow ⟨j, hjM, hpj.2⟩
      rw [hb.same i hi hiM] at hpi
      rw [hb.same j hj hjM] at hpj
      exact h.eq_of_spans a hi hj hpi.1 hpi.2 hpj.1 hpj.2
  · intro p hp
    obtain ⟨k, hk, hpk⟩ := h.cover p hp
    rw [covers_iff a] at hpk
    by_cases hrow : ∃ m ∈ M, (box m).Spans a.compl (a.compl.proj p)
    · obtain ⟨m, hm, hmv⟩ := hrow
      obtain ⟨l, hl, r, hr, hle, hrs, hlv, hrv⟩ := hpair m hm _ hmv
      have hl' := hlow l hl hle
      have hr' := hhigh r hr hrs
      have hlpos := h.pos l (hM l hl).1 a
      have hrpos := h.pos r (hM r hr).1 a
      have := hpos l hl
      have := hpos r hr
      -- points between the old and the new line change hands
      have take : ((box' l).Spans a (a.proj p) ∨ (box' r).Spans a (a.proj p)) →
          ∃ i ∈ S, (box' i).Covers p := by
        rintro (hu | hu)
        · exact ⟨l, (hM l hl).1, (covers_iff a).mpr ⟨hu, (hspans l (hM l hl).1 _).mpr hlv⟩⟩
        · exact ⟨r, (hM r hr).1, (covers_iff a).mpr ⟨hu, (hspans r (hM r hr).1 _).mpr hrv⟩⟩
      have hku := hpk.1
      simp only [EndsAt, StartsAt, Spans] at hle hrs hku take
      by_cases hkl : k = l
      · subst hkl
        exact take (by omega)
      by_cases hkr : k = r
      · subst hkr
        exact take (by omega)
      refine ⟨k, hk, (covers_iff a).mpr ⟨?_, (hspans k hk _).mpr hpk.2⟩⟩
      by_cases hkM : k ∈ M
      · exfalso
        obtain ⟨-, he | hs⟩ := hM k hkM
        · have := h.pos k hk a
          simp only [EndsAt] at he
          exact hkl (h.eq_of_spans a hk (hM l hl).1 (u := X - 1) ⟨by omega, by omega⟩ hpk.2
            ⟨by omega, by omega⟩ hlv)
        · have := h.pos k hk a
          simp only [StartsAt] at hs
          exact hkr (h.eq_of_spans a hk (hM r hr).1 (u := X) ⟨by omega, by omega⟩ hpk.2
            ⟨by omega, by omega⟩ hrv)
      · rw [hb.same k hk hkM]
        exact hpk.1
    · have hkM : k ∉ M := fun hkM => hrow ⟨k, hkM, hpk.2⟩
      exact ⟨k, hk, by rw [hb.same k hk hkM]; exact (covers_iff a).mpr hpk⟩

end Tiling
