/-
Merging tiles.

The tile that is absorbed is freed.  The view it displays is taken out of it first and
the one in the tile that absorbs it is pointed at that tile again, but the hidden views
that point at it are left as they are.

* `Absorbed.pointsAt_iff` — what the views point at afterwards;
* `merge_forgets_iff` — the freed tile is forgotten for ever, exactly if no hidden view
  points at it.
-/
import Cagebreak.TilePointers
import Cagebreak.ViewRings

namespace Cagebreak

open Exec

namespace Server

variable {s s' s'' : Server} {dir : Direction} {tileId : ℕ} {t m : TilePtr} {v : ViewPtr}

/-- The command `merge` makes `t` absorb `m`. -/
structure Absorbs (s : Server) (dir : Direction) (tileId : ℕ) (t m : TilePtr) : Prop where
  running : s.terminated = false
  tile : s.addressedTile tileId = .ok (some t)
  neighbour : s.tiles.findTileTowards dir t = .ok (some m)
  ne : m ≠ t
  dim : (s.tiles.tileBox t).dim dir.axis.compl = (s.tiles.tileBox m).dim dir.axis.compl
  coord : (s.tiles.tileBox t).coord dir.axis.compl = (s.tiles.tileBox m).coord dir.axis.compl

instance : Decidable (s.Absorbs dir tileId t m) :=
  decidable_of_iff (_ ∧ _ ∧ _ ∧ _ ∧ _ ∧ _)
    ⟨fun ⟨h1, h2, h3, h4, h5, h6⟩ => ⟨h1, h2, h3, h4, h5, h6⟩,
      fun h => ⟨h.running, h.tile, h.neighbour, h.ne, h.dim, h.coord⟩⟩

/-- Which tiles there are and what the views point at once `t` has absorbed `m`. -/
structure Absorbed (s : Server) (t m : TilePtr) (s' : Server) : Prop where
  live : s.tiles.tileLive m = true
  top : s'.tiles.tileTop = s.tiles.tileTop
  freed : s'.tiles.tileLive = Function.update s.tiles.tileLive m false
  views : s'.views = s.views
  tileView : s'.disp.tileView = Function.update s.disp.tileView m none
  viewTile : ∀ v, s'.disp.viewTile v = if s.disp.tileView t = some v then some t
    else if s.disp.tileView m = some v then none else s.disp.viewTile v

/-- **What `merge_tile` does** to tile pointers. -/
theorem mergeTile_absorbed (h : s.Absorbs dir tileId t m) :
    Ensures (s.mergeTile dir t) (Absorbed s t m) := by
  rw [mergeTile, h.neighbour, ok_bind, ifSome_some]
  rw [if_neg (by simp [h.ne, h.dim, h.coord])]
  refine Ensures.bind workspaceTileUpdateView_spec ?_
  rintro s₁ ⟨hlive, sc, rfl⟩
  refine Ensures.nonNull fun p _ => Ensures.nonNull fun n _ => ?_
  have hold : ∀ v, (s.disp.assign m none).viewTile v =
      if s.disp.tileView m = some v then none else s.disp.viewTile v := by
    intro v
    split
    · next hv => exact Display.assign_viewTile_old nofun hv
    · next hv => exact Display.assign_viewTile_of_ne nofun hv
  have htile : (s.disp.assign m none).tileView t = s.disp.tileView t := by
    rw [Display.assign_tileView, Function.update_of_ne h.ne.symm]
  -- the view of the tile that has grown is maximized
  refine Ensures.bind (P := Absorbed s t m) (Ensures.ifSome (fun hnone => ?_) fun u hu => ?_)
    fun s₂ h₂ => Ensures.bind_any fun place _ => ?_
  · replace hnone : (s.disp.assign m none).tileView t = none := hnone
    rw [htile] at hnone
    refine ⟨hlive, rfl, rfl, rfl, rfl, fun v => ?_⟩
    have hne : (none : Option ViewPtr) ≠ some v := nofun
    rw [hnone, if_neg hne]
    exact hold v
  · replace hu : (s.disp.assign m none).tileView t = some u := hu
    rw [htile] at hu
    refine viewMaximize_spec.mono ?_
    rintro s₂ ⟨-, sc', rfl⟩
    refine ⟨hlive, rfl, rfl, rfl, rfl, fun v => ?_⟩
    show Function.update (s.disp.assign m none).viewTile u (some t) v = _
    by_cases huv : v = u
    · rw [huv, Function.update_self, if_pos hu]
    · rw [Function.update_of_ne huv, hu, if_neg fun e => huv (Option.some.inj e).symm]
      exact hold v
  · obtain ⟨ws, output, outputId⟩ := place
    exact Ensures.ok ⟨h₂.live, h₂.top, h₂.freed, h₂.views, h₂.tileView, h₂.viewTile⟩

/-- What points at the absorbed tile afterwards is neither in it nor in the other one. -/
theorem Absorbed.pointsAt_iff (h : Absorbed s t m s') (hne : m ≠ t) : s'.PointsAt v m ↔
    s.PointsAt v m ∧ s.disp.tileView m ≠ some v ∧ s.disp.tileView t ≠ some v := by
  rw [PointsAt, PointsAt, h.views, h.viewTile]
  by_cases ht : s.disp.tileView t = some v
  · simp [ht, hne.symm]
  · by_cases hm : s.disp.tileView m = some v
    · simp [ht, hm]
    · simp [ht, hm]

theorem Absorbed.forgotten_iff (h : Absorbed s t m s') (hwf : WellFormed False s) (hne : m ≠ t) :
    s'.Forgotten m ↔
      ∀ v, s.PointsAt v m → s.disp.tileView m = some v ∨ s.disp.tileView t = some v := by
  constructor
  · intro hm v hv
    by_contra hnot
    rw [not_or] at hnot
    exact hm.views v ((h.pointsAt_iff hne).mpr ⟨hv, hnot⟩)
  · intro hall
    refine ⟨?_, ?_, fun v hv => ?_⟩
    · rw [h.top]
      exact hwf.tiles.tile_lt m h.live
    · rw [h.freed, Function.update_self]
    · obtain ⟨hv, hm, ht⟩ := (h.pointsAt_iff hne).mp hv
      exact (hall v hv).elim hm ht

/-- Only the views in the two tiles point at the one that is absorbed: decided. -/
def mergesFreely (s : Server) (t m : TilePtr) : Bool :=
  (List.range s.views.viewTop).all fun v =>
    !(s.views.viewMapped v && decide (s.disp.viewTile v = some m)) ||
      decide (s.disp.tileView m = some v) || decide (s.disp.tileView t = some v)

/-- The command `merge`. -/
theorem merge_absorbed (h : s.Absorbs dir tileId t m) :
    Ensures (step s (.command (.merge dir tileId))) (Absorbed s t m) := by
  rw [step, h.running]
  show Ensures (s.addressedTile tileId >>= _) _
  rw [h.tile, ok_bind]
  exact mergeTile_absorbed h

end Server

open Server

variable {s s' : Server} {dir : Direction} {tileId : ℕ} {t m : TilePtr}

/-- **No mapped view ever points at an absorbed tile**, exactly if none but the views in
the two tiles points at it when it is absorbed. -/
theorem merge_forgets_iff (h : Reachable s) (hm : s.Absorbs dir tileId t m)
    (hs : step s (.command (.merge dir tileId)) = .ok s') :
    (∀ s'', Steps step (fun s i => s.RemapsAnchored i) s' s'' → s''.Forgotten m) ↔
      ∀ v, s.PointsAt v m → s.disp.tileView m = some v ∨ s.disp.tileView t = some v := by
  have habs := merge_absorbed hm s' hs
  have hwf' := step_wellFormed (fun _ => rfl) h.wellFormed s' hs
  have hvi' := step_viewsInv h.viewsInv s' hs
  rw [← habs.forgotten_iff h.wellFormed hm.ne]
  constructor
  · exact fun hall => hall s' .refl
  · exact fun hforgotten s'' hsteps => forgotten_of_steps hwf' hvi' hsteps hforgotten

/-- A tile absorbs the other half, which shows a view. -/
theorem merge_forgets_iff_split : ∃ s s', Reachable s ∧ s.Absorbs .right 0 0 1 ∧ s.Shows 1 0 ∧
    step s (.command (.merge .right 0)) = .ok s' ∧
    ∀ s'', Steps step (fun s i => s.RemapsAnchored i) s' s'' → s''.Forgotten 1 := by
  obtain ⟨s, hs, htest⟩ := exists_of_returns
    (p := fun s : Server => decide (s.Absorbs .right 0 0 1) &&
      s.mergesFreely 0 1 && s.tiles.tileLive 1 && decide (s.disp.tileView 1 = some 0) &&
      returns (step s (.command (.merge .right 0))) fun _ => true)
    (m := run step Server.init
      [.outputNew "HDMI-A-1" ⟨0, 0, 8, 6, by decide, by decide⟩ none,
        .viewNew ⟨false, false, false, 0⟩, .viewNew ⟨false, false, false, 0⟩, .viewMap 0 0 0,
        .viewMap 1 0 0, .command (.splitVertical half)]) (by decide +kernel)
  simp only [Bool.and_eq_true, decide_eq_true_eq] at htest
  obtain ⟨⟨⟨⟨habs, hfree⟩, hlive⟩, hshown⟩, hret⟩ := htest
  obtain ⟨s', hs', -⟩ := exists_of_returns hret
  have hr : Reachable s := Steps.of_run hs fun _ _ _ => trivial
  refine ⟨s, s', hr, habs, ⟨hlive, hshown⟩, hs', (merge_forgets_iff hr habs hs').mpr ?_⟩
  rintro v ⟨hmapped, hpoints⟩
  simp only [mergesFreely, List.all_eq_true, List.mem_range, Bool.or_eq_true, Bool.not_eq_true',
    Bool.and_eq_false_iff, decide_eq_false_iff_not, decide_eq_true_eq] at hfree
  rcases hfree v (hr.mapped_known hmapped) with (hnot | htile) | htile
  · simp [hmapped, hpoints] at hnot
  · exact .inl htile
  · exact .inr htile

/-- The full screen layout has pointed a hidden view at the tile that is absorbed. -/
theorem merge_dangles : ¬ ∀ (s s' : Server) dir tileId t m, Reachable s → s.Absorbs dir tileId t m →
    step s (.command (.merge dir tileId)) = .ok s' → ∀ v, ¬ s'.PointsAt v m := by
  intro hall
  obtain ⟨s, hs, htest⟩ := exists_of_returns
    (p := fun s : Server => decide (s.Absorbs .left 0 2 1) &&
      returns (step s (.command (.merge .left 0))) fun s' => s'.views.viewMapped 1 &&
        decide (s'.disp.viewTile 1 = some 1))
    (m := run step Server.init fullscreenSplit) (by decide +kernel)
  simp only [Bool.and_eq_true, decide_eq_true_eq] at htest
  obtain ⟨habs, hret⟩ := htest
  obtain ⟨s', hs', hpoints⟩ := exists_of_returns hret
  simp only [Bool.and_eq_true, decide_eq_true_eq] at hpoints
  exact hall s s' .left 0 2 1 (Steps.of_run hs fun _ _ _ => trivial) habs hs' 1 hpoints

end Cagebreak
