/-
Workspaces that stay partitioned although tiles are resized.

A resize only ruins the partition of a workspace by moving the far edge of its frame, and
is only undefined if it has to draw a view that is gone.

* `resize_partition_iff` — when a resize command returns with the workspace partitioned;
* `partitioned_of_steps` — in a run without a resize that moves a far edge the tiles of
  every workspace partition its frame.
-/
import Cagebreak.CurrentRuns
import Cagebreak.Resize

namespace Cagebreak

open Exec Rect

variable {s s' : Server} {t : TilePtr} {a : Axis} {pixs : ℤ} {tileId : ℕ}

namespace Server

/-- What holds after a resize, if the command addresses a tile at all. -/
theorem resizeTile_ensures {hpixs vpixs : ℤ} {Q : Server → Prop} (hnone : Q s)
    (h : ∀ o t, s.outs.currOutput = some o → s.addressedTile tileId = .ok (some t) →
      Ensures (s.resizeAlong .horizontal o t hpixs >>= fun s => s.resizeAlong .vertical o t vpixs)
        Q) : Ensures (s.resizeTile hpixs vpixs tileId) Q := by
  refine Ensures.nonNull fun o ho => Ensures.bind_any fun f hf => ?_
  rw [chosenTile_eq hf]
  refine Ensures.bind_any fun tile htile => Ensures.ifSome (fun _ => hnone) fun t ht => ?_
  subst ht
  exact h o t ho htile

/-- A command resizes the tile it addresses along its own axis. -/
theorem runAction_resize_ensures {Q : Server → Prop} (hnone : Q s)
    (h : ∀ o t, s.outs.currOutput = some o → s.addressedTile tileId = .ok (some t) →
      Ensures (s.resizeAlong a o t pixs) Q) : Ensures (s.runAction (.resize a pixs tileId)) Q := by
  cases a with
  | horizontal =>
    refine resizeTile_ensures hnone fun o t ho ht => Ensures.bind (h o t ho ht) fun s₁ h₁ => ?_
    refine resizeAlong_zero.mono ?_
    rintro s₂ rfl
    exact h₁
  | vertical =>
    refine resizeTile_ensures hnone fun o t ho ht => Ensures.bind resizeAlong_zero ?_
    rintro s₁ rfl
    exact h o t ho ht

/-- Frames start at the origin. -/
theorem WellFormed.frame_coord {w : WsPtr} (h : WellFormed True s) (hw : s.tiles.wsLive w = true)
    (b : Axis) : (s.tiles.wsFrame w).coord b = 0 := by
  obtain ⟨box, hbox⟩ := h.tiles.frame w hw (by simp)
  rw [hbox]
  cases b <;> rfl

/-- Partitions of all workspaces, after boxes have changed in one that is partitioned
again. -/
theorem Reshaped.wellFormed (hr : s.Reshaped t s') (h : WellFormed True s)
    (h' : WellFormed False s')
    (hp : Tiling (s.tiles.wsFrame (s.tiles.tileWorkspace t))
      (s.tiles.tilesOf (s.tiles.tileWorkspace t)) s'.tiles.tileBox) : WellFormed True s' := by
  have hframe : s'.tiles.wsFrame = s.tiles.wsFrame := by rw [hr.tiles]
  have hlive : s'.tiles.wsLive = s.tiles.wsLive := by rw [hr.tiles]
  have htiles : ∀ w, s'.tiles.tilesOf w = s.tiles.tilesOf w := by
    intro w
    rw [hr.tiles]
    rfl
  refine ⟨{ h'.tiles with tiling := fun _ w hw _ => ?_ }, h'.cursor, h'.outs⟩
  rw [hframe, htiles]
  rw [hlive] at hw
  by_cases hwt : w = s.tiles.tileWorkspace t
  · rw [hwt]
    exact hp
  · refine (h.tiles.tiling trivial w hw (by simp)).congr fun u hu => hr.elsewhere u fun hut => ?_
    exact hwt (hu.2.symm.trans hut.2)

/-- The command moves the far edge of the frame that the workspace of the addressed tile
was made full screen with. -/
def CommandMovesEdge (s : Server) (a : Axis) (pixs : ℤ) (tileId : ℕ) : Prop :=
  ∃ o t, s.outs.currOutput = some o ∧ s.addressedTile tileId = .ok (some t) ∧
    s.MovesEdgeOf (s.tiles.wsFrame (s.tiles.tileWorkspace t)) a o t pixs

/-- The same for any input. -/
def MovesFrameEdge (s : Server) : Input → Prop
  | .command (.resizeTileHorizontal pixs tileId) => s.CommandMovesEdge .horizontal pixs tileId
  | .command (.resizeTileVertical pixs tileId) => s.CommandMovesEdge .vertical pixs tileId
  | _ => False

theorem WellFormed.resize (h : WellFormed True s) (hno : ¬ s.CommandMovesEdge a pixs tileId) :
    Ensures (s.runAction (.resize a pixs tileId)) (WellFormed True) := by
  refine runAction_resize_ensures h fun o t ho ht => ?_
  refine Ensures.bind_any fun _ hderef => ?_
  have hlive := deref_eq_ok.mp hderef
  obtain ⟨hw, -⟩ := h.tiles.tile_ws t hlive
  have hp := h.tiles.tiling trivial _ hw (by simp)
  have huntiled : WellFormed False s := ⟨h.tiles.untiled, h.cursor, h.outs⟩
  have hframe : Exactly (s.DrawsLive a o t pixs) (s.resizeAlong a o t pixs) _ :=
    resizeAlong_frame h.tiles.untiled hlive (WellFormed.frame_coord h hw) hp
  have hspec : Ensures (s.resizeAlong a o t pixs) fun s' => _ ∧ WellFormed False s' :=
    (hframe.ends.2.mono fun _ => And.right).and (resizeAlong_wellFormed huntiled)
  rw [resizeAlong, hderef, ok_bind] at hspec
  refine hspec.mono ?_
  rintro s' ⟨⟨hr, hiff⟩, h'⟩
  exact hr.wellFormed h h' (hiff.mpr fun hmoves => hno ⟨o, t, ho, ht, hmoves⟩)

/-- A tile of a connected output can be drawn if the view it shows can. -/
theorem Placed.drawable (h : WellFormed False s) (ht : s.Placed t)
    (hv : ∀ v, s.disp.tileView t = some v → s.views.viewLive v = true ∧
      ∃ w, s.views.viewWorkspace v = some w ∧ s.tiles.wsLive w = true ∧
        s.outs.outLive (s.tiles.wsOutput w) = true) : s.Drawable t :=
  ⟨ht.live, (h.tiles.tile_ws t ht.live).1, h.outs.outLive _ ht.output, hv⟩

end Server

open Server

/-- **Workspaces stay partitioned** in every run without a resize that moves the far edge
of a frame. -/
theorem partitioned_of_steps (hs : Steps step (fun s i => ¬ s.MovesFrameEdge i) Server.init s) :
    WellFormed True s := by
  refine hs.invariant .init fun s₁ i h hi => ?_
  by_cases hresizes : i.resizes = true
  · refine Ensures.ite (fun _ => Ensures.ok h) fun _ => ?_
    cases i with
    | command action =>
      cases action with
      | resizeTileHorizontal pixs tileId => exact WellFormed.resize (a := .horizontal) h hi
      | resizeTileVertical pixs tileId => exact WellFormed.resize (a := .vertical) h hi
      | _ => exact absurd hresizes (by simp [Input.resizes, Action.resizes])
    | _ => exact absurd hresizes (by simp [Input.resizes])
  · exact step_wellFormed (fun hi => absurd hi hresizes) h

end Cagebreak
