/-
Unmapping a view.

`view_unmap` searches for the nearest hidden view before the one that goes away.  If
that one has the keyboard focus, `seat_set_focus` puts the other into the focused tile;
else, if its surface has it, what is focused gets the focus again, and whatever shows
the view is filled afterwards.  On each way the view is taken out of its tile once.

* `findM?_isHidden` — the search returns if it asks no view that points at a freed tile;
* `Unmapping.viewWithdraw` — what the three ways have in common;
* `viewUnmap_iff` — tiles, lists and focus after the view is gone.
-/
import Cagebreak.ViewRings
import Cagebreak.Swap

namespace Cagebreak

open Exec

namespace Server

open Views

variable {s s' : Server} {w : WsPtr} {f t : TilePtr} {u v : ViewPtr} {view : Option ViewPtr}
  {a b l : List ViewPtr} {kb : Bool}

/-! ### The nearest hidden view -/

/-- Some tile shows the view. -/
def isShown (s : Server) (v : ViewPtr) : Bool :=
  (List.range s.tiles.tileTop).any fun t => s.tiles.tileLive t && s.disp.tileView t == some v

theorem isShown_iff (h : WellFormed False s) : s.isShown v = true ↔ ∃ t, s.Shows t v := by
  simp only [isShown, List.any_eq_true, List.mem_range, Bool.and_eq_true, beq_iff_eq]
  constructor
  · rintro ⟨t, -, ht⟩
    exact ⟨t, ht⟩
  · rintro ⟨t, ht⟩
    exact ⟨t, h.tiles.tile_lt t ht.1, ht⟩

/-- Where all pointers agree, the tile a view points at shows it if any tile does. -/
theorem sees_eq_isShown (h : WellFormed False s) (hp : s.PointersAgree) (ha : s.Anchored v) :
    s.sees v = s.isShown v := by
  rw [Bool.eq_iff_iff, sees_eq_true, isShown_iff h]
  constructor
  · rintro ⟨t, ht, hv⟩
    exact ⟨t, ha t ht, hv⟩
  · rintro ⟨t, ht⟩
    exact ⟨t, hp.tile t v ht, ht.2⟩

theorem PointersAgree.anchored (hp : s.PointersAgree) (ht : s.Shows t v) : s.Anchored v := by
  intro t' ht'
  obtain rfl := Option.some.inj ((hp.tile t v ht).symm.trans ht')
  exact ht.1

/-- None of the views that are asked points at a freed tile: these are the ones with
nothing but displayed views before them. -/
def Searchable (s : Server) (l : List ViewPtr) : Prop :=
  ∀ p u q, l = p ++ u :: q → (∀ x ∈ p, s.isShown x = true) → s.Anchored u

theorem searchable_nil : s.Searchable [] := by
  intro p u q hl
  simp at hl

theorem searchable_cons : s.Searchable (v :: l) ↔
    s.Anchored v ∧ (s.isShown v = true → s.Searchable l) := by
  constructor
  · intro h
    refine ⟨h [] v l rfl nofun, fun hv p u q hl hp => h (v :: p) u q (by rw [hl]; rfl) ?_⟩
    exact List.forall_mem_cons.mpr ⟨hv, hp⟩
  · rintro ⟨ha, h⟩ p u q hl hp
    cases p with
    | nil =>
      obtain ⟨rfl, -⟩ := List.cons.inj hl
      exact ha
    | cons x p =>
      obtain ⟨rfl, htail⟩ := List.cons.inj hl
      obtain ⟨hx, hp⟩ := List.forall_mem_cons.mp hp
      exact h hx p u q htail hp

/-- The search for a hidden view. -/
theorem findM?_isHidden (h : WellFormed False s) (hp : s.PointersAgree)
    (hl : ∀ v ∈ l, s.views.viewLive v = true ∧ s.views.managed v = true) :
    Exactly (s.Searchable l) (l.findM? s.isHidden) fun found =>
      found = l.find? fun u => !s.isShown u := by
  induction l with
  | nil => exact .inl ⟨searchable_nil, none, rfl, rfl⟩
  | cons v l ih =>
    obtain ⟨⟨hlive, hm⟩, hl⟩ := List.forall_mem_cons.mp hl
    rw [List.findM?]
    by_cases ha : s.Anchored v
    · rw [isHidden_eq hlive hm ha, sees_eq_isShown h hp ha, ok_bind]
      cases hv : s.isShown v with
      | true =>
        refine Exactly.congr (c := s.Searchable l) ((ih hl).mono fun found hfound => ?_) ?_
        · rw [List.find?_cons, hv]
          exact hfound
        · rw [searchable_cons, and_iff_right ha]
          exact forall_prop_of_true hv
      | false =>
        refine (Exactly.ok ?_).congr (iff_true_intro (searchable_cons.mpr ⟨ha, ?_⟩))
        · rw [List.find?_cons, hv]
          rfl
        · rw [hv]
          exact fun hf => absurd hf Bool.false_ne_true
    · refine .inr ⟨fun hs => ha (searchable_cons.mp hs).1, ?_⟩
      rw [isHidden_undefined hlive hm ha]
      rfl

/-! ### Out of focus and tile -/

/-- Nothing refers to the view any more but its list: its tile shows another one. -/
structure Withdrawn (s : Server) (v : ViewPtr) (view : Option ViewPtr) (s' : Server) : Prop where
  stays : StaysValid s s'
  hidden : ∀ t, ¬ s'.Shows t v
  focus : s'.disp.focusedView ≠ some v
  tile : ∀ t, s.Shows t v → s'.disp.tileView t = view
  frame : ∀ t, ¬ s.Shows t v → s'.disp.tileView t = s.disp.tileView t

/-- What `seat_set_focus` leaves of the tiles if the view is managed. -/
theorem seatSetFocus_disp (hview : ∀ v, view = some v → s.views.managed v = true) :
    Ensures (s.seatSetFocus view) fun s' => ∃ f, s.curTile = .ok f ∧ s'.tiles = s.tiles ∧
      s'.disp = { s.disp.assign f view with focusedView := view } := by
  cases view with
  | none =>
    refine seatSetFocus_none_assigned.mono ?_
    rintro s' ⟨f, s₁, c, e, hf, ha, rfl⟩
    refine ⟨f, hf, ?_, ?_⟩
    · rw [ha.eq]
    · rw [ha.eq]
  | some v =>
    refine (seatSetFocus_managed_assigned (hview v rfl)).mono ?_
    rintro s' ⟨w, f, s₁, V₁, V₂, c, e, hw, hf, ha, -, -, rfl⟩
    refine ⟨f, by rw [curTile, hw, ok_bind, hf], ?_, ?_⟩
    · rw [ha.eq]
    · rw [ha.eq]

theorem viewGetTile_eq (hlive : s.views.viewLive v = true) (ha : s.Anchored v) :
    s.viewGetTile v = .ok ((s.disp.viewTile v).filter fun t => s.disp.tileView t == some v) := by
  rw [viewGetTile, deref_eq_ok.mpr hlive, ok_bind]
  cases ht : s.disp.viewTile v with
  | none => rfl
  | some t =>
    rw [ifSome_some, deref_eq_ok.mpr (ha t ht), ok_bind, Option.filter_some]
    simp only [beq_iff_eq]

/-- The view that has the focus gives it to another one, which comes into the focused
tile. -/
theorem withdraw_focused (h : s.Valid) (hp : s.PointersAgree) (hfocus : s.FocusAgrees)
    (hv : s.disp.focusedView = some v) (hlive : s.Usable v) (hne : view ≠ some v)
    (hview : ∀ u, view = some u → s.Usable u ∧ s.views.managed u = true) :
    Gives (do
      let s ← s.seatSetFocus view
      let tile ← s.viewGetTile v
      ifSome tile s fun t => s.workspaceTileUpdateView t view) (Withdrawn s v view) := by
  obtain ⟨o, w, f, -, -, -, hf, hplaced⟩ := h.curTile
  have hshown : s.Shows f v := ⟨hplaced.live, (hfocus f hf).symm.trans hv⟩
  refine Gives.bind ((seatSetFocus_gives h fun u hu => (hview u hu).1).and
    (seatSetFocus_disp fun u hu => (hview u hu).2)) ?_
  rintro s₁ ⟨h₁, f', hf', htiles, hdisp⟩
  obtain rfl := Except.ok.inj (hf.symm.trans hf')
  have hnone : s₁.disp.viewTile v = none := by
    rw [hdisp]
    exact Display.assign_viewTile_old hne hshown.2
  have hanchored : s₁.Anchored v := by
    intro t ht
    exact nomatch hnone.symm.trans ht
  rw [viewGetTile_eq (h₁.usable v hlive).live hanchored, hnone, ok_bind]
  have htile : s₁.disp.tileView = Function.update s.disp.tileView f view := by rw [hdisp]; rfl
  refine Gives.ok ⟨h₁, fun t ht => ?_, ?_, fun t ht => ?_, fun t ht => ?_⟩
  · rw [Shows, htiles, htile] at ht
    by_cases htf : t = f
    · rw [htf, Function.update_self] at ht
      exact hne ht.2
    · rw [Function.update_of_ne htf] at ht
      exact htf (hp.once t f v ht hshown)
  · rw [hdisp]
    exact hne
  · rw [hp.once t f v ht hshown, htile, Function.update_self]
  · have htf : t ≠ f := by
      rintro rfl
      exact ht hshown
    rw [htile, Function.update_of_ne htf]

/-- The focus is elsewhere: the tile that shows the view, if there is one, is filled. -/
theorem withdraw_shown (h : s.Valid) (hp : s.PointersAgree) (ha : s.Anchored v) (hlive : s.Usable v)
    (hfocus : s.disp.focusedView ≠ some v) (hne : view ≠ some v)
    (hview : ∀ u, view = some u → s.Usable u) :
    Gives (do
      let tile ← s.viewGetTile v
      ifSome tile s fun t => s.workspaceTileUpdateView t view) (Withdrawn s v view) := by
  rw [viewGetTile_eq hlive.live ha, ok_bind]
  refine Gives.ifSome (fun hnone => ?_) fun t ht => ?_
  · have hhidden : ∀ t, ¬ s.Shows t v := by
      intro t ht
      rw [hp.tile t v ht, Option.filter_some, ht.2] at hnone
      simp at hnone
    exact ⟨h.stays, hhidden, hfocus, fun t ht => absurd ht (hhidden t), fun _ _ => rfl⟩
  · obtain ⟨ht, htv⟩ := Option.filter_eq_some_iff.mp ht
    have hshown : s.Shows t v := ⟨ha t ht, beq_iff_eq.mp htv⟩
    refine (workspaceTileUpdateView_gives h hshown.1 hview).mono ?_
    rintro s' ⟨hassigned, h'⟩
    have htile : s'.disp.tileView = Function.update s.disp.tileView t view := by
      rw [hassigned.eq]
      rfl
    refine ⟨h', fun t' ht' => ?_, ?_, fun t' ht' => ?_, fun t' ht' => ?_⟩
    · rcases hassigned.shows_iff.mp ht' with ⟨-, e⟩ | ⟨htt, hold⟩
      · exact hne e
      · exact htt (hp.once t' t v hold hshown)
    · rw [hassigned.eq]
      exact hfocus
    · rw [hp.once t' t v ht' hshown, htile, Function.update_self]
    · have htt : t' ≠ t := by
        rintro rfl
        exact ht' hshown
      rw [htile, Function.update_of_ne htt]

/-- `v` is unmapped, which is in the list of its workspace `w` between `a` and `b`. -/
structure Unmapping (s : Server) (w : WsPtr) (a : List ViewPtr) (v : ViewPtr) (b : List ViewPtr) :
    Prop where
  valid : s.Valid
  views : s.ViewsInv
  agree : s.PointersAgree
  focus : s.FocusAgrees
  mapped : s.views.viewMapped v = true
  workspace : s.views.viewWorkspace v = some w
  list : s.views.ListIs true w (a ++ v :: b)
  usable : ∀ u ∈ a ++ v :: b, s.Usable u

/-- The views that are asked, in this order. -/
def before (a b : List ViewPtr) : List ViewPtr := a.reverse ++ b.reverse

/-- The view that takes the place of `v`. -/
def successor (s : Server) (a b : List ViewPtr) : Option ViewPtr :=
  (before a b).find? fun u => !s.isShown u

namespace Unmapping

variable (h : s.Unmapping w a v b)
include h

theorem self : s.Usable v := h.usable v (by simp)

theorem manages (hu : u ∈ a ++ v :: b) : s.views.managed u = true :=
  (h.list.alike h.views.lists hu).manages.managed

theorem mem_of_before (hu : u ∈ before a b) : u ∈ a ++ v :: b ∧ u ≠ v := by
  have hnodup := h.list.nodup
  simp only [before, List.mem_append, List.mem_reverse] at hu
  constructor
  · simp only [List.mem_append, List.mem_cons]
    tauto
  · rintro rfl
    simp only [List.nodup_append, List.nodup_cons, List.mem_cons] at hnodup
    rcases hu with hu | hu
    · exact hnodup.2.2 u hu u (.inl rfl) rfl
    · exact hnodup.2.1.1 hu

theorem successor_mem (hu : s.successor a b = some u) : u ∈ a ++ v :: b ∧ u ≠ v :=
  h.mem_of_before (List.mem_of_find?_eq_some hu)

theorem viewGetPrevView : Exactly (s.Searchable (before a b)) (s.viewGetPrevView v) fun found =>
    found = s.successor a b := by
  obtain ⟨w', hw', hw, -⟩ := h.self.workspaceOf
  obtain rfl := Option.some.inj (h.workspace.symm.trans hw)
  rw [viewGetPrevView_list h.list h.views.lists hw']
  refine findM?_isHidden h.valid.layout h.agree fun u hu => ?_
  obtain ⟨hmem, -⟩ := h.mem_of_before hu
  exact ⟨(h.usable u hmem).live, h.manages hmem⟩

theorem backed : s.Backed :=
  ⟨h.agree.tile, fun t u hu => (h.views.shown t u hu).managed⟩

end Unmapping

theorem Showing.pointersAgree (hs : Showing s s') (hp : s.PointersAgree) : s'.PointersAgree := by
  refine .of_tile fun t v hv => ?_
  rw [hs.disp]
  exact hp.tile t v (hs.shows_iff.mp hv)

theorem Showing.withdrawn {s'' : Server} (hs : Showing s s') (hstays : StaysValid s s')
    (h : Withdrawn s' v view s'') : Withdrawn s v view s'' := by
  refine ⟨hstays.trans h.stays, h.hidden, h.focus, fun t ht => ?_, fun t ht => ?_⟩
  · exact h.tile t (hs.shows_iff.mpr ht)
  · rw [h.frame t fun hn => ht (hs.shows_iff.mp hn), hs.tileView]

/-- Taking a view out of focus and tile. -/
theorem Unmapping.viewWithdraw (h : s.Unmapping w a v b) (ha : s.Anchored v) :
    Exactly (s.Searchable (before a b)) (s.viewWithdraw v kb)
      (Withdrawn s v (s.successor a b)) := by
  refine (Exactly.bind h.viewGetPrevView (e := True) ?_).congr (and_iff_left trivial).symm
  rintro prev rfl
  refine Exactly.of_gives ?_
  have hne : s.successor a b ≠ some v := fun hv => (h.successor_mem hv).2 rfl
  have husable : ∀ u, s.successor a b = some u → s.Usable u :=
    fun u hu => h.usable u (h.successor_mem hu).1
  by_cases hfocus : s.disp.focusedView = some v
  · rw [if_pos hfocus]
    exact withdraw_focused h.valid h.agree h.focus hfocus h.self hne
      fun u hu => ⟨husable u hu, h.manages (h.successor_mem hu).1⟩
  · rw [if_neg hfocus]
    -- what is focused stays where it is if it gets the focus again
    refine Gives.bind (P := fun s₁ => StaysValid s s₁ ∧ Showing s s₁ ∧
      s₁.disp.focusedView = s.disp.focusedView) (Gives.ite (fun _ => ?_) fun _ => ?_) ?_
    · obtain ⟨o, w', f, -, -, -, hf, hplaced⟩ := h.valid.curTile
      rw [h.focus f hf]
      exact (seatSetFocus_gives h.valid fun u hu => h.valid.shown f u ⟨hplaced.live, hu⟩).and
        (focusShown_showing h.backed hf)
    · exact Gives.ok ⟨h.valid.stays, .refl, rfl⟩
    · rintro s₁ ⟨h₁, hshowing, hfocus₁⟩
      have ha₁ : s₁.Anchored v := by
        rw [Anchored, hshowing.disp, hshowing.tiles]
        exact ha
      refine (withdraw_shown h₁.valid (hshowing.pointersAgree h.agree) ha₁ (h₁.usable v h.self)
        (by rwa [hfocus₁]) hne fun u hu => h₁.usable u (husable u hu)).mono fun s₂ h₂ => ?_
      exact hshowing.withdrawn h₁ h₂

/-- What is left of a view that has been unmapped. -/
structure Unmapped (s : Server) (v : ViewPtr) (view : Option ViewPtr) (s' : Server) : Prop where
  unlisted : ∀ managed w l, s'.views.ListIs managed w l → v ∉ l
  hidden : ∀ t, ¬ s'.Shows t v
  focus : s'.disp.focusedView ≠ some v
  tile : ∀ t, s.Shows t v → s'.disp.tileView t = view
  frame : ∀ t, ¬ s.Shows t v → s'.disp.tileView t = s.disp.tileView t

theorem unlinkView_gives (hv : s.Usable v) : Gives (s.unlinkView v) fun s' =>
    s'.views.links.Unlinked (.view v) ∧ s' = { s with views := s'.views } := by
  obtain ⟨⟨x, hx⟩, y, hy⟩ := hv.linked
  refine ⟨{ s with views.links := s.views.links.unlink x (.view v) y }, ?_, ?_, rfl⟩
  · rw [unlinkView, Views.wlListRemove, hx, hy]
    rfl
  · exact DLinks.unlinked_unlink

theorem tileIdOf_exactly : Exactly (s.Anchored v) (s.tileIdOf v) fun _ => s.Anchored v := by
  by_cases ha : s.Anchored v
  · refine .inl ⟨ha, Gives.ifSome (fun _ => ha) fun t ht => ?_⟩
    exact Gives.deref (ha t ht) (Gives.ok ha)
  · obtain ⟨t, ht, hdead⟩ := not_anchored.mp ha
    refine .inr ⟨ha, ?_⟩
    rw [tileIdOf, ht, ifSome_some, hdead]
    rfl

/-- **`view_unmap`** returns if no view that it asks points at a freed tile. -/
theorem Unmapping.viewUnmap (h : s.Unmapping w a v b) :
    Exactly (s.Anchored v ∧ s.Searchable (before a b)) (s.viewUnmap v kb)
      (Unmapped s v (s.successor a b)) := by
  obtain ⟨w', hw', hw, hlive⟩ := h.self.workspaceOf
  obtain rfl := Option.some.inj (h.workspace.symm.trans hw)
  rw [Server.viewUnmap, hw', ok_bind, hlive, h.valid.homes _ hlive]
  show Exactly _ (if s.views.viewMapped v = true then _ else _) _
  rw [if_pos h.mapped, if_pos (h.manages (by simp))]
  refine Exactly.bind tileIdOf_exactly fun tileId ha => ?_
  refine Exactly.congr (c := s.Searchable (before a b) ∧ True) (Exactly.bind (h.viewWithdraw ha) ?_)
    (and_iff_left trivial).symm
  intro s₁ h₁
  refine Exactly.of_gives (Gives.bind (unlinkView_gives (h₁.stays.usable v h.self)) ?_)
  rintro s₂ ⟨hunlinked, heq⟩
  have hdisp : s₂.disp = s₁.disp := by rw [heq]
  have htiles : s₂.tiles = s₁.tiles := by rw [heq]
  refine Gives.ok ⟨fun managed w' l hl hv => ?_, fun t ht => h₁.hidden t ?_, ?_, ?_, ?_⟩
  · obtain ⟨⟨x, hx⟩, -⟩ := hl.chained hv
    exact nomatch hunlinked.2.symm.trans hx
  · rw [Shows, ← hdisp, ← htiles]
    exact ht
  · show s₂.disp.focusedView ≠ some v
    rw [hdisp]
    exact h₁.focus
  · show ∀ t, s.Shows t v → s₂.disp.tileView t = s.successor a b
    rw [hdisp]
    exact h₁.tile
  · show ∀ t, ¬ s.Shows t v → s₂.disp.tileView t = s.disp.tileView t
    rw [hdisp]
    exact h₁.frame

/-! ### Looking at a state -/

/-- `FocusAgrees`, decided. -/
def focusAgrees (s : Server) : Bool :=
  match s.curTile with
  | .ok t => s.disp.focusedView == s.disp.tileView t
  | .error _ => true

/-- `Unmapping`, decided for a state that is reached. -/
def isUnmapping (s : Server) (w : WsPtr) (a : List ViewPtr) (v : ViewPtr) (b : List ViewPtr) :
    Bool :=
  s.isValid && s.pointBack && s.focusAgrees && s.views.viewMapped v &&
    decide (s.views.viewWorkspace v = some w) && decide (s.views.ListIs true w (a ++ v :: b)) &&
    (a ++ v :: b).all s.isUsable

theorem focusAgrees_of_bool (h : s.focusAgrees = true) : s.FocusAgrees := by
  intro t ht
  rw [focusAgrees, ht] at h
  exact beq_iff_eq.mp h

theorem unmapping_of_isUnmapping (h : Reachable s) (hs : s.isUnmapping w a v b = true) :
    s.Unmapping w a v b := by
  simp only [isUnmapping, Bool.and_eq_true, decide_eq_true_eq, List.all_eq_true] at hs
  obtain ⟨⟨⟨⟨⟨⟨hvalid, hpoint⟩, hfocus⟩, hmapped⟩, hw⟩, hlist⟩, husable⟩ := hs
  exact ⟨h.wellFormed.valid hvalid, h.viewsInv, h.wellFormed.pointersAgree hpoint,
    focusAgrees_of_bool hfocus, hmapped, hw, hlist, fun u hu => usable_of_isUsable (husable u hu)⟩

end Server

open Server

variable {s : Server} {w : WsPtr} {v : ViewPtr} {a b : List ViewPtr} {kb : Bool}

/-- **A view that is unmapped** is in no list, no tile and out of focus, and the nearest
hidden view before it takes its place, exactly if neither it nor one of the views that
are asked on the way points at a freed tile. -/
theorem viewUnmap_iff (h : s.Unmapping w a v b) :
    (∃ s', s.viewUnmap v kb = .ok s' ∧ Unmapped s v (s.successor a b) s') ↔
      s.Anchored v ∧ s.Searchable (before a b) := by
  have hun : Exactly _ (s.viewUnmap v kb) _ := h.viewUnmap
  rcases hun with ⟨hc, hgives⟩ | ⟨hc, herror⟩
  · exact iff_of_true hgives hc
  · refine iff_of_false ?_ hc
    rintro ⟨s', hs', -⟩
    exact nomatch herror.symm.trans hs'

/-- Of two views the one in the tile is unmapped. -/
theorem viewUnmap_iff_two : ∃ s : Server, s.Unmapping 0 [0] 1 [] ∧
    ∃ s', s.viewUnmap 1 true = .ok s' ∧ Unmapped s 1 (some 0) s' := by
  obtain ⟨s, hs, htest⟩ := exists_of_returns (p := fun s : Server => s.isUnmapping 0 [0] 1 [] &&
      decide (s.disp.viewTile 0 = none) && decide (s.disp.viewTile 1 = some 0) &&
      s.tiles.tileLive 0 && decide (s.successor [0] [] = some 0))
    (m := run step Server.init
      [.outputNew "HDMI-A-1" ⟨0, 0, 8, 6, by decide, by decide⟩ none,
        .viewNew ⟨false, false, false, 0⟩, .viewNew ⟨false, false, false, 0⟩, .viewMap 0 0 0,
        .viewMap 1 0 0]) (by decide +kernel)
  simp only [Bool.and_eq_true, decide_eq_true_eq] at htest
  obtain ⟨⟨⟨⟨hun, h0⟩, h1⟩, hlive⟩, hsucc⟩ := htest
  have h := unmapping_of_isUnmapping (Steps.of_run hs fun _ _ _ => trivial) hun
  have ha : s.Anchored 1 := by
    intro t ht
    obtain rfl := Option.some.inj (h1.symm.trans ht)
    exact hlive
  have hsearch : s.Searchable [0] := by
    refine searchable_cons.mpr ⟨fun t ht => ?_, fun _ => searchable_nil⟩
    exact nomatch h0.symm.trans ht
  rw [← hsucc]
  exact ⟨s, h, (viewUnmap_iff h).mpr ⟨ha, hsearch⟩⟩

/-- The full screen layout points three views at its tile, which is absorbed by the one
beside it while one of them still is hidden: that one is unmapped. -/
theorem viewUnmap_undefined : ¬ ∀ (s : Server) w a v b kb, Reachable s → s.Unmapping w a v b →
    ∃ s', s.viewUnmap v kb = .ok s' ∧ Unmapped s v (s.successor a b) s' := by
  intro hall
  obtain ⟨s, hs, htest⟩ := exists_of_returns (p := fun s : Server => s.isUnmapping 0 [] 1 [2, 0] &&
      decide (s.disp.viewTile 1 = some 1) && !s.tiles.tileLive 1)
    (m := run step Server.init absorbedFullscreen) (by decide +kernel)
  simp only [Bool.and_eq_true, decide_eq_true_eq, Bool.not_eq_true'] at htest
  obtain ⟨⟨hun, h1⟩, hdead⟩ := htest
  have hr : Reachable s := Steps.of_run hs fun _ _ _ => trivial
  have h := unmapping_of_isUnmapping hr hun
  obtain ⟨s', hs', -⟩ := hall s 0 [] 1 [2, 0] false hr h
  obtain ⟨⟨ha, -⟩, -⟩ := h.viewUnmap.ends.2 s' hs'
  exact not_anchored.mpr ⟨1, h1, hdead⟩ ha

end Cagebreak
