/-
Cycling through the views of a workspace.

The focused tile shows the last view of the list of its workspace, and the head of
the list is moved behind each view that is focused.  So the list turns: read
backwards from its head, `c :: (p ++ x :: q)` becomes `x :: (q ++ c :: p)` when the
tile goes on from `c` to `x`.  Among the views that take part — the hidden ones and
the one in the tile — `next` is a rotation by one, and `prev` its inverse.

* `cycleViews_iff` — cycling goes round exactly if no view of the list points at a
  tile that has been freed.
-/
import Cagebreak.ViewRings
import Cagebreak.Swap
import Mathlib.Data.List.Rotate

namespace Cagebreak

open Exec

namespace Server

open Views

variable {s s' s'' : Server} {w : WsPtr} {f t : TilePtr} {c c' x v : ViewPtr}
  {b b' p q : List ViewPtr} {r : Bool}

/-- The focused tile `f` of the current workspace shows `c`, which is the last view of
the list; the views before it are `b`, read backwards. -/
structure Cycling (s : Server) (w : WsPtr) (f : TilePtr) (c : ViewPtr) (b : List ViewPtr) :
    Prop where
  valid : s.Valid
  views : s.ViewsInv
  curWs : s.outs.curWs = .ok w
  focused : s.tiles.focusedTile w = .ok f
  list : s.views.ListIs true w (c :: b).reverse
  usable : ∀ v ∈ c :: b, s.Usable v
  shown : s.disp.tileView f = some c
  back : s.disp.viewTile c = some f

/-- The command `next`, or `prev`, without the id of a view. -/
def cycle (s : Server) (reverse : Bool) : Exec Server := s.runAction (.cycleViews reverse 0)

/-- Several of these commands. -/
def cycles (s : Server) (rs : List Bool) : Exec Server := rs.foldlM cycle s

/-- `Cycling`, decided for a state that is reached. -/
def isCycling (s : Server) (w : WsPtr) (f : TilePtr) (c : ViewPtr) (b : List ViewPtr) : Bool :=
  s.isValid && decide (s.outs.curWs = .ok w) && decide (s.tiles.focusedTile w = .ok f) &&
    decide (s.views.ListIs true w (c :: b).reverse) && (c :: b).all s.isUsable &&
    decide (s.disp.tileView f = some c) && decide (s.disp.viewTile c = some f)

theorem cycling_of_isCycling (h : Reachable s) (hs : s.isCycling w f c b = true) :
    s.Cycling w f c b := by
  simp only [isCycling, Bool.and_eq_true, decide_eq_true_eq, List.all_eq_true] at hs
  obtain ⟨⟨⟨⟨⟨⟨hvalid, hw⟩, hf⟩, hlist⟩, husable⟩, hshown⟩, hback⟩ := hs
  exact ⟨h.wellFormed.valid hvalid, h.viewsInv, hw, hf, hlist,
    fun v hv => usable_of_isUsable (husable v hv), hshown, hback⟩

namespace Cycling

theorem nodup (h : s.Cycling w f c b) : (c :: b).Nodup :=
  List.nodup_reverse.mp h.list.nodup

theorem manages (h : s.Cycling w f c b) (hv : v ∈ c :: b) : s.views.Manages v :=
  (h.list.alike h.views.lists (List.mem_reverse.mpr hv)).manages

theorem curTile (h : s.Cycling w f c b) : s.curTile = .ok f := by
  rw [Server.curTile, h.curWs, ok_bind, h.focused]

theorem tile (h : s.Cycling w f c b) : f ∈ s.tiles.tilesOf w :=
  (h.valid.layout.tiles.focused_mem (by simp) h.focused).2

theorem isHidden (h : s.Cycling w f c b) : s.isHidden c = .ok false := by
  refine (isHidden_eq_false (h.usable c List.mem_cons_self).live
    (h.manages List.mem_cons_self).managed).mpr ⟨fun t ht => ?_, ?_⟩
  · obtain rfl := Option.some.inj (h.back.symm.trans ht)
    exact h.tile.1
  · exact sees_eq_true.mpr ⟨f, h.back, h.shown⟩

/-- `next` searches the list backwards, `prev` from its start. -/
theorem cycleTarget (h : s.Cycling w f c b) : s.cycleTarget w 0 r =
    (if r then b.reverse else b).findM? s.isHidden := by
  show s.findView (if r then s.views.links.next else s.views.links.prev) (.head true w)
    s.isHidden = _
  cases r with
  | false =>
    refine (findView_prev h.list h.views.lists).trans ?_
    rw [List.reverse_reverse]
    exact findM?_append (l := [c]) fun v hv => by
      rw [List.mem_singleton.mp hv]
      exact h.isHidden
  | true =>
    refine (findView_next h.list h.views.lists).trans ?_
    rw [List.reverse_cons]
    refine (findM?_skip h.isHidden).trans ?_
    rw [List.append_nil]
    rfl

end Cycling

/-- What is left to do once the next view has been found. -/
def goOn (s : Server) (w : WsPtr) (f : TilePtr) (c x : ViewPtr) : Exec Server := do
  let s ← s.workspaceTileUpdateView f (some x)
  let f' ← s.curTile
  let s ← (if f = f' then s.seatSetFocus (some x) else .ok s)
  s.emitCycleViews w (some c) x

theorem Cycling.cycle_eq (h : s.Cycling w f c b) : s.cycle r = (do
    let next ← (if r then b.reverse else b).findM? s.isHidden
    ifSome next s fun x => s.goOn w f c x) := by
  rw [cycle, runAction, keybindingCycleViews]
  show (s.curTile >>= _) = _
  rw [h.curTile, ok_bind, deref_eq_ok.mpr h.tile.1, ok_bind, h.shown, h.tile.2]
  show (s.cycleTarget w 0 r >>= _) = _
  rw [h.cycleTarget]
  rfl

theorem Cycling.emit (h : s.Cycling w f c b) {e : Event} : (s.emit e).Cycling w f c b :=
  ⟨(emit_staysValid h.valid).valid, (emit_kept h.views).inv, h.curWs, h.focused, h.list,
    fun v hv => (emit_staysValid h.valid).usable v (h.usable v hv), h.shown, h.back⟩

/-- The event tells of a view that has been there, and of the tile. -/
theorem Cycling.emitCycleViews (h : s.Cycling w f x b) (hc : s.views.viewLive c = true) :
    Gives (s.emitCycleViews w (some c) x) fun s' => ∃ e, s' = s.emit e := by
  refine Gives.bind (P := fun _ => True) (Gives.deref hc (Gives.ok trivial)) fun old _ => ?_
  obtain ⟨oldId, oldPid⟩ := old
  have hlive := h.valid.layout.tiles.tile_ws f h.tile.1
  rw [h.tile.2] at hlive
  refine Gives.nonNull h.back (Gives.deref ?_ (Gives.ok ⟨_, rfl⟩))
  rw [h.tile.1, hlive.1, h.valid.homes w hlive.1]
  rfl

/-- **The tile goes on to a view of the list**, which becomes the last one. -/
theorem Cycling.goOn (h : s.Cycling w f c (p ++ x :: q)) : Gives (s.goOn w f c x) fun s' =>
    s'.Cycling w f x (q ++ c :: p) ∧ s'.tiles = s.tiles ∧
      s'.disp = { s.disp.assign f (some x) with focusedView := some x } := by
  have hmem : x ∈ c :: (p ++ x :: q) := by simp
  have hview : ∀ v, some x = some v → s.Usable v ∧ s.views.Manages v := by
    rintro v ⟨⟩
    exact ⟨h.usable x hmem, h.manages hmem⟩
  refine Gives.bind ((workspaceTileUpdateView_gives h.valid h.tile.1 fun v hv => (hview v hv).1).and
    (workspaceTileUpdateView_kept h.views fun v hv => (hview v hv).2)) ?_
  rintro s₁ ⟨⟨ha, hs₁⟩, hk₁⟩
  have htiles₁ : s₁.tiles = s.tiles := by rw [ha.eq]
  have houts₁ : s₁.outs = s.outs := by rw [ha.eq]
  have hviews₁ : s₁.views = s.views := by rw [ha.eq]
  have hw₁ : s₁.outs.curWs = .ok w := by
    rw [houts₁]
    exact h.curWs
  have hf₁ : s₁.tiles.focusedTile w = .ok f := by
    rw [htiles₁]
    exact h.focused
  have hlist₁ : s₁.views.ListIs true w (q.reverse ++ x :: (p.reverse ++ [c])) := by
    rw [hviews₁]
    simpa using h.list
  have hcur₁ : s₁.curTile = .ok f := by rw [Server.curTile, hw₁, ok_bind, hf₁]
  rw [hcur₁, ok_bind, if_pos rfl]
  refine Gives.bind (seatSetFocus_list hs₁.valid hk₁.inv hw₁ hf₁ hlist₁
    (hs₁.usable x (h.usable x hmem))) fun s₂ h₂ => ?_
  -- the view is in the tile already when it gets the focus
  have hdisp₂ : s₂.disp = { s.disp.assign f (some x) with focusedView := some x } := by
    have hself : (s.disp.assign f (some x)).tileView f = some x := Function.update_self _ _ _
    have hassign := Display.assign_self (D := s.disp.assign f (some x)) (t := f) fun v hv => by
      obtain rfl := Option.some.inj (hself.symm.trans hv)
      exact Display.assign_viewTile_self
    rw [hself] at hassign
    rw [h₂.disp, ha.eq, hassign]
  have htiles₂ : s₂.tiles = s.tiles := h₂.same.tiles.trans htiles₁
  have hcyc : s₂.Cycling w f x (q ++ c :: p) := by
    refine ⟨h₂.stays.valid, h₂.kept, ?_, ?_, ?_, fun v hv => h₂.stays.usable v (hs₁.usable v
      (h.usable v ?_)), ?_, ?_⟩
    · rw [h₂.same.outs]
      exact hw₁
    · rw [htiles₂]
      exact h.focused
    · simpa using h₂.list
    · simp only [List.mem_cons, List.mem_append] at hv ⊢
      tauto
    · rw [hdisp₂]
      exact Function.update_self _ _ _
    · rw [hdisp₂]
      exact Display.assign_viewTile_self
  refine (hcyc.emitCycleViews ?_).mono ?_
  · exact (h₂.stays.usable c (hs₁.usable c (h.usable c List.mem_cons_self))).live
  · rintro s' ⟨e, rfl⟩
    exact ⟨hcyc.emit, htiles₂, hdisp₂⟩

/-! ### One command -/

/-- The view takes part: it is hidden, or it is the one in the tile. -/
def takesPart (s : Server) (f : TilePtr) (v : ViewPtr) : Bool :=
  !s.sees v || s.disp.tileView f == some v

theorem Cycling.takesPart (h : s.Cycling w f c b) (hv : v ∈ b) : s.takesPart f v = !s.sees v := by
  have hne : c ≠ v := fun e => (List.nodup_cons.mp h.nodup).1 (e ▸ hv)
  simp [Server.takesPart, h.shown, hne]

theorem Cycling.takesPart_self (h : s.Cycling w f c b) : s.takesPart f c = true := by
  simp [Server.takesPart, h.shown]

/-- The views that take part, from the one in the tile on. -/
theorem Cycling.filter (h : s.Cycling w f c b) :
    (c :: b).filter (s.takesPart f) = c :: b.filter fun v => !s.sees v := by
  rw [List.filter_cons_of_pos h.takesPart_self]
  exact congrArg _ (List.filter_congr fun v hv => h.takesPart hv)

/-- When the tile goes on from `c` to `x`, no other view is hidden or shown. -/
theorem sees_assign (hshown : s.disp.tileView f = some c) (hback : s.disp.viewTile c = some f)
    (hcx : c ≠ x) (hdisp : s'.disp = { s.disp.assign f (some x) with focusedView := some x }) :
    s'.sees x = true ∧ s'.sees c = false ∧ ∀ v, v ≠ c → v ≠ x →
      s'.sees v = s.sees v ∧ s'.disp.viewTile v = s.disp.viewTile v := by
  have hviewx : s'.disp.viewTile x = some f := by
    rw [hdisp]
    exact Display.assign_viewTile_self
  have hviewc : s'.disp.viewTile c = none := by
    rw [hdisp]
    exact Display.assign_viewTile_old (fun e => hcx (Option.some.inj e).symm) hshown
  have htile : s'.disp.tileView = Function.update s.disp.tileView f (some x) := by
    rw [hdisp]
    rfl
  refine ⟨sees_eq_true.mpr ⟨f, hviewx, ?_⟩, ?_, fun v hvc hvx => ?_⟩
  · rw [htile, Function.update_self]
  · rw [sees, hviewc]
    rfl
  · have hview : s'.disp.viewTile v = s.disp.viewTile v := by
      rw [hdisp]
      refine Display.assign_viewTile_of_ne (fun e => hvx (Option.some.inj e).symm) fun e => hvc ?_
      exact Option.some.inj (e.symm.trans hshown)
    refine ⟨?_, hview⟩
    rw [sees, sees, hview, htile]
    cases s.disp.viewTile v with
    | none => rfl
    | some t =>
      by_cases ht : t = f
      · subst ht
        simp [hshown, hvc.symm, hvx.symm]
      · simp [ht]

/-- What one command does to a list whose views point at no freed tile. -/
structure CycledTo (s : Server) (w : WsPtr) (f : TilePtr) (c : ViewPtr) (b : List ViewPtr)
    (r : Bool)
    (s' : Server) (c' : ViewPtr) (b' : List ViewPtr) : Prop where
  cycling : s'.Cycling w f c' b'
  anchored : ∀ v ∈ b', s'.Anchored v
  rotated : (c' :: b').IsRotated (c :: b)
  frame : ∀ t, t ≠ f → s'.disp.tileView t = s.disp.tileView t
  takesPart : s'.takesPart f = s.takesPart f
  next : r = false → (c' :: b').filter (s.takesPart f) =
    ((c :: b).filter (s.takesPart f)).rotate 1
  prev : r = true → ((c' :: b').filter (s.takesPart f)).rotate 1 =
    (c :: b).filter (s.takesPart f)

/-- The views from `c` to `x` read backwards, and those from `x` on. -/
theorem isRotated_swap : (x :: (q ++ c :: p)).IsRotated (c :: (p ++ x :: q)) := by
  have h := @List.isRotated_append _ (x :: q) (c :: p)
  simpa using h

/-- Going on to the first hidden view backwards is a rotation by one, among the views that take
part, and going on to the first one from the start of the list is its inverse. -/
theorem filter_swap {P : ViewPtr → Bool} (hc : P c = true) (hx : P x = true) :
    ((∀ v ∈ p, P v = false) → (x :: (q ++ c :: p)).filter P =
      ((c :: (p ++ x :: q)).filter P).rotate 1) ∧
    ((∀ v ∈ q, P v = false) → ((x :: (q ++ c :: p)).filter P).rotate 1 =
      (c :: (p ++ x :: q)).filter P) := by
  constructor
  · intro hp
    have hnil : p.filter P = [] := List.filter_eq_nil_iff.mpr fun v hv => by simp [hp v hv]
    simp [hc, hx, hnil, List.rotate_cons_succ]
  · intro hq
    have hnil : q.filter P = [] := List.filter_eq_nil_iff.mpr fun v hv => by simp [hq v hv]
    simp [hc, hx, hnil, List.rotate_cons_succ]

theorem Cycling.isHidden_eq (h : s.Cycling w f c b) (hv : v ∈ b) (ha : s.Anchored v) :
    s.isHidden v = .ok (!s.sees v) :=
  Server.isHidden_eq (h.usable v (List.mem_cons_of_mem _ hv)).live
    (h.manages (List.mem_cons_of_mem _ hv)).managed ha

theorem Cycling.goOn_cycledTo (h : s.Cycling w f c (p ++ x :: q)) (hx : s.sees x = false)
    (ha : ∀ v ∈ p ++ x :: q, s.Anchored v) (hp : r = false → ∀ v ∈ p, s.sees v = true)
    (hq : r = true → ∀ v ∈ q, s.sees v = true) : Gives (s.goOn w f c x) fun s' =>
    CycledTo s w f c (p ++ x :: q) r s' x (q ++ c :: p) := by
  have hmem : x ∈ p ++ x :: q := by simp
  have hcx : c ≠ x := fun e => (List.nodup_cons.mp h.nodup).1 (e ▸ hmem)
  have hPx : s.takesPart f x = true := by rw [h.takesPart hmem, hx]; rfl
  have hPfalse : ∀ v ∈ p ++ x :: q, s.sees v = true → s.takesPart f v = false := by
    intro v hv hsees
    rw [h.takesPart hv, hsees]
    rfl
  refine h.goOn.mono ?_
  rintro s' ⟨hcyc, htiles, hdisp⟩
  obtain ⟨hseesx, hseesc, hother⟩ := sees_assign h.shown h.back hcx hdisp
  have htile : s'.disp.tileView = Function.update s.disp.tileView f (some x) := by
    rw [hdisp]
    rfl
  -- `c` and `x` have changed places; the other views are shown as before
  refine ⟨hcyc, fun v hv t ht => ?_, isRotated_swap, fun t ht => ?_, funext fun v => ?_,
    fun hr => ?_, fun hr => ?_⟩
  · rw [htiles]
    by_cases hvc : v = c
    · subst hvc
      have hnone : s'.disp.viewTile v = none := by
        rw [hdisp]
        exact Display.assign_viewTile_old (fun e => hcx (Option.some.inj e).symm) h.shown
      exact nomatch hnone.symm.trans ht
    · have hvx : v ≠ x := fun e => (List.nodup_cons.mp hcyc.nodup).1 (e ▸ hv)
      rw [(hother v hvc hvx).2] at ht
      refine ha v ?_ t ht
      simp only [List.mem_cons, List.mem_append] at hv ⊢
      tauto
  · rw [htile, Function.update_of_ne ht]
  · by_cases hvc : v = c
    · subst hvc
      rw [h.takesPart_self, Server.takesPart, hseesc]
      rfl
    · by_cases hvx : v = x
      · subst hvx
        rw [hPx, hcyc.takesPart_self]
      · have hshown : s.disp.tileView f ≠ some v := fun e =>
          hvc (Option.some.inj (e.symm.trans h.shown))
        have hshown' : s'.disp.tileView f ≠ some v := fun e =>
          hvx (Option.some.inj (e.symm.trans hcyc.shown))
        rw [Server.takesPart, Server.takesPart,
          (hother v hvc hvx).1, beq_eq_false_iff_ne.mpr hshown,
          beq_eq_false_iff_ne.mpr hshown']
  · exact (filter_swap h.takesPart_self hPx).1 fun v hv =>
      hPfalse v (List.mem_append_left _ hv) (hp hr v hv)
  · exact (filter_swap h.takesPart_self hPx).2 fun v hv =>
      hPfalse v (List.mem_append_right _ (List.mem_cons_of_mem _ hv)) (hq hr v hv)

/-- **`next` and `prev`** return if no view of the list points at a freed tile. -/
theorem Cycling.cycle_gives (h : s.Cycling w f c b) (ha : ∀ v ∈ b, s.Anchored v) :
    Gives (s.cycle r) fun s' => ∃ c' b', CycledTo s w f c b r s' c' b' := by
  have hscan : ∀ v, v ∈ (if r then b.reverse else b) ↔ v ∈ b := by
    intro v
    cases r <;> simp
  have hseen : ∀ v ∈ b, s.isHidden v = .ok false → s.sees v = true := by
    intro v hv hhid
    rw [h.isHidden_eq hv (ha v hv)] at hhid
    simpa using Except.ok.inj hhid
  rw [h.cycle_eq]
  rcases findM?_cases s.isHidden (if r then b.reverse else b) with hall | ⟨l₁, x, l₂, hl, hpre, hx⟩
  · -- every other view is visible, and the list has turned back to where it was
    have hfilter : (c :: b).filter (s.takesPart f) = [c] := by
      rw [h.filter, List.filter_eq_nil_iff.mpr fun v hv => ?_]
      simp [hseen v hv (hall v ((hscan v).mpr hv))]
    have hnone := @findM?_append _ _ _ [] hall
    rw [List.append_nil] at hnone
    rw [hnone]
    refine Gives.ok ⟨c, b, h, ha, List.IsRotated.refl _, fun _ _ => rfl, rfl, fun _ => ?_,
      fun _ => ?_⟩
    · rw [hfilter]
      exact (List.rotate_singleton c 1).symm
    · rw [hfilter]
      exact List.rotate_singleton c 1
  · have hmem : ∀ v ∈ l₁ ++ x :: l₂, v ∈ b := fun v hv => (hscan v).mp (hl ▸ hv)
    have hxb : x ∈ b := hmem x (by simp)
    rw [h.isHidden_eq hxb (ha x hxb)] at hx
    have hhidden : s.sees x = false := by simpa using hx
    have hpre' : ∀ v ∈ l₁, s.sees v = true :=
      fun v hv => hseen v (hmem v (List.mem_append_left _ hv)) (hpre v hv)
    have hfound : (l₁ ++ x :: l₂).findM? s.isHidden = .ok (some x) := by
      rw [findM?_append hpre, List.findM?, h.isHidden_eq hxb (ha x hxb), hhidden]
      rfl
    rw [hl, hfound, ok_bind, ifSome_some]
    -- with `r` the list is scanned from its end
    cases r with
    | false =>
      obtain rfl : b = l₁ ++ x :: l₂ := hl
      exact (h.goOn_cycledTo (r := false) hhidden ha (fun _ => hpre')
        fun hr => absurd hr Bool.false_ne_true).mono fun s' h' => ⟨_, _, h'⟩
    | true =>
      obtain rfl : b = l₂.reverse ++ x :: l₁.reverse := by
        rw [← List.reverse_reverse b, show b.reverse = l₁ ++ x :: l₂ from hl]
        simp
      refine (h.goOn_cycledTo (r := true) hhidden ha (fun hr => absurd hr.symm Bool.false_ne_true)
        fun _ v hv => ?_).mono fun s' h' => ⟨_, _, h'⟩
      exact hpre' v (List.mem_reverse.mp hv)

/-! ### Several commands -/

theorem cycles_cons {rs : List Bool} : s.cycles (r :: rs) = (do
    let s' ← s.cycle r
    s'.cycles rs) := List.foldlM_cons

theorem Cycling.cycles_gives (h : s.Cycling w f c b) (ha : ∀ v ∈ b, s.Anchored v) (rs : List Bool) :
    Gives (s.cycles rs) fun s' => ∃ c' b', s'.Cycling w f c' b' ∧ (c' :: b').IsRotated (c :: b) ∧
      ∀ t, t ≠ f → s'.disp.tileView t = s.disp.tileView t := by
  induction rs generalizing s c b with
  | nil => exact Gives.ok ⟨c, b, h, List.IsRotated.refl _, fun _ _ => rfl⟩
  | cons r rs ih =>
    rw [cycles_cons]
    refine Gives.bind (h.cycle_gives ha) ?_
    rintro s₁ ⟨c₁, b₁, h₁⟩
    refine (ih h₁.cycling h₁.anchored).mono ?_
    rintro s₂ ⟨c₂, b₂, h₂, hrot, hframe⟩
    exact ⟨c₂, b₂, h₂, hrot.trans h₁.rotated, fun t ht => (hframe t ht).trans (h₁.frame t ht)⟩

/-- `next` several times is a rotation of the views that take part. -/
theorem Cycling.cycles_next (h : s.Cycling w f c b) (ha : ∀ v ∈ b, s.Anchored v) (k : ℕ) :
    Gives (s.cycles (List.replicate k false)) fun s' => ∃ c' b', s'.Cycling w f c' b' ∧
      s'.takesPart f = s.takesPart f ∧
      (c' :: b').filter (s.takesPart f) = ((c :: b).filter (s.takesPart f)).rotate k := by
  induction k generalizing s c b with
  | zero => exact Gives.ok ⟨c, b, h, rfl, (List.rotate_zero _).symm⟩
  | succ k ih =>
    rw [List.replicate_succ, cycles_cons]
    refine Gives.bind (h.cycle_gives ha) ?_
    rintro s₁ ⟨c₁, b₁, h₁⟩
    refine (ih h₁.cycling h₁.anchored).mono ?_
    rintro s₂ ⟨c₂, b₂, h₂, htakes, hrot⟩
    refine ⟨c₂, b₂, h₂, htakes.trans h₁.takesPart, ?_⟩
    rw [h₁.takesPart] at hrot
    rw [hrot, h₁.next rfl, List.rotate_rotate, Nat.add_comm]

/-- What the tile shows after `next` several times. -/
theorem Cycling.cycles_shown (h : s.Cycling w f c b) (ha : ∀ v ∈ b, s.Anchored v) {k : ℕ}
    (hv : (((c :: b).filter (s.takesPart f)).rotate k).head? = some v) :
    ∃ s', s.cycles (List.replicate k false) = .ok s' ∧ s'.disp.tileView f = some v := by
  obtain ⟨s', hs', c', b', h', htakes, hrot⟩ := h.cycles_next ha k
  refine ⟨s', hs', ?_⟩
  rw [← hrot, List.filter_cons_of_pos (htakes ▸ h'.takesPart_self)] at hv
  rw [h'.shown, ← hv]
  rfl

/-- A command and its opposite. -/
theorem Cycling.cycles_back (h : s.Cycling w f c b) (ha : ∀ v ∈ b, s.Anchored v) :
    ∃ s', s.cycles [r, !r] = .ok s' ∧ s'.disp.tileView f = some c := by
  obtain ⟨s₁, hs₁, c₁, b₁, h₁⟩ := h.cycle_gives ha (r := r)
  obtain ⟨s₂, hs₂, c₂, b₂, h₂⟩ := h₁.cycling.cycle_gives h₁.anchored (r := !r)
  refine ⟨s₂, ?_, ?_⟩
  · rw [cycles_cons, hs₁, ok_bind, cycles_cons, hs₂, ok_bind]
    rfl
  · have hsame : (c₂ :: b₂).filter (s.takesPart f) = (c :: b).filter (s.takesPart f) := by
      have hnext := h₂.next
      have hprev := h₂.prev
      rw [h₁.takesPart] at hnext hprev
      cases r with
      | false =>
        -- `prev` after `next`
        have hrot := (hprev rfl).trans (h₁.next rfl)
        exact List.rotate_injective 1 hrot
      | true => exact (hnext rfl).trans (h₁.prev rfl)
    have hself : s.takesPart f c₂ = true := by
      rw [← h₁.takesPart, ← h₂.takesPart]
      exact h₂.cycling.takesPart_self
    rw [List.filter_cons_of_pos hself, List.filter_cons_of_pos h.takesPart_self] at hsame
    rw [h₂.cycling.shown, (List.cons.inj hsame).1]

/-- A view that points at a freed tile is reached sooner or later. -/
theorem Cycling.exists_undefined {n : ℕ} (h : s.Cycling w f c (p ++ v :: q))
    (hp : ∀ u ∈ p, s.Anchored u) (hv : ¬ s.Anchored v) (hn : p.length < n) :
    ∃ k, s.cycles (List.replicate k false) = .error .undefined := by
  induction n generalizing s c p q with
  | zero => exact absurd hn (Nat.not_lt_zero _)
  | succ n ih =>
    have hmem : ∀ u ∈ p, u ∈ p ++ v :: q := fun u hu => List.mem_append_left _ hu
    have hvmem : v ∈ p ++ v :: q := by simp
    rcases findM?_cases s.isHidden p with hall | ⟨l₁, x, l₂, rfl, hpre, hx⟩
    · -- the search gets to the view
      have hlast := isHidden_undefined (h.usable v (List.mem_cons_of_mem _ hvmem)).live
        (h.manages (List.mem_cons_of_mem _ hvmem)).managed hv
      have hsearch : (p ++ v :: q).findM? s.isHidden = .error .undefined := by
        rw [findM?_append hall, List.findM?, hlast]
        rfl
      refine ⟨1, ?_⟩
      show s.cycles [false] = _
      rw [cycles_cons, h.cycle_eq, if_neg (by simp), hsearch]
      rfl
    · -- the tile goes on to a view before it, and there are fewer left
      have hxp : x ∈ l₁ ++ x :: l₂ := by simp
      have hxeq := h.isHidden_eq (hmem x hxp) (hp x hxp)
      rw [hxeq] at hx
      have hhidden : s.sees x = false := by simpa using hx
      have hfound : (l₁ ++ x :: l₂ ++ v :: q).findM? s.isHidden = .ok (some x) := by
        rw [List.append_assoc, findM?_append hpre, List.cons_append, List.findM?, hxeq, hhidden]
        rfl
      have hsplit : l₁ ++ x :: l₂ ++ v :: q = l₁ ++ x :: (l₂ ++ v :: q) := by simp
      have hnodup := h.nodup
      rw [hsplit] at h
      obtain ⟨s₁, hs₁, h₁, htiles, hdisp⟩ := h.goOn
      have hcx : c ≠ x := fun e => (List.nodup_cons.mp hnodup).1 (e ▸ hmem x hxp)
      have hother := (sees_assign h.shown h.back hcx hdisp).2.2
      have hcycle : s.cycle false = .ok s₁ := by
        rw [h.cycle_eq, if_neg (by simp), ← hsplit, hfound, ok_bind, ifSome_some, hs₁]
      -- neither `c` nor `x` comes before the view, nor is one of them the view
      have hnot : ∀ u, u ∈ l₂ ∨ u = v → u ≠ c ∧ u ≠ x := by
        intro u hu
        have hin : u ∈ l₂ ++ v :: q ++ c :: l₁ := by
          rcases hu with hu | rfl <;> simp [*]
        have hux : u ≠ x := fun e => (List.nodup_cons.mp h₁.nodup).1 (e ▸ hin)
        refine ⟨?_, hux⟩
        rintro rfl
        refine (List.nodup_cons.mp hnodup).1 ?_
        rcases hu with hu | rfl <;> simp [*]
      have hsame : ∀ u, u ∈ l₂ ∨ u = v → (s₁.Anchored u ↔ s.Anchored u) := by
        intro u hu
        obtain ⟨huc, hux⟩ := hnot u hu
        rw [Anchored, Anchored, htiles, (hother u huc hux).2]
      have h₁' : s₁.Cycling w f x (l₂ ++ v :: (q ++ c :: l₁)) := by
        simpa using h₁
      obtain ⟨k, hk⟩ := ih h₁' (fun u hu => (hsame u (.inl hu)).mpr (hp u (by simp [hu])))
        (fun ha => hv ((hsame v (.inr rfl)).mp ha)) (by simp at hn; omega)
      refine ⟨k + 1, ?_⟩
      rw [List.replicate_succ, cycles_cons, hcycle, ok_bind, hk]

/-- What cycling through the views of the current workspace does: `next` again and
again shows each hidden view once and then `c` again, each command is undone by its
opposite, and neither changes another tile or the order of the list. -/
structure CyclesThrough (s : Server) (w : WsPtr) (f : TilePtr) (c : ViewPtr) (b : List ViewPtr) :
    Prop where
  next : ∃ hs : List ViewPtr, hs.Nodup ∧ (∀ v, v ∈ hs ↔ v ∈ b ∧ s.viewIsVisible v = .ok false) ∧
    (∀ i (hi : i < hs.length), ∃ s', s.cycles (List.replicate (i + 1) false) = .ok s' ∧
      s'.disp.tileView f = some hs[i]) ∧
    ∃ s', s.cycles (List.replicate (hs.length + 1) false) = .ok s' ∧ s'.disp.tileView f = some c
  back : ∀ r, ∃ s', s.cycles [r, !r] = .ok s' ∧ s'.disp.tileView f = some c
  frame : ∀ rs, ∃ s', s.cycles rs = .ok s' ∧
    (∀ t, t ≠ f → s'.disp.tileView t = s.disp.tileView t) ∧
    ∃ l, l.IsRotated (c :: b).reverse ∧ s'.views.ListIs true w l

end Server

open Server

variable {s : Server} {w : WsPtr} {f : TilePtr} {c : ViewPtr} {b : List ViewPtr}

/-- **Cycling through views** goes round, exactly if no view of the list points at a tile
that has been freed. -/
theorem cycleViews_iff (h : s.Cycling w f c b) :
    s.CyclesThrough w f c b ↔ ∀ v ∈ b, s.Anchored v := by
  constructor
  · intro hcyc v hv
    by_contra hanchored
    -- the first such view stops the commands
    obtain ⟨p, u, q, rfl, hp, hu⟩ : ∃ p u q, b = p ++ u :: q ∧ (∀ x ∈ p, s.Anchored x) ∧
        ¬ s.Anchored u := by
      rcases findM?_cases (fun x => .ok (!(s.disp.viewTile x).all s.tiles.tileLive)) b with
        hall | ⟨p, u, q, hb, hp, hu⟩
      · exact absurd (anchored_iff.mpr (by simpa using hall v hv)) hanchored
      · refine ⟨p, u, q, hb, fun x hx => anchored_iff.mpr (by simpa using hp x hx),
          fun hanc => hu ?_⟩
        rw [anchored_iff.mp hanc]
        rfl
    obtain ⟨k, hk⟩ := h.exists_undefined hp hu (Nat.lt_succ_self _)
    obtain ⟨s', hs', -⟩ := hcyc.frame (List.replicate k false)
    exact nomatch hs'.symm.trans hk
  · intro ha
    refine ⟨?_, fun r => h.cycles_back ha, fun rs => ?_⟩
    · have hlen : ((c :: b).filter (s.takesPart f)).length =
          (b.filter fun v => !s.sees v).length + 1 := by rw [h.filter, List.length_cons]
      refine ⟨b.filter fun v => !s.sees v, ?_, fun v => ?_, fun i hi => ?_, ?_⟩
      · exact (List.nodup_cons.mp h.nodup).2.filter _
      · rw [List.mem_filter]
        refine and_congr_right fun hv => ?_
        have hhid := h.isHidden_eq hv (ha v hv)
        rw [Server.isHidden] at hhid
        obtain ⟨vis, hvis, hnot⟩ := bind_eq_ok.mp hhid
        rw [hvis, ← Except.ok.inj hnot]
        simp
      · refine h.cycles_shown ha ?_
        rw [List.head?_rotate (by omega), h.filter, List.getElem?_cons_succ,
          List.getElem?_eq_getElem hi]
      · refine h.cycles_shown ha ?_
        rw [← hlen, List.rotate_length, h.filter]
        rfl
    · obtain ⟨s', hs', c', b', h', hrot, hframe⟩ := h.cycles_gives ha rs
      exact ⟨s', hs', hframe, _, hrot.reverse, h'.list⟩

/-- Three views have been mapped, two of which are hidden. -/
theorem cycleViews_iff_two : ∃ s : Server, s.Cycling 0 0 2 [1, 0] ∧
    s.CyclesThrough 0 0 2 [1, 0] := by
  obtain ⟨s, hs, htest⟩ := exists_of_returns (p := fun s : Server => s.isCycling 0 0 2 [1, 0] &&
      decide (s.disp.viewTile 0 = none) && decide (s.disp.viewTile 1 = none))
    (m := run step Server.init
      [.outputNew "HDMI-A-1" ⟨0, 0, 8, 6, by decide, by decide⟩ none,
        .viewNew ⟨false, false, false, 0⟩, .viewNew ⟨false, false, false, 0⟩,
        .viewNew ⟨false, false, false, 0⟩, .viewMap 0 0 0, .viewMap 1 0 0, .viewMap 2 0 0])
    (by decide +kernel)
  simp only [Bool.and_eq_true, decide_eq_true_eq] at htest
  have h := cycling_of_isCycling (Steps.of_run hs fun _ _ _ => trivial) htest.1.1
  refine ⟨s, h, (cycleViews_iff h).mpr fun v hv t ht => ?_⟩
  simp only [List.mem_cons, List.not_mem_nil, or_false] at hv
  obtain rfl | rfl := hv
  · exact absurd (htest.2.symm.trans ht) (by simp)
  · exact absurd (htest.1.2.symm.trans ht) (by simp)

/-- The hidden view points at a tile that has been absorbed. -/
theorem cycleViews_undefined : ¬ ∀ (s : Server) w f c b, Reachable s → s.Cycling w f c b →
    s.CyclesThrough w f c b := by
  intro hall
  obtain ⟨s, hs, htest⟩ := exists_of_returns (p := fun s : Server => s.isCycling 0 2 0 [2, 1] &&
      decide (s.disp.viewTile 2 = none) && decide (s.disp.viewTile 1 = some 1) &&
      !s.tiles.tileLive 1)
    (m := run step Server.init absorbedFullscreen) (by decide +kernel)
  simp only [Bool.and_eq_true, decide_eq_true_eq, Bool.not_eq_true'] at htest
  obtain ⟨⟨⟨hcyc, h2⟩, h1⟩, hdead⟩ := htest
  have hr : Reachable s := Steps.of_run hs fun _ _ _ => trivial
  have h := cycling_of_isCycling hr hcyc
  have hanchored : ∀ u ∈ [2], s.Anchored u := by
    intro u hu t ht
    obtain rfl := List.mem_singleton.mp hu
    exact nomatch h2.symm.trans ht
  obtain ⟨k, hk⟩ := h.exists_undefined (p := [2]) (v := 1) (q := []) hanchored
    (fun ha => by simp [ha 1 h1] at hdead) (Nat.lt_succ_self _)
  obtain ⟨s', hs', -⟩ := (hall s 0 2 0 [2, 1] hr h).frame (List.replicate k false)
  exact nomatch hs'.symm.trans hk

end Cagebreak
