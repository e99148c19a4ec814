/-
Views that leave an output which goes away.

`output_clear` empties the tiles of the output and moves the views of its lists to
the current workspace of another output.  They are pointed at the focused tile
there, whether or not another tile still shows them.  Nothing goes wrong if the
lists of the output are `Detached`: they have not run together with those of another
output, and what is in the list of a workspace is shown by its own tiles only.

* `rehomeViews_sound` — moving the views of one list;
* `outputClear_sound`, `outputDestroy_sound` — the output, workspace by workspace.
-/
import Cagebreak.ShownOutputs
import Cagebreak.TilePointers

namespace Cagebreak

open Exec

namespace Server

open Views

variable {s s' s'' : Server} {t f : TilePtr} {u v : ViewPtr} {w w' : WsPtr} {o p : OutPtr}
  {view : Option ViewPtr} {fit lit : ViewPtr → Prop} {managed : Bool} {W : WsPtr → Prop}
  {V V' : Views} {a n : Node}

/-! ### Lists that are left alone -/

/-- The node is in no list of the workspaces in `W`. -/
def Outside (W : WsPtr → Prop) (V : Views) (n : Node) : Prop :=
  ∀ m w, W w → ¬ V.links.Connected (.head m w) n

/-- The lists of the workspaces in `W` have the nodes they have had, and begin as before. -/
structure Unmoved (W : WsPtr → Prop) (V V' : Views) : Prop where
  connected : ∀ m w n, W w → (V'.links.Connected (.head m w) n ↔ V.links.Connected (.head m w) n)
  first : ∀ m w, W w → V'.links.next (.head m w) = V.links.next (.head m w)

theorem Unmoved.refl : Unmoved W V V := ⟨fun _ _ _ _ => .rfl, fun _ _ _ => rfl⟩

theorem Unmoved.trans {V'' : Views} (h : Unmoved W V V') (h' : Unmoved W V' V'') :
    Unmoved W V V'' :=
  ⟨fun m w n hw => (h'.connected m w n hw).trans (h.connected m w n hw),
    fun m w hw => (h'.first m w hw).trans (h.first m w hw)⟩

theorem Outside.unmoved (h : Outside W V n) (hV : Unmoved W V V') : Outside W V' n :=
  fun m w hw hn => h m w hw ((hV.connected m w n hw).mp hn)

/-- Pointers have changed outside of the lists only. -/
theorem Unmoved.of_next (h : V.links.Mutual) (h' : V'.links.Mutual)
    (hconn : ∀ m w n, W w → V'.links.Connected (.head m w) n → V.links.Connected (.head m w) n)
    (hnext : ∀ m w n, W w → V.links.Connected (.head m w) n →
      V'.links.next n = V.links.next n) : Unmoved W V V' :=
  ⟨fun m w n hw => ⟨hconn m w n hw, .of_next h h' fun b hb => hnext m w b hw hb⟩,
    fun m w hw => hnext m w _ hw Relation.ReflTransGen.refl⟩

theorem wlListRemove_unmoved (h : V.links.Mutual) (hn : Outside W V n) :
    Ensures (V.wlListRemove n) fun V' =>
      V'.links.Mutual ∧ V'.links.Unlinked n ∧ Unmoved W V V' := by
  refine wlListRemove_spec.mono ?_
  rintro V' ⟨a, c, ha, hc, rfl⟩
  have h' := h.unlink ha hc
  refine ⟨h', DLinks.unlinked_unlink, .of_next h h' (fun m w x hw hx => ?_) fun m w x hw hx => ?_⟩
  · have hclosed := DLinks.ClosedOn.unlink
      (DLinks.closedOn_connected (L := V.links) (a := .head m w)) h ha hc
    refine (hclosed.mem_of_connected ⟨Relation.ReflTransGen.refl, fun e => hn m w hw ?_⟩ hx).1
    rw [← Set.mem_singleton_iff.mp e]
    exact Relation.ReflTransGen.refl
  · exact DLinks.unlink_next_of_mem (S := {b | V.links.Connected (.head m w) b})
      DLinks.closedOn_connected h (hn m w hw) ha hx

theorem wlListInsert_unmoved (h : V.links.Mutual) (hun : V.links.Unlinked n)
    (ha : Outside W V a) (hn : Outside W V n) :
    Ensures (V.wlListInsert a n) (Unmoved W V) := by
  refine wlListInsert_spec.mono ?_
  rintro V' ⟨c, hc, rfl⟩
  refine .of_next h (h.insert hun hc) (fun m w x hw hx => ?_) fun m w x hw hx => ?_
  · exact (DLinks.ClosedOn.insert DLinks.closedOn_connected h (ha m w hw) (hn m w hw)
      hc).mem_of_connected Relation.ReflTransGen.refl hx
  · exact DLinks.insert_next_of_mem (S := {b | V.links.Connected (.head m w) b}) (ha m w hw)
      (hn m w hw) hx

theorem linkView_unmoved (h : s.views.links.Mutual) (hun : s.views.links.Unlinked (.view v))
    (hhead : Outside W s.views (.head managed w)) (hv : Outside W s.views (.view v)) :
    Ensures (s.linkView managed w v) fun s' => Unmoved W s.views s'.views :=
  Ensures.bind (wlListInsert_unmoved h hun hhead hv) fun _ hV => Ensures.ok hV

/-- `seat_set_focus` moves the head of the current list behind the view. -/
theorem seatSetFocus_unmoved (h : s.views.links.Mutual)
    (hhead : ∀ w, s.outs.curWs = .ok w → Outside W s.views (.head true w))
    (hview : ∀ v, view = some v → Outside W s.views (.view v)) :
    Ensures (s.seatSetFocus view) fun s' => Unmoved W s.views s'.views := by
  cases view with
  | none =>
    refine seatSetFocus_none_spec.mono ?_
    rintro s' ⟨f, sc, c, e, -, rfl, -⟩
    exact .refl
  | some v =>
    by_cases hm : s.views.managed v = true
    · refine (seatSetFocus_managed_spec hm).mono ?_
      rintro s' ⟨w, f, V₁, V₂, sc, c, e, hw, -, hV₁, hV₂, rfl, -⟩
      obtain ⟨hmutual, hun, h₁⟩ := wlListRemove_unmoved h (hhead w hw) V₁ hV₁
      exact h₁.trans (wlListInsert_unmoved hmutual hun ((hview v rfl).unmoved h₁)
        ((hhead w hw).unmoved h₁) V₂ hV₂)
    · refine (seatSetFocus_unmanaged_spec (by simpa using hm)).mono ?_
      rintro s' ⟨c, e, rfl, -⟩
      exact .refl

/-- Only the focused tile gets another view, and only to that tile are views pointed. -/
theorem seatSetFocus_elsewhere : Ensures (s.seatSetFocus view) fun s' =>
    ∀ t, s.curTile ≠ .ok t → s'.disp.tileView t = s.disp.tileView t ∧
      ∀ u, s'.disp.viewTile u = some t → s.disp.viewTile u = some t := by
  have hassign : ∀ f t, s.curTile = .ok f → s.curTile ≠ .ok t →
      (s.disp.assign f view).tileView t = s.disp.tileView t ∧
      ∀ u, (s.disp.assign f view).viewTile u = some t → s.disp.viewTile u = some t := by
    intro f t hf ht
    have htf : t ≠ f := fun e => ht (e ▸ hf)
    refine ⟨?_, fun u hu => (assign_pointer hu).resolve_right fun h => htf h.2⟩
    rw [Display.assign_tileView, Function.update_of_ne htf]
  cases view with
  | none =>
    refine seatSetFocus_none_assigned.mono ?_
    rintro s' ⟨f, s₁, c, e, hf, ha, rfl⟩ t ht
    rw [ha.eq]
    exact hassign f t hf ht
  | some v =>
    by_cases hm : s.views.managed v = true
    · refine (seatSetFocus_managed_assigned hm).mono ?_
      rintro s' ⟨w, f, s₁, V₁, V₂, c, e, hw, hf, ha, -, -, rfl⟩ t ht
      rw [ha.eq]
      exact hassign f t (by rw [curTile, hw, ok_bind, hf]) ht
    · refine (seatSetFocus_unmanaged_spec (by simpa using hm)).mono ?_
      rintro s' ⟨c, e, rfl, -⟩ t ht
      exact ⟨rfl, fun _ => id⟩

/-- The focused tile is one of the current workspace. -/
theorem mem_of_curTile (hwf : WellFormed False s) (ht : s.curTile = .ok t) :
    ∃ w, s.outs.curWs = .ok w ∧ t ∈ s.tiles.tilesOf w := by
  obtain ⟨w, hw, hf⟩ := bind_eq_ok.mp ht
  exact ⟨w, hw, (hwf.tiles.focused_mem (by simp) hf).2⟩

/-! ### Moving the views of one list -/

/-- The lists of the workspaces in `W` hold no head of another list, and what is in
them is shown by tiles of their own workspace only. -/
structure Detached (W : WsPtr → Prop) (s : Server) : Prop where
  heads : ∀ m w m' w', W w → s.views.links.Connected (.head m w) (.head m' w') → W w'
  shown : ∀ m w t v, W w → s.views.links.Connected (.head m w) (.view v) → s.Shows t v →
    s.tiles.tileWorkspace t = w

theorem Detached.outside (h : Detached W s) (hw : ¬ W w) : Outside W s.views (.head managed w) :=
  fun m w' hw' hc => hw (h.heads m w' managed w hw' hc)

/-- The lists lose members, and other tiles show what is in none of them. -/
theorem Detached.narrow (h : Detached W s)
    (hconn : ∀ m w n, W w → s'.views.links.Connected (.head m w) n →
      s.views.links.Connected (.head m w) n)
    (htiles : s'.tiles = s.tiles)
    (hshows : ∀ t v, s'.Shows t v → s.Shows t v ∨ Outside W s'.views (.view v)) :
    Detached W s' := by
  refine ⟨fun m w m' w' hw hc => h.heads m w m' w' hw (hconn m w _ hw hc), ?_⟩
  intro m w t v hw hc hv
  rw [htiles]
  exact (hshows t v hv).elim (h.shown m w t v hw (hconn m w _ hw hc)) fun hout =>
    absurd hc (hout m w hw)

/-- If the view points at a tile of a workspace in `W`, that tile shows it or it is in
one of the lists of `W`. -/
def Tied (W : WsPtr → Prop) (s : Server) (v : ViewPtr) : Prop :=
  s.views.viewLive v = true → ∀ t, s.disp.viewTile v = some t → W (s.tiles.tileWorkspace t) →
    s.Shows t v ∨ ∃ m w, W w ∧ s.views.links.Connected (.head m w) (.view v)

theorem Tied.keep (h : Tied W s v) (htiles : s'.tiles = s.tiles)
    (hlive : s'.views.viewLive v = true → s.views.viewLive v = true)
    (hview : ∀ t, W (s.tiles.tileWorkspace t) → s'.disp.viewTile v = some t →
      s.disp.viewTile v = some t ∧ (s.Shows t v → s'.Shows t v))
    (hconn : ∀ m w, W w → s.views.links.Connected (.head m w) (.view v) →
      s'.views.links.Connected (.head m w) (.view v)) : Tied W s' v := by
  intro hv t ht hw
  rw [htiles] at hw
  obtain ⟨hold, hshows⟩ := hview t hw ht
  refine (h (hlive hv) t hold hw).imp hshows ?_
  rintro ⟨m, w, hw', hc⟩
  exact ⟨m, w, hw', hconn m w hw' hc⟩

/-- The focused tile is of a workspace outside of `W`. -/
theorem seatSetFocus_tied (hwf : WellFormed False s) (hcur : ∀ w, s.outs.curWs = .ok w → ¬ W w) :
    Ensures (s.seatSetFocus view) fun s' =>
      Unmoved W s.views s'.views → ∀ v, Tied W s v → Tied W s' v := by
  refine (seatSetFocus_sameLayout.and seatSetFocus_elsewhere).mono ?_
  rintro s' ⟨hsame, helse⟩ hunmoved v hv
  refine hv.keep hsame.tiles (fun hlive => ?_) (fun t hw ht => ?_)
    fun m w hw => (hunmoved.connected m w _ hw).mpr
  · rwa [hsame.viewLive] at hlive
  · have hne : s.curTile ≠ .ok t := by
      intro ht'
      obtain ⟨w, hw', -, htw⟩ := mem_of_curTile hwf ht'
      exact hcur w hw' (htw ▸ hw)
    obtain ⟨htile, hview⟩ := helse t hne
    refine ⟨hview v ht, fun hshows => ⟨?_, htile.trans hshows.2⟩⟩
    rw [hsame.tiles]
    exact hshows.1

/-- What clearing a workspace in `W` keeps.  Views come into tiles of other workspaces
only, and no view but those in `E` is left behind. -/
structure Clearing (fit lit : ViewPtr → Prop) (W : WsPtr → Prop) (E : Set ViewPtr)
    (s s' : Server) : Prop where
  sound : s'.Sound fit lit
  detached : Detached W s'
  keeps : KeepsLayout s s'
  gains : ∀ t v, s'.Shows t v → s.Shows t v ∨ ¬ W (s.tiles.tileWorkspace t)
  narrow : ∀ m w n, W w → s'.views.links.Connected (.head m w) n →
    s.views.links.Connected (.head m w) n
  tied : ∀ v, v ∉ E → Tied W s v → Tied W s' v

theorem Clearing.refl (h : s.Sound fit lit) (hd : Detached W s) : Clearing fit lit W E s s :=
  ⟨h, hd, .refl, fun _ _ => .inl, fun _ _ _ _ => id, fun _ _ => id⟩

theorem Clearing.trans (h : Clearing fit lit W E s s') (h' : Clearing fit lit W E s' s'') :
    Clearing fit lit W E s s'' := by
  refine ⟨h'.sound, h'.detached, h.keeps.trans h'.keeps, fun t v hv => ?_,
    fun m w n hw hn => h.narrow m w n hw (h'.narrow m w n hw hn),
    fun v hv hs => h'.tied v hv (h.tied v hv hs)⟩
  rcases h'.gains t v hv with hv | hw
  · exact h.gains t v hv
  · rw [h.keeps.tiles] at hw
    exact .inr hw

/-- More views may be left behind. -/
theorem Clearing.except (h : Clearing fit lit W ∅ s s') : Clearing fit lit W E s s' :=
  ⟨h.sound, h.detached, h.keeps, h.gains, h.narrow, fun v _ => h.tied v (Set.notMem_empty v)⟩

/-- The view has been taken along in the end. -/
theorem Clearing.close (h : Clearing fit lit W {v} s s') (hv : Tied W s' v) :
    Clearing fit lit W ∅ s s' := by
  refine ⟨h.sound, h.detached, h.keeps, h.gains, h.narrow, fun u _ hu => ?_⟩
  by_cases huv : u = v
  · rw [huv]
    exact hv
  · exact h.tied u huv hu

/-- A workspace in `W` that shows nothing goes on showing nothing. -/
theorem Clearing.quiet (h : Clearing fit lit W E s s') (hw : W w)
    (hquiet : ∀ t v, s.Shows t v → s.tiles.tileWorkspace t ≠ w) :
    ∀ t v, s'.Shows t v → s'.tiles.tileWorkspace t ≠ w := by
  intro t v hv
  rw [h.keeps.tiles]
  rcases h.gains t v hv with hold | hnot
  · exact hquiet t v hold
  · exact fun e => hnot (e ▸ hw)

/-- A loop that takes away the front of a list in each iteration ends with an empty list. -/
theorem forEachViewSafe_front {h : Node} {body : Server → ViewPtr → Exec Server}
    {I : Server → Prop}
    (hbody : ∀ s v, I s → s.views.links.next h = some (.view v) → Ensures (body s v) fun s' =>
      I s' ∧ s'.views.links.next h = s.views.links.next (.view v))
    {fuel : ℕ} {cur : Option Node} (hcur : s.views.links.next h = cur) (hs : I s) :
    Ensures (forEachViewSafe h body fuel cur s) fun s' =>
      I s' ∧ s'.views.links.next h = some h := by
  induction fuel generalizing s cur with
  | zero => exact Ensures.error
  | succ fuel ih =>
    cases cur with
    | none => exact Ensures.error
    | some x =>
      refine Ensures.ite (fun hx => Ensures.ok ⟨hs, hcur.trans (congrArg some hx)⟩) fun _ =>
        Ensures.bind_any fun v hv => ?_
      cases x with
      | head managed w => exact nomatch hv
      | view u =>
        obtain rfl : u = v := Except.ok.inj hv
        exact Ensures.bind (hbody s u hs hcur) fun s₁ h₁ => ih h₁.2 h₁.1

/-- The view is mapped, but in no list of `W` and in no tile. -/
structure Adrift (W : WsPtr → Prop) (s : Server) (v : ViewPtr) : Prop where
  mapped : s.views.viewMapped v = true
  hidden : ∀ t, ¬ s.Shows t v
  outside : Outside W s.views (.view v)

/-- What else is in the list stays there. -/
theorem unlinkView_connected (h : s.views.links.Mutual) (hs : s.unlinkView v = .ok s')
    (hn : s.views.links.Connected (.head managed w) n) (hne : n ≠ .view v) :
    s'.views.links.Connected (.head managed w) n := by
  obtain ⟨V, hV, hs⟩ := bind_eq_ok.mp hs
  obtain rfl := Except.ok.inj hs
  obtain ⟨a, c, ha, hc, rfl⟩ := wlListRemove_spec _ hV
  exact hn.unlink h ha hc nofun hne

/-- The first view of a list whose workspace shows nothing is taken out of it. -/
theorem unlinkView_clearing {s₀ : Server} (h : Clearing fit lit W ∅ s₀ s) (hw : W w)
    (hquiet : ∀ t v, s₀.Shows t v → s₀.tiles.tileWorkspace t ≠ w)
    (hfirst : s.views.links.next (.head managed w) = some (.view v)) :
    Ensures (s.unlinkView v) fun s' => Clearing fit lit W {v} s s' ∧ Adrift W s' v ∧
      s'.views.links.Unlinked (.view v) ∧
      s'.views.links.next (.head managed w) = s.views.links.next (.view v) := by
  have hin : s.views.links.Connected (.head managed w) (.view v) := .single (.inl hfirst)
  have hhidden : ∀ t, ¬ s.Shows t v := by
    intro t ht
    exact h.quiet hw hquiet t v ht (h.detached.shown managed w t v hw hin ht)
  refine ((unlinkView_stays h.sound).and fun s' hs' => hs').mono ?_
  rintro s' ⟨⟨h', hdisp, hun, hmapped⟩, hs'⟩
  have hconn := fun m w n => @connected_of_unlink _ _ v w m h.sound.links.paired hs' n
  have hshows : ∀ t u, s'.Shows t u ↔ s.Shows t u := by
    intro t u
    rw [Shows, Shows, h'.tiles, hdisp]
  have hsame := unlinkView_sameLayout _ hs'
  refine ⟨⟨h'.sound, h.detached.narrow (fun m w n _ hn => (hconn m w n hn).1) h'.tiles
    fun t u hu => .inl ((hshows t u).mp hu), hsame.toKeepsLayout,
    fun t u hu => .inl ((hshows t u).mp hu), fun m w n _ hn => (hconn m w n hn).1,
    fun u hu htied => ?_⟩, ⟨?_, fun t ht => hhidden t ((hshows t v).mp ht),
      fun m w _ hn => (hconn m w _ hn).2 rfl⟩, hun, ?_⟩
  · refine htied.keep h'.tiles (fun hlive => ?_) (fun t _ ht => ⟨?_, (hshows t u).mpr⟩)
      fun m w _ hc => ?_
    · rwa [hsame.viewLive] at hlive
    · rwa [hdisp] at ht
    · exact unlinkView_connected h.sound.links.paired hs' hc fun e => hu (Node.view.inj e)
  · rw [h'.viewMapped]
    exact hmapped
  · obtain ⟨V, hV, hs'⟩ := bind_eq_ok.mp hs'
    obtain rfl := Except.ok.inj hs'
    obtain ⟨a, c, ha, hc, rfl⟩ := wlListRemove_spec _ hV
    obtain rfl := Option.some.inj (((h.sound.links.paired _ _).mp hfirst).symm.trans ha)
    rw [hc]
    simp [DLinks.unlink]

/-- A view gets into a list outside of `W`. -/
theorem linkView_clearing (h : s.Sound fit lit) (hd : Detached W s) (hv : Adrift W s v)
    (hun : s.views.links.Unlinked (.view v)) (hw : ¬ W w) :
    Ensures (s.linkView managed w v) fun s' => Clearing fit lit W ∅ s s' ∧ Adrift W s' v ∧
      Unmoved W s.views s'.views := by
  refine ((linkView_sound h hun hv.mapped).and (linkView_keeps.and
    (linkView_unmoved h.links.paired hun (hd.outside hw) hv.outside))).mono ?_
  rintro s' ⟨⟨h', hdisp, htiles, hviews, -⟩, hk, hunmoved⟩
  have hshows : ∀ t u, s'.Shows t u ↔ s.Shows t u := by
    intro t u
    rw [Shows, Shows, htiles, hdisp]
  have hnarrow := fun m w n hw => (hunmoved.connected m w n hw).mp
  refine ⟨⟨h', hd.narrow hnarrow htiles fun t u hu => .inl ((hshows t u).mp hu), hk,
    fun t u hu => .inl ((hshows t u).mp hu), hnarrow, fun u _ htied => ?_⟩,
    ⟨?_, fun t ht => hv.hidden t ((hshows t v).mp ht), hv.outside.unmoved hunmoved⟩, hunmoved⟩
  · refine htied.keep htiles (fun hlive => ?_) (fun t _ ht => ⟨?_, (hshows t u).mpr⟩)
      fun m w hw' => (hunmoved.connected m w _ hw').mpr
    · rwa [hviews] at hlive
    · rwa [hdisp] at ht
  · rw [hviews]
    exact hv.mapped

/-- The view comes into a tile of the current workspace, which is not in `W`. -/
theorem seatSetFocus_clearing (hwf : WellFormed False s) (h : s.Sound fit lit) (hd : Detached W s)
    (hv : Adrift W s v) (hcur : s.outs.curWs = .ok w) (hw : ¬ W w) :
    Ensures (s.seatSetFocus (some v)) fun s' => Clearing fit lit W ∅ s s' ∧
      Unmoved W s.views s'.views := by
  have hnot : ∀ w', s.outs.curWs = .ok w' → ¬ W w' := by
    intro w' hw'
    obtain rfl := Except.ok.inj (hcur.symm.trans hw')
    exact hw
  refine ((seatSetFocus_stays h fun u f hu _ _ => ?_).and (seatSetFocus_keeps.and
    ((seatSetFocus_unmoved (W := W) h.links.paired (fun w' hw' => ?_) fun u hu => ?_).and
      (seatSetFocus_shows.and (seatSetFocus_tied hwf hnot))))).mono ?_
  · obtain rfl := Option.some.inj hu
    exact ⟨hv.mapped, fun t ht => absurd ht (hv.hidden t)⟩
  · exact hd.outside (hnot w' hw')
  · obtain rfl := Option.some.inj hu
    exact hv.outside
  rintro s' ⟨h', hk, hunmoved, hshows, htied⟩
  have hnarrow := fun m w n hw => (hunmoved.connected m w n hw).mp
  refine ⟨⟨h'.sound, hd.narrow hnarrow h'.tiles fun t u hu => ?_, hk, fun t u hu => ?_, hnarrow,
    fun u _ => htied hunmoved u⟩, hunmoved⟩
  · refine (hshows t u hu).imp_right ?_
    rintro ⟨-, e⟩
    obtain rfl := Option.some.inj e
    exact hv.outside.unmoved hunmoved
  · refine (hshows t u hu).imp_right ?_
    rintro ⟨ht, -⟩
    obtain ⟨w', hw', -, htw⟩ := mem_of_curTile hwf ht
    rw [htw]
    exact hnot w' hw'

/-- What happens to the view at the front of a list that is moved to the current
workspace. -/
theorem rehomeView_sound {s₀ : Server} (hwf : WellFormed False s₀)
    (h₁ : Clearing fit lit W ∅ s₀ s) (hw : W w) (hcur : s₀.outs.curWs = .ok w')
    (hother : s₀.outs.outputs ≠ [] → ¬ W w')
    (hquiet : ∀ t v, s₀.Shows t v → s₀.tiles.tileWorkspace t ≠ w)
    (hfirst : s.views.links.next (.head managed w) = some (.view v)) :
    Ensures (do
      let s ← s.unlinkView v
      if s.outs.outputs = [] then
        .ok { s with views.viewLive := Function.update s.views.viewLive v false }
      else do
        let s ← s.linkView managed w' v
        let s := s.setViewWorkspace v w'
        let f ← s.tiles.focusedTile w'
        let s := s.setViewTile v (some f)
        if managed ∧ s.disp.focusedView = none then s.seatSetFocus (some v) else .ok s)
      fun s' => Clearing fit lit W ∅ s₀ s' ∧
        s'.views.links.next (.head managed w) = s.views.links.next (.view v) := by
  refine Ensures.bind (unlinkView_clearing h₁ hw hquiet hfirst) ?_
  rintro s₂ ⟨hc₂, hv₂, hun₂, hfirst₂⟩
  -- without another output the view is destroyed
  refine Ensures.ite (fun hnil => Ensures.ok
    ⟨h₁.trans (Clearing.close (v := v) ?_ ?_), hfirst₂⟩) fun hcons => ?_
  · refine hc₂.trans ⟨?_, ⟨hc₂.detached.heads, hc₂.detached.shown⟩, keepsLayout_of_eq rfl rfl rfl,
      fun _ _ => .inl, fun _ _ _ _ => id, fun u huv htied => ?_⟩
    · exact ⟨hc₂.sound.links.congr rfl fun n hn => .inl (by cases n <;> exact hn),
        hc₂.sound.settled.congr rfl rfl rfl rfl rfl rfl rfl hc₂.sound.settled.focus⟩
    · refine htied.keep rfl (fun hlive => ?_) (fun _ _ ht => ⟨ht, id⟩) fun _ _ _ => id
      replace hlive : Function.update s₂.views.viewLive v false u = true := hlive
      rwa [Function.update_of_ne huv] at hlive
  · intro hlive
    replace hlive : Function.update s₂.views.viewLive v false v = true := hlive
    rw [Function.update_self] at hlive
    exact nomatch hlive
  rw [hc₂.keeps.outs, h₁.keeps.outs] at hcons
  refine Ensures.bind (linkView_clearing hc₂.sound hc₂.detached hv₂ hun₂ (hother hcons)) ?_
  rintro s₃ ⟨hc₃, hv₃, hunmoved₃⟩
  have hfirst₃ := (hunmoved₃.first managed w hw).trans hfirst₂
  have h₃ := hc₂.trans hc₃.except
  refine Ensures.bind_any fun f hf => ?_
  set s₄ : Server := (s₃.setViewWorkspace v w').setViewTile v (some f) with hs₄
  have hwf₃ := ((h₁.keeps.trans hc₂.keeps).trans hc₃.keeps).wellFormed hwf
  have hfw : s₃.tiles.tileWorkspace f = w' := (hwf₃.tiles.focused_mem (by simp) hf).2.2
  have hpoint : ∀ u, u ≠ v → s₄.disp.viewTile u = s₃.disp.viewTile u := fun u huv =>
    Function.update_of_ne huv _ _
  have hself : s₄.disp.viewTile v = some f := Function.update_self _ _ _
  have hc₄ : Clearing fit lit W {v} s₃ s₄ := by
    refine ⟨?_, ⟨hc₃.detached.heads, hc₃.detached.shown⟩, keepsLayout_of_eq rfl rfl rfl,
      fun _ _ => .inl, fun _ _ _ _ => id, fun u huv htied => ?_⟩
    · exact setViewTile_sound (setViewWorkspace_sound hc₃.sound) hv₃.hidden
    · refine htied.keep rfl id (fun t _ ht => ⟨?_, id⟩) fun _ _ _ => id
      rwa [hpoint u huv] at ht
  -- the view points at a tile of the current workspace now
  have hv : Tied W s₄ v := by
    intro _ t ht htw
    rw [hself] at ht
    obtain rfl := Option.some.inj ht
    exact absurd (hfw ▸ htw) (hother hcons)
  have h₄ := h₁.trans ((h₃.trans hc₄).close hv)
  have hv₄ : Adrift W s₄ v := ⟨hv₃.mapped, hv₃.hidden, hv₃.outside⟩
  refine Ensures.ite (fun _ => ?_) fun _ => Ensures.ok ⟨h₄, hfirst₃⟩
  have hcur₄ : s₄.outs.curWs = .ok w' := by
    rw [h₄.keeps.outs]
    exact hcur
  refine (seatSetFocus_clearing (h₄.keeps.wellFormed hwf) h₄.sound h₄.detached hv₄ hcur₄
    (hother hcons)).mono ?_
  rintro s₅ ⟨hc₅, hunmoved₅⟩
  exact ⟨h₄.trans hc₅, (hunmoved₅.first managed w hw).trans hfirst₃⟩

/-- **Moving the views of a list** to the current workspace leaves the list empty.  The
tiles of their own workspace show nothing any more. -/
theorem rehomeViews_sound (hwf : WellFormed False s) (h : s.Sound fit lit) (hd : Detached W s)
    (hw : W w) (hcur : s.outs.curWs = .ok w') (hother : s.outs.outputs ≠ [] → ¬ W w')
    (hquiet : ∀ t v, s.Shows t v → s.tiles.tileWorkspace t ≠ w) :
    Ensures (s.rehomeViews managed w w') fun s' => Clearing fit lit W ∅ s s' ∧
      ∀ v, ¬ s'.views.links.Connected (.head managed w) (.view v) := by
  refine (forEachViewSafe_front (I := Clearing fit lit W ∅ s) (fun s₁ v h₁ hfirst => ?_) rfl
    (.refl h hd)).mono fun s' h' => ⟨h'.1, fun v hv => ?_⟩
  · exact rehomeView_sound hwf h₁ hw hcur hother hquiet hfirst
  · exact nomatch hv.eq_of_next_self h'.1.sound.links.paired h'.2

/-! ### Clearing an output -/

/-- The view of a tile that is emptied points nowhere. -/
theorem Assigned.tied (ha : Assigned s t none s') (h : Tied W s v) : Tied W s' v := by
  rw [ha.eq]
  refine h.keep rfl id (fun t' _ ht' => ?_) fun _ _ _ => id
  refine ⟨(assign_pointer ht').resolve_right nofun, fun hv => ⟨hv.1, ?_⟩⟩
  show (s.disp.assign t none).tileView t' = some v
  rw [Display.assign_tileView]
  by_cases htt : t' = t
  · subst htt
    have hnone : (s.disp.assign t' none).viewTile v = none :=
      Display.assign_viewTile_old nofun hv.2
    exact nomatch hnone.symm.trans ht'
  · rw [Function.update_of_ne htt]
    exact hv.2

/-- Tiles are emptied one after the other. -/
theorem clearTiles_sound (h : s.Sound fit lit) (hd : Detached W s) {l : List TilePtr} :
    Ensures (l.foldlM (fun s t => s.workspaceTileUpdateView t none) s) fun s' =>
      Clearing fit lit W ∅ s s' ∧ ∀ t v, s'.Shows t v → s.Shows t v ∧ t ∉ l := by
  induction l generalizing s with
  | nil => exact Ensures.ok ⟨.refl h hd, fun t v hv => ⟨hv, List.not_mem_nil⟩⟩
  | cons t l ih =>
    rw [List.foldlM_cons]
    refine Ensures.bind ((clearTile_stays h).and workspaceTileUpdateView_keeps) ?_
    rintro s₁ ⟨⟨ha, h₁⟩, hk₁⟩
    have hshows₁ : ∀ t' v, s₁.Shows t' v → t' ≠ t ∧ s.Shows t' v := by
      intro t' v hv
      rcases ha.shows_iff.mp hv with ⟨-, e⟩ | hold
      · cases e
      · exact hold
    have hnarrow : ∀ m w n, W w → s₁.views.links.Connected (.head m w) n →
        s.views.links.Connected (.head m w) n := by
      intro m w n _ hn
      rwa [ha.eq] at hn
    have hc₁ : Clearing fit lit W ∅ s s₁ := by
      refine ⟨h₁.sound, hd.narrow hnarrow h₁.tiles fun t' v hv => .inl (hshows₁ t' v hv).2, hk₁,
        fun t' v hv => .inl (hshows₁ t' v hv).2, hnarrow, fun v _ => ha.tied⟩
    refine (ih h₁.sound hc₁.detached).mono fun s₂ ⟨hc₂, hshows₂⟩ => ⟨hc₁.trans hc₂, ?_⟩
    intro t' v hv
    obtain ⟨hv₁, hl⟩ := hshows₂ t' v hv
    obtain ⟨ht, hold⟩ := hshows₁ t' v hv₁
    exact ⟨hold, fun hmem => (List.mem_cons.mp hmem).elim ht hl⟩

/-- The workspaces of an output. -/
def Owns (s : Server) (o : OutPtr) (w : WsPtr) : Prop := ∃ i, s.outs.wsAt o i = .ok w

theorem WellFormed.wsOutput (hwf : WellFormed False s) {i : ℕ} (hw : s.outs.wsAt o i = .ok w) :
    s.tiles.wsOutput w = o :=
  (hwf.outs.place o i w (getElem?_of_wsAt hw)).2.1

/-- A current workspace of another output is not among those of `o`. -/
theorem WellFormed.not_owns (hwf : WellFormed False s) (hcur : s.outs.currOutput ≠ some o)
    (hw : s.outs.curWs = .ok w) : ¬ s.Owns o w := by
  rintro ⟨i, hi⟩
  obtain ⟨p, hp, hwp⟩ := bind_eq_ok.mp hw
  refine hcur ((nonNull_eq_ok.mp hp).trans ?_)
  rw [← WellFormed.wsOutput hwf hi, WellFormed.wsOutput hwf hwp]

/-- The neighbour of an output in a list of two or more is another one. -/
theorem cycleOutput_ne {l : List OutPtr} {reverse : Bool} (hnd : l.Nodup) (hlen : 1 < l.length)
    (h : cycleOutput l o reverse = some p) : p ≠ o := by
  rw [cycleOutput] at h
  split at h
  · cases h
  · rename_i i hi
    obtain ⟨hilt, hio, -⟩ := List.findIdx?_eq_some_iff_getElem.mp hi
    rintro rfl
    obtain ⟨hjlt, hj⟩ := List.getElem?_eq_some_iff.mp h
    have hio' : l[i] = p := by simpa using hio
    have hij := (List.Nodup.getElem_inj_iff hnd).mp (hj.trans hio'.symm)
    -- the index moves by one around the circle
    cases reverse with
    | false =>
      simp only [Bool.false_eq_true, if_false] at hij
      by_cases hend : i + 1 = l.length
      · rw [hend, Nat.mod_self] at hij
        omega
      · rw [Nat.mod_eq_of_lt (by omega)] at hij
        omega
    | true =>
      simp only [if_true] at hij
      by_cases hstart : i = 0
      · rw [hstart, Nat.mod_eq_of_lt (by omega)] at hij
        omega
      · rw [show i + l.length - 1 = (i - 1) + l.length by omega, Nat.add_mod_right,
          Nat.mod_eq_of_lt (by omega)] at hij
        omega

/-- Going on to another output leaves the lists of the first one alone. -/
theorem keybindingCycleOutputs_detached (hwf : WellFormed False s) (h : s.Sound fit lit)
    (hd : Detached (s.Owns o) s) (hcur : s.outs.currOutput = some o)
    (hlen : 1 < s.outs.outputs.length) {reverse triggerEvent : Bool} :
    Ensures (s.keybindingCycleOutputs reverse triggerEvent) fun s' =>
      s'.Sound fit lit ∧ Detached (s.Owns o) s' ∧ s'.tiles = s.tiles ∧
      (∀ v, Tied (s.Owns o) s v → Tied (s.Owns o) s' v) ∧ s'.outs.currOutput ≠ some o ∧
      s'.outs = { s.outs with currOutput := s'.outs.currOutput } := by
  refine Ensures.bind_any fun old hold => Ensures.nonNull fun p hp => ?_
  obtain rfl := Option.some.inj (hcur.symm.trans (nonNull_eq_ok.mp hold))
  have hne : p ≠ o := cycleOutput_ne hwf.outs.nodup hlen hp
  set s₁ : Server := { s with outs.currOutput := some p } with hs₁
  have hwf₁ : WellFormed False s₁ := LayoutInv.setCurrent hwf (some p) s.outs.outCurr
  have hcur₁ : s₁.outs.currOutput ≠ some o := fun e => hne (Option.some.inj e)
  have howns : ∀ w, s₁.outs.curWs = .ok w → ¬ s.Owns o w := fun w hw =>
    WellFormed.not_owns (s := s₁) hwf₁ hcur₁ hw
  have hunm : Ensures s₁.refocus fun s' => Unmoved (s.Owns o) s.views s'.views ∧
      ∀ v, Tied (s.Owns o) s v → Tied (s.Owns o) s' v := by
    refine Ensures.bind_any fun f hf => ((seatSetFocus_unmoved (s := s₁) h.links.paired
      (fun w hw => hd.outside (howns w hw)) fun v hv m w hw hc => ?_).and
      (seatSetFocus_tied hwf₁ howns)).mono fun s' h' => ⟨h'.1, fun v hv => h'.2 h'.1 v hv⟩
    -- the view that gets the focus is shown on the other output
    obtain ⟨w', hw', hlive, htw⟩ := mem_of_curTile hwf₁ hf
    have := hd.shown m w f v hw hc ⟨hlive, hv⟩
    exact howns w' hw' (htw.symm.trans this ▸ hw)
  refine Ensures.bind ((setOutput_refocused h).and (setOutput_outs.and hunm)) ?_
  rintro s₂ ⟨h₂, ⟨htiles₂, houts₂⟩, hunm₂, htied₂⟩
  have hshows₂ : ∀ t v, s₂.Shows t v → s.Shows t v := by
    intro t v hv
    rwa [Shows, h₂.tileView, htiles₂] at hv
  have hd₂ : Detached (s.Owns o) s₂ :=
    hd.narrow (fun m w n hw => (hunm₂.connected m w n hw).mp) htiles₂ fun t v hv =>
      .inl (hshows₂ t v hv)
  have hall : s₂.Sound fit lit ∧ Detached (s.Owns o) s₂ ∧ s₂.tiles = s.tiles ∧
      (∀ v, Tied (s.Owns o) s v → Tied (s.Owns o) s₂ v) ∧ s₂.outs.currOutput ≠ some o ∧
      s₂.outs = { s.outs with currOutput := s₂.outs.currOutput } := by
    refine ⟨h₂.sound, hd₂, htiles₂, htied₂, ?_, ?_⟩
    · rw [houts₂]
      exact hcur₁
    · rw [houts₂]
  refine Ensures.ok ?_
  cases triggerEvent with
  | false => exact hall
  | true => exact ⟨(emit_stays hall.1).sound, ⟨hd₂.heads, hd₂.shown⟩, hall.2.2⟩

/-- The workspace shows nothing, and there is nothing in its lists. -/
structure Vacated (s : Server) (w : WsPtr) : Prop where
  quiet : ∀ t v, s.Shows t v → s.tiles.tileWorkspace t ≠ w
  empty : ∀ m v, ¬ s.views.links.Connected (.head m w) (.view v)

theorem Clearing.vacated (h : Clearing fit lit W E s s') (hw : W w) (hs : Vacated s w) :
    Vacated s' w :=
  ⟨h.quiet hw hs.quiet, fun m v hv => hs.empty m v (h.narrow m w _ hw hv)⟩

/-- One workspace of the output is cleared. -/
theorem clearWorkspace_sound (hwf : WellFormed False s) (h : s.Sound fit lit) (hd : Detached W s)
    {i : ℕ} (hown : ∀ w, s.outs.wsAt o i = .ok w → W w)
    (hother : ∀ w, s.outs.outputs ≠ [] → s.outs.curWs = .ok w → ¬ W w) :
    Ensures (do
      let w ← s.outs.wsAt o i
      let l ← s.tiles.ringOf w
      let s ← l.foldlM (fun s t => s.workspaceTileUpdateView t none) s
      let wNew ← s.outs.curWs
      let s ← s.rehomeViews true w wNew
      s.rehomeViews false w wNew) fun s' => Clearing fit lit W ∅ s s' ∧
      ∀ w, s.outs.wsAt o i = .ok w → Vacated s' w := by
  refine Ensures.bind_any fun w hw => Ensures.bind_any fun l hl =>
    Ensures.bind (clearTiles_sound h hd) ?_
  rintro s₁ ⟨h₁, hshows₁⟩
  have hW := hown w hw
  -- the loop has seen every tile of the workspace
  have hquiet₁ : ∀ t v, s₁.Shows t v → s₁.tiles.tileWorkspace t ≠ w := by
    intro t v hv htw
    obtain ⟨hold, hl'⟩ := hshows₁ t v hv
    rw [h₁.keeps.tiles] at htw
    have hlive := (hwf.tiles.tile_ws t hold.1).1
    obtain ⟨f, l', -, hl'', -, hmem⟩ := hwf.tiles.ringOf (htw ▸ hlive)
    obtain rfl := Except.ok.inj (hl''.symm.trans hl)
    exact hl' ((hmem t).mpr ⟨hold.1, htw⟩)
  have hother₁ : ∀ w', s₁.outs.outputs ≠ [] → s₁.outs.curWs = .ok w' → ¬ W w' := by
    rw [h₁.keeps.outs]
    exact hother
  refine Ensures.bind_any fun wNew hnew => Ensures.bind (rehomeViews_sound
    (h₁.keeps.wellFormed hwf) h₁.sound h₁.detached hW hnew (hother₁ wNew · hnew) hquiet₁) ?_
  rintro s₂ ⟨h₂, hempty₂⟩
  have hnew₂ : s₂.outs.curWs = .ok wNew := by
    rw [h₂.keeps.outs]
    exact hnew
  have hother₂ : s₂.outs.outputs ≠ [] → ¬ W wNew := by
    rw [h₂.keeps.outs]
    exact (hother₁ wNew · hnew)
  have hquiet₂ := h₂.quiet hW hquiet₁
  refine (rehomeViews_sound ((h₁.keeps.trans h₂.keeps).wellFormed hwf) h₂.sound h₂.detached hW
    hnew₂ hother₂ hquiet₂).mono fun s₃ ⟨h₃, hempty₃⟩ => ⟨(h₁.trans h₂).trans h₃, fun w' hw' => ?_⟩
  obtain rfl := Except.ok.inj (hw.symm.trans hw')
  refine ⟨h₃.quiet hW hquiet₂, fun m v hv => ?_⟩
  cases m with
  | true => exact hempty₂ v (h₃.narrow true w _ hW hv)
  | false => exact hempty₃ v hv

/-- The output is not current any more, and in the list of the outputs no more. -/
structure Leaves (fit lit : ViewPtr → Prop) (o : OutPtr) (s s' : Server) : Prop where
  layout : WellFormed False s'
  sound : s'.Sound fit lit
  detached : Detached (s.Owns o) s'
  tiles : s'.tiles = s.tiles
  tied : ∀ v, Tied (s.Owns o) s v → Tied (s.Owns o) s' v
  outs : s'.outs = { s.outs with
    outputs := s.outs.outputs.erase o
    currOutput := s'.outs.currOutput }
  other : ∀ w, s'.outs.outputs ≠ [] → s'.outs.curWs = .ok w → ¬ s.Owns o w

theorem Leaves.nws (h : Leaves fit lit o s s') : s'.outs.nws = s.outs.nws := by rw [h.outs]

theorem Leaves.wsAt (h : Leaves fit lit o s s') : s'.outs.wsAt o = s.outs.wsAt o := by
  rw [h.outs]
  rfl

/-- If it is the current one, the output is left first. -/
theorem leaveOutput_sound (hwf : WellFormed False s) (h : s.Sound fit lit)
    (ho : o ∈ s.outs.outputs) (hd : Detached (s.Owns o) s) :
    Ensures (if s.outs.currOutput = some o ∧ 1 < s.outs.outputs.length then
      s.keybindingCycleOutputs false true else .ok s) fun s₁ =>
      Leaves fit lit o s { s₁ with outs.outputs := s₁.outs.outputs.erase o } := by
  refine Ensures.mono (P := fun s₁ => WellFormed False s₁ ∧ s₁.Sound fit lit ∧
    Detached (s.Owns o) s₁ ∧ s₁.tiles = s.tiles ∧
    (∀ v, Tied (s.Owns o) s v → Tied (s.Owns o) s₁ v) ∧
    s₁.outs = { s.outs with currOutput := s₁.outs.currOutput } ∧
    (s.outs.outputs.erase o ≠ [] → s₁.outs.currOutput ≠ some o)) ?_ ?_
  · refine Ensures.ite (fun hcur => ?_) fun hcur => Ensures.ok
      ⟨hwf, h, hd, rfl, fun _ => id, rfl, fun hne e => ?_⟩
    · refine ((keybindingCycleOutputs_wellFormed hwf).and
        (keybindingCycleOutputs_detached hwf h hd hcur.1 hcur.2)).mono ?_
      rintro s₁ ⟨hwf₁, h₁, hd₁, htiles₁, htied₁, hne₁, houts₁⟩
      exact ⟨hwf₁, h₁, hd₁, htiles₁, htied₁, houts₁, fun _ => hne₁⟩
    · refine hcur ⟨e, ?_⟩
      have := List.length_erase_of_mem ho
      have := List.length_pos_iff.mpr hne
      omega
  rintro s₁ ⟨hwf₁, h₁, hd₁, htiles₁, htied₁, houts₁, hcur₁⟩
  have hwf₂ := WellFormed.eraseOutput hwf₁ o
  refine ⟨hwf₂, h₁.congr rfl rfl rfl rfl, ⟨hd₁.heads, hd₁.shown⟩, htiles₁, htied₁, ?_,
    fun w hne hw => ?_⟩
  · show { s₁.outs with outputs := s₁.outs.outputs.erase o } = _
    rw [houts₁]
  · change s₁.outs.outputs.erase o ≠ [] at hne
    rw [houts₁] at hne
    have hnot := WellFormed.not_owns hwf₂ (hcur₁ hne) hw
    rw [Owns] at hnot
    change ¬ ∃ i, s₁.outs.wsAt o i = .ok w at hnot
    rwa [houts₁] at hnot

/-- What is left once the output has been cleared: the tiles, but nothing in them. -/
structure Cleared (fit lit : ViewPtr → Prop) (o : OutPtr) (s s' : Server) : Prop where
  sound : s'.Sound fit lit
  tiles : s'.tiles = s.tiles
  nws : s'.outs.nws = s.outs.nws
  wsAt : s'.outs.wsAt o = s.outs.wsAt o
  vacated : ∀ i w, i < s.outs.nws → s.outs.wsAt o i = .ok w → Vacated s' w
  tied : ∀ v, Tied (s.Owns o) s v → Tied (s.Owns o) s' v

/-- **`output_clear`** keeps lists and tiles in order, and leaves the workspaces of
the output without views. -/
theorem outputClear_sound (hwf : WellFormed False s) (h : s.Sound fit lit)
    (ho : o ∈ s.outs.outputs) (hd : Detached (s.Owns o) s) :
    Ensures (s.outputClear o) (Cleared fit lit o s) := by
  refine Ensures.bind (leaveOutput_sound hwf h ho hd) fun s₁ hl => ?_
  set s₂ : Server := { s₁ with outs.outputs := s₁.outs.outputs.erase o } with hs₂
  -- the workspaces before the `i`th are empty
  refine (Ensures.foldlM_range (I := fun n s' => Clearing fit lit (s.Owns o) ∅ s₂ s' ∧
    ∀ i w, i < n → s.outs.wsAt o i = .ok w → Vacated s' w)
    (fun i s₃ _ h₃ => ?_) ⟨.refl hl.sound hl.detached, nofun⟩).mono ?_
  · obtain ⟨hc₃, hempty₃⟩ := h₃
    refine (clearWorkspace_sound (W := s.Owns o) (hc₃.keeps.wellFormed hl.layout) hc₃.sound
      hc₃.detached (fun w hw => ⟨i, ?_⟩) ?_).mono fun s₄ ⟨hc₄, hempty₄⟩ => ⟨hc₃.trans hc₄, ?_⟩
    · rwa [hc₃.keeps.outs, hl.wsAt] at hw
    · rw [hc₃.keeps.outs]
      exact hl.other
    · intro j w hj hw
      by_cases hji : j = i
      · subst hji
        refine hempty₄ w ?_
        rw [hc₃.keeps.outs, hl.wsAt]
        exact hw
      · exact hc₄.vacated ⟨j, hw⟩ (hempty₃ j w (by omega) hw)
  · rintro s' ⟨hc, hempty⟩
    refine ⟨hc.sound, hc.keeps.tiles.trans hl.tiles, ?_, ?_, fun i w hi hw => hempty i w ?_ hw,
      fun v hv => hc.tied v (Set.notMem_empty v) (hl.tied v hv)⟩
    · rw [hc.keeps.outs]
      exact hl.nws
    · rw [hc.keeps.outs]
      exact hl.wsAt
    · show i < s₂.outs.nws
      rw [hl.nws]
      exact hi

/-- **`output_destroy`** keeps lists and tiles in order. -/
theorem outputDestroy_sound (hwf : WellFormed False s) (h : s.Sound fit lit)
    (ho : o ∈ s.outs.outputs) (hd : Detached (s.Owns o) s) :
    Ensures (s.outputDestroy o) fun s' => s'.Sound fit lit := by
  refine Ensures.bind ((outputClear_wellFormed hwf).and (outputClear_sound hwf h ho hd)) ?_
  rintro s₁ ⟨⟨hwf₁, hmem₁⟩, h₁⟩
  refine Ensures.bind (P := fun s₂ => s₂.Sound fit lit ∧ ShowsLess s₁ s₂ ∧
    LayoutInv False none (fun _ => s₁.outs.nws) s₂ ∧ s₂.outs = s₁.outs)
    (Ensures.foldlM (fun s₂ i hi h₂ => ?_) ⟨h₁.sound, .refl, hwf₁, rfl⟩) fun s₂ h₂ => Ensures.ok ?_
  · obtain ⟨hs₂, hless₂, hwf₂, houts₂⟩ := h₂
    refine Ensures.bind_any fun w hw => Ensures.deref fun _ => ?_
    refine ((workspaceFree_sound hwf₂.tiles hs₂ fun t v _ hv => ?_).and
      (workspaceFree_inv hwf₂ ?_)).mono fun s₃ ⟨h₃, hwf₃⟩ =>
        ⟨h₃.1, hless₂.trans h₃.2, hwf₃.1, hwf₃.2.trans houts₂⟩
    · obtain ⟨hold, htw⟩ := hless₂ t v hv
      rw [htw]
      refine (h₁.vacated i w ?_ ?_).quiet t v hold
      · rw [← h₁.nws]
        exact List.mem_range.mp hi
      · rw [← h₁.wsAt, ← houts₂]
        exact hw
    · intro o' ho' j _ hw'
      have h1 := (hwf₂.outs.place o i w (getElem?_of_wsAt hw)).2.1
      have h2 := (hwf₂.outs.place o' j w hw').2.1
      rw [houts₂] at ho'
      exact hmem₁ (h1.symm.trans h2 ▸ ho')
  · split
    · exact h₂.1.congr rfl rfl rfl rfl
    · exact h₂.1.congr rfl rfl rfl rfl

end Server

end Cagebreak
