/-
Views that come and go.

A view is mapped into the focused tile.  When it is unmapped, the view before it in
its list takes its place, and another view may get the keyboard focus, which puts
it into the focused tile.  `Withdraws` says when neither of the two is shown by
another tile at that time.
-/
import Cagebreak.ShownUnplug

namespace Cagebreak

open Exec

namespace Server

open Views

variable {s s' s'' : Server} {t f : TilePtr} {u v : ViewPtr} {w : WsPtr}
  {view : Option ViewPtr} {fit lit : ViewPtr → Prop} {kb : Bool}

/-! ### Mapping -/

/-- A new view is in no list and no tile. -/
theorem viewInit_sound (hvi : s.ViewsInv) (h : s.Sound fit lit) {attrs : ViewAttrs} :
    Ensures (s.viewInit attrs) fun s' => s'.Sound fit lit := by
  refine Ensures.bind_any fun w _ => Ensures.deref fun _ => Ensures.ok ?_
  have hknown : ∀ u : ℕ, u < s.views.viewTop → u ≠ s.views.viewTop := fun u hu => ne_of_lt hu
  have hshown : ∀ t (u : ℕ), s.Shows t u → u ≠ s.views.viewTop := fun t u hu =>
    hknown u (hvi.shown t u hu.2).known
  refine ⟨h.links.congr rfl fun n hn => ?_, fun t u hu => ?_, fun t u hu => ?_, fun u hu => ?_,
    fun t u hu hv => ⟨(h.settled.fits t u hu hv).size, (h.settled.fits t u hu hv).pos⟩,
    fun u hu hm hmap => ?_⟩
  · cases n with
    | head managed w => exact .inl hn
    | view u =>
      by_cases hu : u = s.views.viewTop
      · -- what is linked has been made before
        refine .inr ⟨?_, ?_⟩
        · refine Option.eq_none_iff_forall_ne_some.mpr fun b hb => ?_
          exact hknown u (hvi.lists.next _ b hb).left hu
        · refine Option.eq_none_iff_forall_ne_some.mpr fun b hb => ?_
          exact hknown u (hvi.lists.prev _ b hb).left hu
      · refine .inl ?_
        show Function.update s.views.viewMapped s.views.viewTop false u = true
        rw [Function.update_of_ne hu]
        exact hn
  · refine (Function.update_of_ne (hshown t u hu) _ _).trans ?_
    exact h.settled.tile t u hu
  · refine (Function.update_of_ne (hshown t u hu) _ _).trans ?_
    exact h.settled.mapped t u hu
  · refine (Function.update_of_ne (hknown u (hvi.focused u hu).known) _ _).trans ?_
    exact h.settled.focus u hu
  · have hne : u ≠ s.views.viewTop := by
      rintro rfl
      simp at hmap
    have hm' : s.views.managed u = true := by
      simpa [Views.managed, hne] using hm
    have hmap' : s.views.viewMapped u = true := by simpa [hne] using hmap
    refine Iff.trans ?_ (h.settled.enabled u hu hm' hmap')
    show Function.update s.scene.nodeEnabled s.views.viewTop true u = true ↔ _
    rw [Function.update_of_ne hne]

/-- **`view_map`** puts a view into the focused tile that was in none. -/
theorem viewMap_sound (h : s.Sound fit lit) (hv : s.views.viewMapped v = false) {x y : ℤ} :
    Ensures (s.viewMap v x y) fun s' => s'.Sound fit lit := by
  refine Ensures.deref fun _ => Ensures.bind_any fun w _ => Ensures.deref fun _ => ?_
  have hhidden : ∀ t, ¬ s.Shows t v := fun t ht => by simp [h.settled.mapped t v ht] at hv
  have hun : s.views.links.Unlinked (.view v) := h.links.ready _ (by simp [Ready, hv])
  set s₁ : Server :=
    { s with views.viewMapped := Function.update s.views.viewMapped v true }.setViewWorkspace v w
    with hs₁
  have hkeep : ∀ u, s.views.viewMapped u = true → s₁.views.viewMapped u = true := by
    intro u hu
    show Function.update s.views.viewMapped v true u = true
    by_cases huv : u = v
    · rw [huv, Function.update_self]
    · rw [Function.update_of_ne huv]
      exact hu
  -- the node of the view is enabled although no tile shows it yet
  have h₁ : s₁.Sound fit fun u => lit u ∧ (u = v → s.views.managed v = false) := by
    refine ⟨h.links.congr rfl fun n hn => .inl ?_, h.settled.tile,
      fun t u hu => hkeep u (h.settled.mapped t u hu), fun u hu => hkeep u (h.settled.focus u hu),
      fun t u hu hshown => ⟨(h.settled.fits t u hu hshown).size,
        (h.settled.fits t u hu hshown).pos⟩,
      fun u hu hm hmap => ?_⟩
    · cases n with
      | head managed w => exact hn
      | view u => exact hkeep u hn
    · have huv : u ≠ v := by
        rintro rfl
        exact Bool.noConfusion ((hu.2 rfl).symm.trans hm)
      refine h.settled.enabled u hu.1 hm ?_
      simpa [hs₁, setViewWorkspace, huv] using hmap
  refine Ensures.bind (linkView_sound h₁ hun (by simp [setViewWorkspace])) ?_
  rintro s₂ ⟨h₂, hdisp₂, htiles₂, hviews₂, -⟩
  have hman₂ : s₂.views.managed v = s.views.managed v := by
    rw [hviews₂]
    rfl
  have hmap₂ : s₂.views.viewMapped v = true := by
    rw [hviews₂]
    show Function.update s.views.viewMapped v true v = true
    exact Function.update_self _ _ _
  have hhidden₂ : ∀ t, ¬ s₂.Shows t v := by
    intro t ht
    rw [Shows, htiles₂, hdisp₂] at ht
    exact hhidden t ht
  refine Ensures.bind_any fun cur _ => ?_
  -- an unmanaged surface keeps its own position
  have hplaced : ∀ sc : Scene, sc.viewSize = s₂.scene.viewSize →
      sc.nodeEnabled = s₂.scene.nodeEnabled →
      (∀ u, u ≠ v → sc.viewPos u = s₂.scene.viewPos u) →
      Refocused fit (fun u => lit u ∧ (u = v → s.views.managed v = false)) s₂
        (if s₂.views.managed v then s₂ else { s₂ with scene := sc }) := by
    intro sc hsize henabled hpos
    split
    · exact h₂.refocused
    · refine ⟨⟨⟨h₂.links, h₂.settled.tile, h₂.settled.mapped, h₂.settled.focus,
        fun t u hu hshown => ?_, fun u hu hm hmap => ?_⟩, rfl, rfl,
        fun u hu => ⟨hu.unlinked, hu.hidden⟩⟩, rfl⟩
      · have hfits := h₂.settled.fits t u hu hshown
        refine ⟨(congrFun hsize u).trans hfits.size, ?_⟩
        exact (hpos u fun e => hhidden₂ t (e ▸ hshown)).trans hfits.pos
      · exact (Eq.congr_left (congrFun henabled u)).trans (h₂.settled.enabled u hu hm hmap)
  have hfocus : ∀ s₃, Refocused fit (fun u => lit u ∧ (u = v → s.views.managed v = false)) s₂ s₃ →
      Ensures (s₃.seatSetFocus (some v)) fun s' => s'.Sound fit lit := by
    intro s₃ h₃
    refine Ensures.mono (P := Stays fit lit s₃) (seatSetFocus_sound h₃.sound (fun _ => .inl)
      (fun u hu => ?_) fun u f hu _ _ => ?_) fun _ h₄ => h₄.sound
    · by_cases huv : u = v
      · subst huv
        rw [h₃.managed, hman₂]
        by_cases hm : s.views.managed u = true
        · exact .inr ⟨rfl, hm⟩
        · exact .inl ⟨hu, fun _ => by simpa using hm⟩
      · exact .inl ⟨hu, fun e => absurd e huv⟩
    · obtain rfl := Option.some.inj hu
      rw [h₃.viewMapped]
      refine ⟨hmap₂, fun t ht => absurd ?_ (hhidden₂ t)⟩
      rwa [Shows, h₃.tiles, h₃.tileView] at ht
  exact Ensures.bind (hfocus _ (hplaced _ rfl rfl fun u hu => Function.update_of_ne hu _ _))
    fun s₄ h₄ => Ensures.bind_any fun tileId _ => Ensures.ok (emit_stays h₄).sound

/-! ### Unmapping -/

/-- The view that is found before `v` in its list is another one, and hidden. -/
theorem viewGetPrevView_ne : Ensures (s.viewGetPrevView v) fun found => found ≠ some v := by
  refine Ensures.bind_any fun w _ => Ensures.bind_any fun found hfound =>
    Ensures.ifSome (fun _ => nofun) fun n hn => ?_
  subst hn
  obtain ⟨-, hne, -⟩ := DLinks.findNode_some hfound
  cases n with
  | head managed w' => exact Ensures.bind_any fun u hu => nomatch hu
  | view u =>
    refine Ensures.ok fun e => hne ?_
    rw [Option.some.inj e]

/-- What holds when a view is unmapped, if no view is to be shown twice: the view that
gets the focus again is shown by the focused tile, if at all, and so is the view
that is unmapped, if what comes into the focused tile comes into its tile as well. -/
structure Withdraws (s : Server) (v : ViewPtr) (kb : Bool) : Prop where
  refocused : kb = true → ∀ u t, s.disp.focusedView = some u → u ≠ v → s.Shows t u →
    s.curTile = .ok t
  leaves : ∀ u x t, s.disp.focusedView = some u → u = v ∨ kb = true ∧ u = x →
    s.viewGetPrevView v = .ok (some x) → s.Shows t v → s.curTile = .ok t

/-- What `view_get_tile` finds shows the view. -/
theorem viewGetTile_shows : Ensures (s.viewGetTile v) fun found =>
    s.views.viewLive v = true ∧ ∀ t, found = some t → s.Shows t v := by
  refine Ensures.deref fun hlive => Ensures.ifSome (fun _ => ⟨hlive, nofun⟩) fun t _ =>
    Ensures.deref fun ht => Ensures.ok ⟨hlive, fun t' ht' => ?_⟩
  split at ht'
  · rename_i htv
    obtain rfl := Option.some.inj ht'
    exact ⟨ht, htv⟩
  · cases ht'

/-- Taking a view out of focus and tile. -/
theorem viewWithdraw_sound (hvi : s.ViewsInv) (h : s.Sound fit lit) (hw : s.Withdraws v kb) :
    Ensures (s.viewWithdraw v kb) fun s' => s'.Sound fit lit ∧ (∀ t, ¬ s'.Shows t v) ∧
      s'.disp.focusedView ≠ some v := by
  refine Ensures.bind ((viewGetPrevView_listed h).and
    (viewGetPrevView_ne.and fun prev hprev => hprev))
    ?_
  rintro prev ⟨hlisted, hne, hprev⟩
  have hhidden : ∀ u, prev = some u → s.views.managed u = true ∧ ∀ t, ¬ s.Shows t u :=
    fun u hu => h.settled.hidden (hlisted u hu).2
  refine Ensures.bind (P := fun s₁ => Stays fit lit s s₁ ∧ s₁.disp.focusedView ≠ some v ∧
    ∀ u t t', prev = some u → s₁.Shows t v → ¬ s₁.Shows t' u) ?_ ?_
  · refine Ensures.ite (fun hfocus => ?_) fun hfocus => Ensures.ite (fun hkb => ?_) fun _ =>
      Ensures.ok ⟨h.stays, hfocus, fun u t t' hu _ => (hhidden u hu).2 t'⟩
    · -- the view before it gets the focus
      refine ((seatSetFocus_stays h fun u f hu _ _ => ?_).and
        (seatSetFocus_shows_iff fun u hu => (hhidden u hu).1)).mono ?_
      · exact h.free (hlisted u hu).1 (hlisted u hu).2
      · rintro s₁ ⟨h₁, hfocus₁, f, hf, hshows₁⟩
        refine ⟨h₁, hfocus₁ ▸ hne, fun u t t' hu hv => ?_⟩
        subst hu
        rcases (hshows₁ t v).mp hv with ⟨-, e⟩ | ⟨htf, hold⟩
        · exact absurd e hne
        · have hcur := hw.leaves v u t hfocus (.inl rfl) hprev hold
          exact absurd (Except.ok.inj (hcur.symm.trans hf)) htf
    · -- another view gets the focus again
      refine ((seatSetFocus_stays h fun u f hu hf _ => ?_).and
        (seatSetFocus_shows_iff fun u hu => (hvi.focused u hu).managed)).mono ?_
      · refine ⟨h.settled.focus u hu, fun t ht => ?_⟩
        have hcur := hw.refocused hkb u t hu (fun e => hfocus (e ▸ hu)) ht
        exact Except.ok.inj (hcur.symm.trans hf)
      · rintro s₁ ⟨h₁, hfocus₁, f, hf, hshows₁⟩
        refine ⟨h₁, hfocus₁ ▸ hfocus, fun u t t' hu hv hu' => ?_⟩
        subst hu
        rcases (hshows₁ t' u).mp hu' with ⟨-, e⟩ | ⟨-, hold'⟩
        · rcases (hshows₁ t v).mp hv with ⟨-, e'⟩ | ⟨htf, hold⟩
          · exact hfocus e'
          · have hcur := hw.leaves u u t e (.inr ⟨hkb, rfl⟩) hprev hold
            exact htf (Except.ok.inj (hcur.symm.trans hf))
        · exact (hhidden u rfl).2 t' hold'
  rintro s₁ ⟨h₁, hfocus₁, hother₁⟩
  refine Ensures.bind (viewGetTile_shows.and fun tile htile => htile) ?_
  rintro tile ⟨⟨hlive, htv⟩, htile⟩
  refine Ensures.ifSome (fun hnone => ⟨h₁.sound, fun t ht => ?_, hfocus₁⟩) fun t ht => ?_
  · rw [h₁.sound.settled.viewGetTile hlive ht] at htile
    exact nomatch hnone.symm.trans (Except.ok.inj htile).symm
  · have hshown := htv t ht
    refine (workspaceTileUpdateView_sound h₁.sound (fun _ => .inl) (fun _ => .inl)
      fun _ u hu => ⟨?_, fun t' ht' => absurd ht' (hother₁ u t t' hu hshown)⟩).mono ?_
    · rw [h₁.viewMapped]
      exact h.mapped_of_listed (hlisted u hu).1
    · rintro s₂ ⟨ha, h₂⟩
      refine ⟨h₂, fun t' ht' => ?_, ?_⟩
      · rcases ha.shows_iff.mp ht' with ⟨-, e⟩ | ⟨htt, hold⟩
        · exact hne e
        · exact htt (h₁.sound.settled.onlyAt hshown t' hold)
      · rw [ha.eq]
        exact hfocus₁

/-- A view that is in no list, no tile and out of focus is not mapped any more. -/
theorem Sound.unmap (h : s.Sound fit lit) (hv : s.Loose v) (hfocus : s.disp.focusedView ≠ some v) :
    ({ s with views.viewMapped := Function.update s.views.viewMapped v false } : Server).Sound
      fit lit := by
  refine ⟨h.links.congr rfl fun n hn => ?_, h.settled.tile, fun t u hu => ?_, fun u hu => ?_,
    fun t u hu hshown => ⟨(h.settled.fits t u hu hshown).size, (h.settled.fits t u hu hshown).pos⟩,
    fun u hu hm hmap => ?_⟩
  · cases n with
    | head managed w => exact .inl hn
    | view u =>
      by_cases huv : u = v
      · exact .inr (huv ▸ hv.unlinked)
      · exact .inl ((Function.update_of_ne huv _ _).trans hn)
  · have huv : u ≠ v := fun e => hv.hidden t (e ▸ hu)
    exact (Function.update_of_ne huv _ _).trans (h.settled.mapped t u hu)
  · have huv : u ≠ v := fun e => hfocus (e ▸ hu)
    exact (Function.update_of_ne huv _ _).trans (h.settled.focus u hu)
  · have huv : u ≠ v := by
      rintro rfl
      simp at hmap
    exact h.settled.enabled u hu hm (by simpa [huv] using hmap)

/-- **`view_unmap`** keeps lists and tiles in order. -/
theorem viewUnmap_sound (hvi : s.ViewsInv) (h : s.Sound fit lit)
    (hw : s.views.viewMapped v = true → s.Withdraws v kb) :
    Ensures (s.viewUnmap v kb) fun s' => s'.Sound fit lit := by
  refine Ensures.bind_any fun w _ => Ensures.deref fun _ => Ensures.ite (fun hmap => ?_)
    fun _ => Ensures.ok h
  refine Ensures.bind_any fun tileId _ => Ensures.bind (P := fun s₁ => s₁.Sound fit lit ∧
    (∀ t, ¬ s₁.Shows t v) ∧ s₁.disp.focusedView ≠ some v) ?_ ?_
  · refine Ensures.ite (fun _ => viewWithdraw_sound hvi h (hw hmap)) fun hm => ?_
    have hhidden : ∀ t, ¬ s.Shows t v := fun t ht => hm (hvi.shown t v ht.2).managed
    have hfocus : s.disp.focusedView ≠ some v := fun e => hm (hvi.focused v e).managed
    refine Ensures.ite (fun hkb => ?_) fun _ => Ensures.ok ⟨h, hhidden, hfocus⟩
    refine ((seatSetFocus_stays h fun u f hu hf _ => ?_).and
      (seatSetFocus_shows_iff fun u hu => (hvi.focused u hu).managed)).mono ?_
    · refine ⟨h.settled.focus u hu, fun t ht => ?_⟩
      have hcur := (hw hmap).refocused hkb u t hu (fun e => hfocus (e ▸ hu)) ht
      exact Except.ok.inj (hcur.symm.trans hf)
    · rintro s₁ ⟨h₁, hfocus₁, f, hf, hshows₁⟩
      refine ⟨h₁.sound, fun t ht => ?_, hfocus₁ ▸ hfocus⟩
      rcases (hshows₁ t v).mp ht with ⟨-, e⟩ | ⟨-, hold⟩
      · exact hfocus e
      · exact hhidden t hold
  · rintro s₁ ⟨h₁, hhidden₁, hfocus₁⟩
    refine Ensures.bind (unlinkView_stays h₁) ?_
    rintro s₂ ⟨h₂, hdisp₂, hun, -⟩
    have hloose : s₂.Loose v := by
      refine ⟨hun, fun t ht => hhidden₁ t ?_⟩
      rwa [Shows, h₂.tiles, hdisp₂] at ht
    refine Ensures.ok (emit_stays (h₂.sound.unmap hloose ?_)).sound
    rw [hdisp₂]
    exact hfocus₁

/-- **`view_destroy`** unmaps the view first. -/
theorem viewDestroy_sound (hvi : s.ViewsInv) (h : s.Sound fit lit)
    (hw : s.views.viewMapped v = true → s.Withdraws v kb) :
    Ensures (s.viewDestroy v kb) fun s' => s'.Sound fit lit := by
  refine Ensures.deref fun _ => Ensures.bind (P := fun s₁ => s₁.Sound fit lit)
    (Ensures.ite (fun _ => viewUnmap_sound hvi h hw) fun _ => Ensures.ok h) fun s₁ h₁ => ?_
  have h₂ : ({ s₁ with views.viewLive := Function.update s₁.views.viewLive v false } : Server).Sound
      fit lit :=
    ⟨h₁.links.congr rfl fun n hn => .inl (by cases n <;> exact hn),
      h₁.settled.congr rfl rfl rfl rfl rfl rfl rfl h₁.settled.focus⟩
  exact Ensures.bind_any fun f _ => Ensures.bind_any fun _ _ => Ensures.ok h₂

end Server

end Cagebreak
