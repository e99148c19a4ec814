/-
The lists of an output that goes away.

`output_clear` empties the tiles of a workspace and links its views into the current
list of another output, one after the other.  Afterwards no view belongs to the
workspace (`Vacant`), and it can be freed.

* `rehomeViews_filed` — moving the views of one list;
* `outputClear_filed`, `outputDestroy_filed` — the output, workspace by workspace.
-/
import Cagebreak.FiledViews

namespace Cagebreak

open Exec

namespace Server

open Views

variable {s s' : Server} {t f : TilePtr} {u v : ViewPtr} {w w' : WsPtr} {o : OutPtr}
  {managed : Bool} {fit lit : ViewPtr → Prop} {W : WsPtr → Prop}

/-- No view belongs to the workspace. -/
def Vacant (s : Server) (w : WsPtr) : Prop := ∀ managed v, ¬ s.views.Resides managed w v

/-- The lists of different workspaces have not run together. -/
theorem Filed.detached (h : s.Filed none) (hW : ∀ w, W w → s.tiles.wsLive w = true) :
    Detached W s := by
  refine ⟨fun m w m' w' hw hc => ?_, fun m w t v hw hc hv => ?_⟩
  · obtain ⟨L, hL, -⟩ := h.lists
    have hmem := (hL m w (hW w hw)).of_connected List.mem_cons_self hc
    rcases List.mem_cons.mp hmem with e | hmem
    · obtain ⟨rfl, rfl⟩ := Node.head.inj e
      exact hw
    · obtain ⟨v, -, e⟩ := List.mem_map.mp hmem
      exact nomatch e
  · have hres := (h.lists.of_connected (hW w hw) hc).1
    have hshown := (h.shown t v hv).1
    exact hshown.unique hres

/-- The workspaces of a connected output are there. -/
theorem WellFormed.owns_live (hwf : WellFormed False s) (ho : o ∈ s.outs.outputs)
    (hw : s.Owns o w) : s.tiles.wsLive w = true := by
  obtain ⟨i, hi⟩ := hw
  have hget := getElem?_of_wsAt hi
  refine hwf.outs.wsLive o ho i w ?_ hget
  rw [← hwf.outs.len o ho]
  exact (List.getElem?_eq_some_iff.mp hget).1

/-! ### Moving the views of one list -/

/-- A view is linked in before it gets the workspace of the list. -/
theorem linkView_arrives (h : s.Filed (some v)) (hmapped : s.views.viewMapped v = true)
    (hkind : s.views.managed v = managed) : Ensures (s.linkView managed w v) fun s' =>
      (s.tiles.wsLive w = true → (s'.setViewWorkspace v w).Filed none) ∧
        s' = { s with views := s'.views } ∧
        s'.views = { s.views with links := s'.views.links } := by
  refine Ensures.bind_any fun V hV => Ensures.ok ?_
  have hlinks : V = { s.views with links := V.links } := by
    obtain ⟨_, -, rfl⟩ := wlListInsert_spec _ hV
    rfl
  refine ⟨fun hw => ?_, rfl, hlinks⟩
  have heq : { V with viewWorkspace := Function.update V.viewWorkspace v (some w) } = { s.views with
      links := V.links
      viewWorkspace := Function.update s.views.viewWorkspace v (some w) } := by
    rw [hlinks]
  exact h.arrive hw (h.lists.link hw hmapped hkind hV heq) heq rfl fun t u hu => ⟨rfl, .inl hu⟩

/-- **One view goes over** to the current list. -/
theorem rehomeView_filed (hti : s.tiles.TilesInv False none) (h : s.Filed none)
    (hv : s.views.Resides managed w v) (hhidden : ∀ t, ¬ s.Shows t v)
    (hcur : s.outs.curWs = .ok w') (hcons : s.outs.outputs ≠ []) :
    Ensures (do
      let s ← s.unlinkView v
      if s.outs.outputs = [] then
        .ok { s with views.viewLive := Function.update s.views.viewLive v false }
      else do
        let s ← s.linkView managed w' v
        let s := s.setViewWorkspace v w'
        let f ← s.tiles.focusedTile w'
        let s := s.setViewTile v (some f)
        if managed ∧ s.disp.focusedView = none then s.seatSetFocus (some v) else .ok s)
      fun s' => s'.Filed none ∧
        ∀ m x u, s'.views.Resides m x u → x = w' ∨ s.views.Resides m x u := by
  refine Ensures.bind (unlinkView_filed h hv.mapped hhidden) ?_
  rintro s₁ ⟨h₁, heq₁, hviews₁⟩
  refine Ensures.ite (fun hnil => absurd ?_ hcons) fun _ => ?_
  · rwa [heq₁] at hnil
  have hmapped₁ : s₁.views.viewMapped v = true := by
    rw [hviews₁]
    exact hv.mapped
  have hkind₁ : s₁.views.managed v = managed := by
    rw [hviews₁]
    exact hv.kind
  refine Ensures.bind (linkView_arrives h₁ hmapped₁ hkind₁) ?_
  rintro s₂ ⟨h₂, heq₂, hviews₂⟩
  have htiles₂ : s₂.tiles = s.tiles := by rw [heq₂, heq₁]
  refine Ensures.bind_any fun f hf => ?_
  have hti₂ : s₂.tiles.TilesInv False none := by
    rw [htiles₂]
    exact hti
  have hwlive : s₁.tiles.wsLive w' = true := by
    have hlive := (hti₂.focused_mem (by simp) hf).1
    rwa [heq₂] at hlive
  set s₃ : Server := (s₂.setViewWorkspace v w').setViewTile v (some f) with hs₃
  have h₃ : s₃.Filed none := (h₂ hwlive).congr rfl rfl rfl
  have hviews₃ : s₃.views = { s.views with
      links := s₂.views.links
      viewWorkspace := Function.update s.views.viewWorkspace v (some w') } := by
    show { s₂.views with viewWorkspace := Function.update s₂.views.viewWorkspace v (some w') } = _
    rw [hviews₂, hviews₁]
  -- only this view has another workspace
  have hgains : ∀ m x u, s₃.views.Resides m x u → x = w' ∨ s.views.Resides m x u := by
    intro m x u hu
    rw [hviews₃] at hu
    have hws := hu.workspace
    by_cases huv : u = v
    · subst huv
      simp only [Function.update_self] at hws
      exact .inl (Option.some.inj hws).symm
    · simp only [Function.update_of_ne huv] at hws
      exact .inr ⟨hu.mapped, hu.kind, hws⟩
  refine Ensures.ite (fun hm => ?_) fun _ => Ensures.ok ⟨h₃, hgains⟩
  refine (seatSetFocus_filed (s := s₃) hti₂ h₃ fun u f' hu _ hf' => ⟨?_, nofun⟩).mono
    fun s₄ h₄ => ⟨h₄.filed, fun m x u hu => hgains m x u ?_⟩
  · obtain rfl := Option.some.inj hu
    -- the focused tile is one of the current workspace
    obtain ⟨w'', hw'', hf'⟩ := bind_eq_ok.mp hf'
    have hcur₃ : s₃.outs.curWs = .ok w' := by
      show s₂.outs.curWs = .ok w'
      rw [heq₂, heq₁]
      exact hcur
    obtain rfl := Except.ok.inj (hcur₃.symm.trans hw'')
    have htw : s₃.tiles.tileWorkspace f' = w' := (hti₂.focused_mem (by simp) hf').2.2
    rw [htw, hviews₃]
    exact ⟨hv.mapped, hv.kind.trans hm.1, Function.update_self _ _ _⟩
  · rwa [h₄.resides] at hu

/-- **Moving the views of a list** to the current workspace leaves the list empty. -/
theorem rehomeViews_filed (hwf : WellFormed False s) (hs : s.Sound fit lit) (h : s.Filed none)
    (hW : ∀ w, W w → s.tiles.wsLive w = true) (hw : W w) (hcur : s.outs.curWs = .ok w')
    (hcons : s.outs.outputs ≠ []) (hother : ¬ W w')
    (hquiet : ∀ t v, s.Shows t v → s.tiles.tileWorkspace t ≠ w) :
    Ensures (s.rehomeViews managed w w') fun s' => Clearing fit lit W ∅ s s' ∧ s'.Filed none ∧
      (∀ v, ¬ s'.views.Resides managed w v) ∧
      ∀ m x v, s'.views.Resides m x v → x = w' ∨ s.views.Resides m x v := by
  refine (forEachViewSafe_front (I := fun s' => Clearing fit lit W ∅ s s' ∧ s'.Filed none ∧
    ∀ m x v, s'.views.Resides m x v → x = w' ∨ s.views.Resides m x v)
    (fun s₁ v h₁ hfirst => ?_) rfl ⟨.refl hs (h.detached hW), h, fun _ _ _ => .inr⟩).mono ?_
  · obtain ⟨hc₁, h₁, hgains₁⟩ := h₁
    have hlive₁ : s₁.tiles.wsLive w = true := by
      rw [hc₁.keeps.tiles]
      exact hW w hw
    have hv := (h₁.lists.of_connected hlive₁ (.single (.inl hfirst))).1
    refine ((rehomeView_sound hwf hc₁ hw hcur (fun _ => hother) hquiet hfirst).and
      (rehomeView_filed (hc₁.keeps.wellFormed hwf).tiles h₁ hv (fun t ht => ?_) ?_ ?_)).mono ?_
    · have hws := (h₁.shown t v ht).1.unique hv
      exact hc₁.quiet hw hquiet t v ht hws
    · rw [hc₁.keeps.outs]
      exact hcur
    · rw [hc₁.keeps.outs]
      exact hcons
    · rintro s₂ ⟨⟨hc₂, hnext⟩, h₂, hgains₂⟩
      refine ⟨⟨hc₂, h₂, fun m x u hu => ?_⟩, hnext⟩
      exact (hgains₂ m x u hu).elim .inl (hgains₁ m x u)
  · rintro s₂ ⟨⟨hc₂, h₂, hgains₂⟩, hempty⟩
    refine ⟨hc₂, h₂, fun v hv => ?_, hgains₂⟩
    -- the list has come to its end
    obtain ⟨L, hL, hmem⟩ := h₂.lists
    have hlive₂ : s₂.tiles.wsLive w = true := by
      rw [hc₂.keeps.tiles]
      exact hW w hw
    have hin : v ∈ L managed w := (hmem managed w v hlive₂).mpr ⟨hv, nofun⟩
    have hfirst := (hL managed w hlive₂).next_head
    rw [hempty] at hfirst
    cases hl : L managed w with
    | nil =>
      rw [hl] at hin
      exact List.not_mem_nil hin
    | cons u l =>
      rw [hl] at hfirst
      exact nomatch hfirst

/-! ### Clearing an output -/

theorem clearTiles_filed (h : s.Filed none) {l : List TilePtr} :
    Ensures (l.foldlM (fun s t => s.workspaceTileUpdateView t none) s) (StaysFiled none s) :=
  Ensures.foldlM (fun _ _ _ h₁ => (clearTile_filed h₁.filed).mono fun _ h₂ => h₁.trans h₂.2) h.stays

/-- **One workspace is cleared**, and vacant. -/
theorem clearWorkspace_filed (hwf : WellFormed False s) (hs : s.Sound fit lit) (h : s.Filed none)
    (hW : ∀ w, W w → s.tiles.wsLive w = true) {i : ℕ}
    (hown : ∀ w, s.outs.wsAt o i = .ok w → W w) (hcons : s.outs.outputs ≠ [])
    (hother : ∀ w, s.outs.curWs = .ok w → ¬ W w) :
    Ensures (do
      let w ← s.outs.wsAt o i
      let l ← s.tiles.ringOf w
      let s ← l.foldlM (fun s t => s.workspaceTileUpdateView t none) s
      let wNew ← s.outs.curWs
      let s ← s.rehomeViews true w wNew
      s.rehomeViews false w wNew) fun s' => Clearing fit lit W ∅ s s' ∧ s'.Filed none ∧
      (∀ w, s.outs.wsAt o i = .ok w → s'.Vacant w) ∧ ∀ w, W w → s.Vacant w → s'.Vacant w := by
  refine Ensures.bind_any fun w hw => Ensures.bind_any fun l hl =>
    Ensures.bind ((clearTiles_sound hs (h.detached hW)).and (clearTiles_filed h)) ?_
  rintro s₁ ⟨⟨hc₁, hshows₁⟩, h₁⟩
  have hw' := hown w hw
  have hW₁ : ∀ w, W w → s₁.tiles.wsLive w = true := by
    rw [hc₁.keeps.tiles]
    exact hW
  -- the loop has seen every tile of the workspace
  have hquiet₁ : ∀ t v, s₁.Shows t v → s₁.tiles.tileWorkspace t ≠ w := by
    intro t v hv htw
    obtain ⟨hold, hl'⟩ := hshows₁ t v hv
    rw [hc₁.keeps.tiles] at htw
    obtain ⟨f, l', -, hl'', -, hmem⟩ := hwf.tiles.ringOf (hW w hw')
    obtain rfl := Except.ok.inj (hl''.symm.trans hl)
    exact hl' ((hmem t).mpr ⟨hold.1, htw⟩)
  have hwf₁ := hc₁.keeps.wellFormed hwf
  refine Ensures.bind_any fun wNew hnew => ?_
  have hnot : ¬ W wNew := by
    refine hother wNew ?_
    rw [← hc₁.keeps.outs]
    exact hnew
  have hcons₁ : s₁.outs.outputs ≠ [] := by
    rw [hc₁.keeps.outs]
    exact hcons
  refine Ensures.bind
    (rehomeViews_filed hwf₁ hc₁.sound h₁.filed hW₁ hw' hnew hcons₁ hnot hquiet₁) ?_
  rintro s₂ ⟨hc₂, h₂, hnone₂, hgains₂⟩
  have hW₂ : ∀ w, W w → s₂.tiles.wsLive w = true := by
    rw [hc₂.keeps.tiles]
    exact hW₁
  have hnew₂ : s₂.outs.curWs = .ok wNew := by
    rw [hc₂.keeps.outs]
    exact hnew
  have hcons₂ : s₂.outs.outputs ≠ [] := by
    rw [hc₂.keeps.outs]
    exact hcons₁
  refine (rehomeViews_filed (hc₂.keeps.wellFormed hwf₁) hc₂.sound h₂ hW₂ hw' hnew₂ hcons₂ hnot
    (hc₂.quiet hw' hquiet₁)).mono ?_
  rintro s₃ ⟨hc₃, h₃, hnone₃, hgains₃⟩
  have hne : ∀ x, W x → x ≠ wNew := fun x hx e => hnot (e ▸ hx)
  refine ⟨(hc₁.trans hc₂).trans hc₃, h₃, fun x hx => ?_, fun x hx hvacant managed v hv => ?_⟩
  · obtain rfl := Except.ok.inj (hw.symm.trans hx)
    intro managed v hv
    cases managed with
    | true => exact hnone₂ v ((hgains₃ true w v hv).resolve_left (hne w hw'))
    | false => exact hnone₃ v hv
  · have hv₂ := (hgains₃ managed x v hv).resolve_left (hne x hx)
    have hv₁ := (hgains₂ managed x v hv₂).resolve_left (hne x hx)
    rw [h₁.resides] at hv₁
    exact hvacant managed v hv₁

/-- If it is the current one, the output is left first. -/
theorem leaveOutput_filed (hti : s.tiles.TilesInv False none) (h : s.Filed none) :
    Ensures (if s.outs.currOutput = some o ∧ 1 < s.outs.outputs.length then
      s.keybindingCycleOutputs false true else .ok s) (Filed none) :=
  Ensures.ite (fun _ => (keybindingCycleOutputs_filed hti h).mono fun _ h' => h'.filed)
    fun _ => Ensures.ok h

/-- **`output_clear`** leaves the workspaces of the output vacant. -/
theorem outputClear_filed (hwf : WellFormed False s) (hs : s.Sound fit lit) (h : s.Filed none)
    (ho : o ∈ s.outs.outputs) (hother : s.outs.outputs.erase o ≠ []) :
    Ensures (s.outputClear o) fun s' => s'.Filed none ∧
      ∀ i w, i < s.outs.nws → s.outs.wsAt o i = .ok w → s'.Vacant w := by
  have hlive : ∀ w, s.Owns o w → s.tiles.wsLive w = true := fun w hw =>
    WellFormed.owns_live hwf ho hw
  refine Ensures.bind ((leaveOutput_sound hwf hs ho (h.detached hlive)).and
    (leaveOutput_filed hwf.tiles h)) ?_
  rintro s₁ ⟨hl, h₁⟩
  set s₂ : Server := { s₁ with outs.outputs := s₁.outs.outputs.erase o } with hs₂
  have h₂ : s₂.Filed none := h₁.congr rfl rfl rfl
  have hcons : s₂.outs.outputs ≠ [] := by
    rw [hl.outs]
    exact hother
  -- the workspaces before the `i`th are vacant
  refine (Ensures.foldlM_range (I := fun n s' =>
    Clearing fit lit (s.Owns o) ∅ s₂ s' ∧ s'.Filed none ∧
    ∀ i w, i < n → s.outs.wsAt o i = .ok w → s'.Vacant w)
    (fun i s₃ _ h₃ => ?_) ⟨.refl hl.sound hl.detached, h₂, nofun⟩).mono ?_
  · obtain ⟨hc₃, h₃, hvacant₃⟩ := h₃
    have hwsAt₃ : s₃.outs.wsAt o = s.outs.wsAt o := by
      rw [hc₃.keeps.outs]
      exact hl.wsAt
    refine (clearWorkspace_filed (W := s.Owns o) (hc₃.keeps.wellFormed hl.layout) hc₃.sound h₃
      (fun w hw => ?_) (fun w hw => ⟨i, hwsAt₃ ▸ hw⟩) ?_ fun w hw => ?_).mono ?_
    · rw [hc₃.keeps.tiles, hl.tiles]
      exact hlive w hw
    · rw [hc₃.keeps.outs]
      exact hcons
    · rw [hc₃.keeps.outs] at hw
      exact hl.other w hcons hw
    · rintro s₄ ⟨hc₄, h₄, hvacant₄, hkeep₄⟩
      refine ⟨hc₃.trans hc₄, h₄, fun j w hj hw => ?_⟩
      by_cases hji : j = i
      · subst hji
        exact hvacant₄ w (hwsAt₃.symm ▸ hw)
      · exact hkeep₄ w ⟨j, hw⟩ (hvacant₃ j w (by omega) hw)
  · rintro s' ⟨-, h', hvacant⟩
    refine ⟨h', fun i w hi hw => hvacant i w ?_ hw⟩
    show i < s₂.outs.nws
    rw [hl.nws]
    exact hi

/-- Freeing a workspace that is vacant. -/
theorem workspaceFree_filed (hti : s.tiles.TilesInv False none) (h : s.Filed none)
    (hvacant : s.Vacant w) :
    Ensures (s.workspaceFree w) fun s' => s'.Filed none ∧ s'.views = s.views := by
  refine Ensures.bind (workspaceFreeTiles_filed hti h) ?_
  rintro s₁ ⟨h₁, hviews₁, hws₁⟩
  have hlive : ∀ x, Function.update s₁.tiles.wsLive w false x = true →
      s₁.tiles.wsLive x = true := by
    intro x hx
    by_cases hxw : x = w
    · rw [hxw, Function.update_self] at hx
      exact nomatch hx
    · rwa [Function.update_of_ne hxw] at hx
  obtain ⟨L, hL, hmem⟩ := h₁.lists
  refine Ensures.ok ⟨⟨⟨L, fun managed x hx => hL managed x (hlive x hx),
    fun managed x v hx => hmem managed x v (hlive x hx)⟩, fun v hv _ => ?_, h₁.shown⟩, hviews₁⟩
  obtain ⟨x, hvx, hx⟩ := h₁.home v hv nofun
  refine ⟨x, hvx, ?_⟩
  have hxw : x ≠ w := by
    rintro rfl
    refine hvacant (s.views.managed v) v ?_
    rw [← hviews₁]
    exact ⟨hv, rfl, hvx⟩
  exact (Function.update_of_ne hxw _ _).trans hx

/-- **`output_destroy`** leaves every view in a list, unless it was the last output. -/
theorem outputDestroy_filed (hwf : WellFormed False s) (hs : s.Sound fit lit) (h : s.Filed none)
    (ho : o ∈ s.outs.outputs) :
    Ensures (s.outputDestroy o) fun s' => s'.terminated = false → s'.Filed none := by
  have hd : Detached (s.Owns o) s := h.detached fun w hw => WellFormed.owns_live hwf ho hw
  have houtputs : Ensures (s.outputClear o) fun s' =>
      s'.outs.outputs = s.outs.outputs.erase o := by
    refine Ensures.bind (leaveOutput_sound hwf hs ho hd) fun s₁ hl => ?_
    refine (Ensures.foldlM (fun s₂ i _ h₂ => clearWorkspace_keeps.mono fun _ h₃ => h₂.trans h₃)
      KeepsLayout.refl).mono fun s₂ hk => ?_
    rw [hk.outs, hl.outs]
  by_cases hlast : s.outs.outputs.erase o = []
  · -- the display is terminated
    refine Ensures.bind houtputs fun s₁ h₁ => ?_
    refine Ensures.bind (P := fun s₂ => s₂.outs = s₁.outs) (Ensures.foldlM (fun s₂ i _ h₂ =>
      Ensures.bind_any fun w _ => Ensures.deref fun _ => workspaceFree_outs.mono
        fun s₃ h₃ => h₃.trans h₂) rfl) fun s₂ h₂ => Ensures.ok ?_
    split
    · exact nofun
    · next hne =>
      refine absurd ?_ hne
      show s₂.outs.outputs = []
      rw [h₂, h₁, hlast]
  refine Ensures.bind ((outputClear_wellFormed hwf).and ((outputClear_sound hwf hs ho hd).and
    (outputClear_filed hwf hs h ho hlast))) ?_
  rintro s₁ ⟨⟨hwf₁, hmem₁⟩, ⟨-, -, hnws₁, hwsAt₁, -⟩, h₁, hvacant₁⟩
  refine Ensures.bind (P := fun s₂ => LayoutInv False none (fun _ => s₁.outs.nws) s₂ ∧
    s₂.outs = s₁.outs ∧ s₂.Filed none ∧ s₂.views = s₁.views)
    (Ensures.foldlM (fun s₂ i hi h₂ => ?_) ⟨hwf₁, rfl, h₁, rfl⟩) fun s₂ h₂ => Ensures.ok ?_
  · obtain ⟨hwf₂, houts₂, h₂, hviews₂⟩ := h₂
    refine Ensures.bind_any fun w hw => Ensures.deref fun _ => ?_
    -- the views have left the workspace before it is freed
    have hvacant : s₂.Vacant w := by
      rw [Vacant, hviews₂]
      refine hvacant₁ i w ?_ ?_
      · rw [← hnws₁]
        exact List.mem_range.mp hi
      · rw [← hwsAt₁, ← houts₂]
        exact hw
    refine ((workspaceFree_inv hwf₂ fun o' ho' j _ hw' => ?_).and
      (workspaceFree_filed hwf₂.tiles h₂ hvacant)).mono fun s₃ h₃ =>
        ⟨h₃.1.1, h₃.1.2.trans houts₂, h₃.2.1, h₃.2.2.trans hviews₂⟩
    have h1 := (hwf₂.outs.place o i w (getElem?_of_wsAt hw)).2.1
    have h2 := (hwf₂.outs.place o' j w hw').2.1
    rw [houts₂] at ho'
    exact hmem₁ (h1.symm.trans h2 ▸ ho')
  · intro _
    split
    · exact h₂.2.2.1.congr rfl rfl rfl
    · exact h₂.2.2.1.congr rfl rfl rfl

end Server

end Cagebreak
