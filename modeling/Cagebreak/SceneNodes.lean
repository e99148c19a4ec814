/-
The trees of the views.

`Hung` says that the tree of each view hangs below that of a workspace, and for a
mapped view below that of its own workspace.  A workspace may be freed when no
view hangs below it (`Hung.workspaceFree`).  The views that are in the lists of a
workspace leave it before it is freed with its output, but not before it is freed
by `workspaces`, and other views never leave it: `scene_nodes` tells in which
runs no tree of a view is destroyed with a workspace.
-/
import Cagebreak.OutputSteps
import Cagebreak.SceneServer

namespace Cagebreak

open Exec
open OutputServer (after resizeArray after_append after_of_notMem mem_of_after ne_of_after_or_head)

namespace SceneServer

variable {s s' : SceneServer} {v u w x o p i n k : ℕ} {c c' : SceneView} {managed : Bool}
  {e : SceneEvent}

/-- The tree of a workspace. -/
def wsNode (s : SceneServer) (w : ℕ) : Option ℕ := (s.ws w).map SceneWs.scene

/-- The view is in a list of the workspace. -/
def Links (s : SceneServer) (w v : ℕ) : Prop :=
  ∃ d, s.ws w = some d ∧ (v ∈ d.views ∨ v ∈ d.unmanagedViews)

/-- The views, their trees, and the lists they are in. -/
structure Hung (s : SceneServer) : Prop where
  root : s.scene.parent 0 = none
  top : 0 < s.scene.top
  tree : ∀ w n, s.wsNode w = some n →
    n ≠ 0 ∧ n < s.scene.top ∧ s.scene.live n = true ∧ s.scene.parent n = some 0
  wsInj : ∀ w x n, s.wsNode w = some n → s.wsNode x = some n → w = x
  node : ∀ v c, s.view v = some c →
    c.sceneTree ≠ 0 ∧ c.sceneTree < s.scene.top ∧ s.scene.live c.sceneTree = true
  viewInj : ∀ v u c c', s.view v = some c → s.view u = some c' → c.sceneTree = c'.sceneTree → v = u
  apart : ∀ v c w n, s.view v = some c → s.wsNode w = some n → c.sceneTree ≠ n
  parent : ∀ v c, s.view v = some c → ∃ w n, s.wsNode w = some n ∧
    s.scene.parent c.sceneTree = some n ∧ (c.mapped = true → c.workspace = some w ∧ s.Links w v)
  linked : ∀ w v, s.Links w v → ∃ c, s.view v = some c ∧ c.mapped = true ∧ c.workspace = some w
  wsFresh : ∀ w n, s.wsNode w = some n → w < s.wsTop
  viewFresh : ∀ v c, s.view v = some c → v < s.viewTop

/-- The arrays of the outputs. -/
structure Arrayed (s : SceneServer) : Prop where
  disjoint : ∀ o p c d w, s.out o = some c → s.out p = some d → some w ∈ c.workspaces →
    some w ∈ d.workspaces → o = p
  wsFresh : ∀ o c w, s.out o = some c → some w ∈ c.workspaces → w < s.wsTop
  outFresh : ∀ o c, s.out o = some c → o < s.outTop

/-- The lists of outputs. -/
structure Known (s : SceneServer) : Prop where
  outputs : s.outputs.Nodup
  disabled : s.disabledOutputs.Nodup
  disjoint : ∀ o ∈ s.outputs, o ∉ s.disabledOutputs
  fresh : ∀ o, o ∈ s.outputs ∨ o ∈ s.disabledOutputs → o < s.outTop

/-! ### Lists -/

theorem unlink_wsNode : (s.unlink v).wsNode = s.wsNode := by
  funext w
  show ((s.ws w).map _).map _ = (s.ws w).map _
  rw [Option.map_map]
  rfl

theorem links_unlink : (s.unlink v).Links w u ↔ u ≠ v ∧ s.Links w u := by
  show (∃ d, (s.ws w).map _ = some d ∧ _) ↔ _
  constructor
  · rintro ⟨d, hd, hu⟩
    obtain ⟨d₀, hd₀, rfl⟩ := Option.map_eq_some_iff.mp hd
    simp only [List.mem_filter, decide_eq_true_eq] at hu
    obtain ⟨hmem, hne⟩ | ⟨hmem, hne⟩ := hu
    · exact ⟨hne, d₀, hd₀, .inl hmem⟩
    · exact ⟨hne, d₀, hd₀, .inr hmem⟩
  · rintro ⟨hne, d, hd, hu⟩
    refine ⟨_, by rw [hd]; rfl, ?_⟩
    simp only [List.mem_filter, decide_eq_true_eq]
    exact hu.imp (fun hmem => ⟨hmem, hne⟩) fun hmem => ⟨hmem, hne⟩

/-- A view is put into a list of `w`. -/
structure Linked (s : SceneServer) (w v : ℕ) (s' : SceneServer) : Prop where
  node : s'.wsNode = s.wsNode
  links : ∀ x u, s'.Links x u ↔ s.Links x u ∨ x = w ∧ u = v
  other : ∀ x, x ≠ w → s'.ws x = s.ws x
  rest : ∃ f, s' = { s with ws := f }

theorem link_spec : Ensures (s.link w v managed) (s.Linked w v) := by
  refine Ensures.nonNull fun d hd => Ensures.ok ⟨?_, fun x u => ?_, fun x hx => ?_, _, rfl⟩
  · funext x
    by_cases hx : x = w
    · subst hx
      show (Function.update s.ws x _ x).map _ = (s.ws x).map _
      rw [Function.update_self, hd]
      cases managed <;> rfl
    · show (Function.update s.ws w _ x).map _ = (s.ws x).map _
      rw [Function.update_of_ne hx]
  · show (∃ d', Function.update s.ws w _ x = some d' ∧ _) ↔ _
    by_cases hx : x = w
    · subst hx
      rw [Function.update_self]
      have hold : s.Links x u ↔ u ∈ d.views ∨ u ∈ d.unmanagedViews := by
        constructor
        · rintro ⟨d', hd', hu⟩
          rwa [← Option.some.inj (hd.symm.trans hd')] at hu
        · exact fun hu => ⟨d, hd, hu⟩
      rw [hold]
      cases managed with
      | true =>
        simp only [if_true, Option.some.injEq, exists_eq_left', List.mem_cons, true_and]
        tauto
      | false =>
        simp only [Bool.false_eq_true, if_false, Option.some.injEq, exists_eq_left',
          List.mem_cons, true_and]
        tauto
    · rw [Function.update_of_ne hx]
      exact ⟨fun h => .inl h, fun h => h.resolve_right fun hxw => hx hxw.1⟩
  · exact Function.update_of_ne hx ..

/-! ### Trees -/

theorem Hung.path_ws (h : s.Hung) (hw : s.wsNode w = some n) : s.scene.Path n [n, 0] :=
  .step (h.tree w n hw).2.2.2 (.root h.root)

theorem Hung.path_view (h : s.Hung) (hw : s.wsNode w = some n)
    (hp : s.scene.parent c.sceneTree = some n) : s.scene.Path c.sceneTree [c.sceneTree, n, 0] :=
  .step hp (h.path_ws hw)

/-- No view hangs below the workspace. -/
def NoneUnder (s : SceneServer) (w : ℕ) : Prop :=
  ∀ v c n, s.view v = some c → s.wsNode w = some n → s.scene.parent c.sceneTree ≠ some n

/-- A view that is in a list of a workspace hangs below it. -/
theorem Hung.parent_of_links (h : s.Hung) (hl : s.Links w v) (hw : s.wsNode w = some n) :
    ∃ c, s.view v = some c ∧ c.mapped = true ∧ s.scene.parent c.sceneTree = some n := by
  obtain ⟨c, hc, hmapped, hws⟩ := h.linked w v hl
  obtain ⟨x, m, hx, hparent, hmap⟩ := h.parent v c hc
  have hxw : w = x := Option.some.inj (hws.symm.trans (hmap hmapped).1)
  subst hxw
  rw [hw] at hx
  obtain rfl := Option.some.inj hx
  exact ⟨c, hc, hmapped, hparent⟩

/-- A mapped view that hangs below a workspace is in one of its lists. -/
theorem Hung.links_of_parent (h : s.Hung) (hc : s.view v = some c) (hmapped : c.mapped = true)
    (hw : s.wsNode w = some n) (hp : s.scene.parent c.sceneTree = some n) : s.Links w v := by
  obtain ⟨x, m, hx, hparent, hmap⟩ := h.parent v c hc
  obtain rfl : n = m := Option.some.inj (hp.symm.trans hparent)
  obtain rfl := h.wsInj w x n hw hx
  exact (hmap hmapped).2

/-- What destroying a node spares. -/
theorem Hung.spared (h : s.Hung) (hw : s.wsNode w = some n)
    (hp : s.scene.parent c.sceneTree = some n) (hk : k ∉ [c.sceneTree, n, 0])
    (hlive : s.scene.live c.sceneTree = true) : (s.scene.destroy k).live c.sceneTree = true := by
  have htop := h.tree w n hw
  exact (Forest.live_destroy (h.path_view hw hp)
    (by simp only [List.length_cons, List.length_nil]; omega)).mpr
    ⟨hlive, hk⟩

theorem Hung.spared_ws (h : s.Hung) (hw : s.wsNode w = some n) (hk : k ∉ [n, 0]) :
    (s.scene.destroy k).live n = true := by
  have htop := h.top
  exact (Forest.live_destroy (h.path_ws hw)
    (by simp only [List.length_cons, List.length_nil]; omega)).mpr
    ⟨(h.tree w n hw).2.2.1, hk⟩

/-! ### Moving a view -/

/-- Only views, their lists and their trees have changed. -/
structure SameOutputs (s s' : SceneServer) : Prop where
  wsTop : s'.wsTop = s.wsTop
  viewTop : s'.viewTop = s.viewTop
  outTop : s'.outTop = s.outTop
  out : s'.out = s.out
  outputs : s'.outputs = s.outputs
  disabledOutputs : s'.disabledOutputs = s.disabledOutputs
  currOutput : s'.currOutput = s.currOutput
  nws : s'.nws = s.nws

/-- The view `v` is put on the workspace `w`, whose tree is `n`. -/
structure Placed (s : SceneServer) (v : ℕ) (c : SceneView) (w n : ℕ) (s' : SceneServer) : Prop where
  view : ∃ c', s'.view = Function.update s.view v (some c') ∧ c'.sceneTree = c.sceneTree ∧
    c'.mapped = true ∧ c'.workspace = some w
  node : s'.wsNode = s.wsNode
  links : ∀ x u, s'.Links x u ↔ u ≠ v ∧ s.Links x u ∨ x = w ∧ u = v
  scene : s'.scene = s.scene.reparent c.sceneTree n
  same : SameOutputs s s'

/-- The record of another view is the same; that of `v` is the new one. -/
theorem view_update {g : ℕ → Option SceneView} {d : Option SceneView}
    (hview : s'.view = Function.update g v d) (hu : s'.view u = some c) :
    u = v ∧ d = some c ∨ u ≠ v ∧ g u = some c := by
  rw [hview] at hu
  by_cases huv : u = v
  · subst huv
    rw [Function.update_self] at hu
    exact .inl ⟨rfl, hu⟩
  · rw [Function.update_of_ne huv] at hu
    exact .inr ⟨huv, hu⟩

theorem Hung.placed (h : s.Hung) (hv : s.view v = some c) (hw : s.wsNode w = some n)
    (hp : Placed s v c w n s') : s'.Hung := by
  obtain ⟨d, hview, htree, hmapped, hws⟩ := hp.view
  have hlive : s'.scene.live = s.scene.live := by rw [hp.scene]; rfl
  have htop : s'.scene.top = s.scene.top := by rw [hp.scene]; rfl
  have hparent : ∀ m, m ≠ c.sceneTree → s'.scene.parent m = s.scene.parent m := by
    intro m hm
    rw [hp.scene, Forest.reparent_parent_of_ne hm]
  -- a view of the new state has the tree of a view of the old one
  have hold : ∀ u c', s'.view u = some c' → ∃ c₀, s.view u = some c₀ ∧
      c'.sceneTree = c₀.sceneTree := by
    intro u c' hu
    obtain ⟨rfl, hd⟩ | ⟨-, hu⟩ := view_update hview hu
    · obtain rfl := Option.some.inj hd
      exact ⟨c, hv, htree⟩
    · exact ⟨c', hu, rfl⟩
  have hlinkv : s'.Links w v := (hp.links w v).mpr (.inr ⟨rfl, rfl⟩)
  refine ⟨?_, by rw [htop]; exact h.top, fun x m hx => ?_, by rw [hp.node]; exact h.wsInj,
    fun u c' hu => ?_, fun u x c' d' hu hx hsame => ?_, fun u c' x m hu hx => ?_,
    fun u c' hu => ?_, fun x u hl => ?_, ?_, fun u c' hu => ?_⟩
  · rw [hparent 0 (Ne.symm (h.node v c hv).1)]
    exact h.root
  · rw [hp.node] at hx
    rw [htop, hlive, hparent m (Ne.symm (h.apart v c x m hv hx))]
    exact h.tree x m hx
  · obtain ⟨c₀, hc₀, htree'⟩ := hold u c' hu
    rw [htree', htop, hlive]
    exact h.node u c₀ hc₀
  · obtain ⟨c₀, hc₀, htree'⟩ := hold u c' hu
    obtain ⟨d₀, hd₀, htree''⟩ := hold x d' hx
    rw [htree', htree''] at hsame
    exact h.viewInj u x c₀ d₀ hc₀ hd₀ hsame
  · obtain ⟨c₀, hc₀, htree'⟩ := hold u c' hu
    rw [hp.node] at hx
    rw [htree']
    exact h.apart u c₀ x m hc₀ hx
  · obtain ⟨rfl, hd⟩ | ⟨huv, hu⟩ := view_update hview hu
    · obtain rfl := Option.some.inj hd
      refine ⟨w, n, by rw [hp.node, hw], ?_, fun _ => ⟨hws, hlinkv⟩⟩
      rw [htree, hp.scene, Forest.reparent_parent_self]
    · obtain ⟨x, m, hx, hpar, hmap⟩ := h.parent u c' hu
      refine ⟨x, m, by rw [hp.node, hx], ?_, fun hm => ⟨(hmap hm).1, ?_⟩⟩
      · rw [hparent _ fun hsame => huv (h.viewInj u v c' c hu hv hsame), hpar]
      · exact (hp.links x u).mpr (.inl ⟨huv, (hmap hm).2⟩)
  · obtain ⟨huv, hl⟩ | ⟨rfl, rfl⟩ := (hp.links x u).mp hl
    · obtain ⟨c', hu, hm, hx⟩ := h.linked x u hl
      exact ⟨c', by rw [hview, Function.update_of_ne huv, hu], hm, hx⟩
    · exact ⟨d, by rw [hview, Function.update_self], hmapped, hws⟩
  · rw [hp.node, hp.same.wsTop]
    exact h.wsFresh
  · obtain ⟨c₀, hc₀, -⟩ := hold u c' hu
    rw [hp.same.viewTop]
    exact h.viewFresh u c₀ hc₀

/-- A view that leaves its list, and is unmapped or freed. -/
structure Withdrawn (s : SceneServer) (v : ℕ) (d : Option SceneView) (s' : SceneServer) : Prop where
  view : s'.view = Function.update s.view v d
  node : s'.wsNode = s.wsNode
  links : ∀ x u, s'.Links x u ↔ u ≠ v ∧ s.Links x u
  same : SameOutputs s s'

theorem withdrawn_unlink {d : Option SceneView} : Withdrawn s v d ((s.unlink v).setView v d) :=
  ⟨rfl, unlink_wsNode, fun _ _ => links_unlink, ⟨rfl, rfl, rfl, rfl, rfl, rfl, rfl, rfl⟩⟩

theorem Hung.withdrawn (h : s.Hung) (hv : s.view v = some c) {d : Option SceneView}
    (hd : ∀ c', d = some c' → c'.sceneTree = c.sceneTree ∧ c'.mapped = false)
    (hp : Withdrawn s v d s') (hscene : s'.scene = s.scene) : s'.Hung := by
  have hold : ∀ u c', s'.view u = some c' → ∃ c₀, s.view u = some c₀ ∧
      c'.sceneTree = c₀.sceneTree ∧ (c'.mapped = true → u ≠ v ∧ c' = c₀) := by
    intro u c' hu
    obtain ⟨rfl, hd'⟩ | ⟨huv, hu⟩ := view_update hp.view hu
    · obtain ⟨htree, hmapped⟩ := hd c' hd'
      refine ⟨c, hv, htree, fun hm => ?_⟩
      rw [hmapped] at hm
      cases hm
    · exact ⟨c', hu, rfl, fun _ => ⟨huv, rfl⟩⟩
  refine ⟨by rw [hscene]; exact h.root, by rw [hscene]; exact h.top, ?_,
    by rw [hp.node]; exact h.wsInj, fun u c' hu => ?_, fun u x c' d' hu hx hsame => ?_,
    fun u c' x m hu hx => ?_, fun u c' hu => ?_, fun x u hl => ?_, ?_, fun u c' hu => ?_⟩
  · rw [hp.node, hscene]
    exact h.tree
  · obtain ⟨c₀, hc₀, htree, -⟩ := hold u c' hu
    rw [htree, hscene]
    exact h.node u c₀ hc₀
  · obtain ⟨c₀, hc₀, htree, -⟩ := hold u c' hu
    obtain ⟨d₀, hd₀, htree', -⟩ := hold x d' hx
    rw [htree, htree'] at hsame
    exact h.viewInj u x c₀ d₀ hc₀ hd₀ hsame
  · obtain ⟨c₀, hc₀, htree, -⟩ := hold u c' hu
    rw [hp.node] at hx
    rw [htree]
    exact h.apart u c₀ x m hc₀ hx
  · obtain ⟨c₀, hc₀, htree, hmap'⟩ := hold u c' hu
    obtain ⟨x, m, hx, hpar, hmap⟩ := h.parent u c₀ hc₀
    refine ⟨x, m, by rw [hp.node, hx], by rw [htree, hscene, hpar], fun hm => ?_⟩
    obtain ⟨huv, rfl⟩ := hmap' hm
    exact ⟨(hmap hm).1, (hp.links x u).mpr ⟨huv, (hmap hm).2⟩⟩
  · obtain ⟨huv, hl⟩ := (hp.links x u).mp hl
    obtain ⟨c', hu, hm, hx⟩ := h.linked x u hl
    exact ⟨c', by rw [hp.view, Function.update_of_ne huv, hu], hm, hx⟩
  · rw [hp.node, hp.same.wsTop]
    exact h.wsFresh
  · obtain ⟨c₀, hc₀, -⟩ := hold u c' hu
    rw [hp.same.viewTop]
    exact h.viewFresh u c₀ hc₀

/-- An unmapped view is in no list. -/
theorem Hung.withdrawn_setView (h : s.Hung) (hv : s.view v = some c) (hm : c.mapped = false)
    {d : Option SceneView} : Withdrawn s v d (s.setView v d) := by
  refine ⟨rfl, rfl, fun x u => ⟨fun hl => ⟨?_, hl⟩, fun hl => hl.2⟩,
    ⟨rfl, rfl, rfl, rfl, rfl, rfl, rfl, rfl⟩⟩
  rintro rfl
  obtain ⟨c', hc', hm', -⟩ := h.linked x u hl
  rw [Option.some.inj (hv.symm.trans hc'), hm'] at hm
  cases hm

/-- Destroying the tree of a view that has gone. -/
theorem Hung.destroyed (h : s.Hung) (hv : s.view v = some c) (hm : c.mapped = false) :
    ({ s.setView v none with scene := s.scene.destroy c.sceneTree } : SceneServer).Hung := by
  have hgone : (s.setView v none).Hung :=
    h.withdrawn (d := none) hv nofun (h.withdrawn_setView hv hm) rfl
  have hother : ∀ u c', (s.setView v none).view u = some c' →
      s.view u = some c' ∧ c.sceneTree ≠ c'.sceneTree := by
    intro u c' hu
    have hset : (s.setView v none).view = Function.update s.view v none := rfl
    obtain ⟨rfl, hd⟩ | ⟨huv, hu⟩ := view_update hset hu
    · cases hd
    · exact ⟨hu, fun hsame => huv (h.viewInj u v c' c hu hv hsame.symm)⟩
  have hzero := (h.node v c hv).1
  refine ⟨hgone.root, hgone.top, fun x m hx => ?_, hgone.wsInj, fun u c' hu => ?_, hgone.viewInj,
    hgone.apart, hgone.parent, hgone.linked, hgone.wsFresh, hgone.viewFresh⟩
  · obtain ⟨h0, hlt, hlive, hpar⟩ := hgone.tree x m hx
    have hne := h.apart v c x m hv hx
    exact ⟨h0, hlt, h.spared_ws hx (by simp [hne, hzero]), hpar⟩
  · obtain ⟨hu', hne⟩ := hother u c' hu
    obtain ⟨x, m, hx, hpar, -⟩ := h.parent u c' hu'
    obtain ⟨h0, hlt, hlive⟩ := h.node u c' hu'
    have hne' := h.apart v c x m hv hx
    exact ⟨h0, hlt, h.spared hx hpar (by simp [hne, hne', hzero]) hlive⟩

/-- **Freeing a workspace.**  When no view hangs below its tree, no tree of a view
is destroyed with it. -/
theorem Hung.workspaceFree (h : s.Hung) (hnone : s.NoneUnder w) :
    Ensures (s.workspaceFree w) fun s' => s'.Hung ∧
      ∃ n, s.wsNode w = some n ∧
        s' = { s with scene := s.scene.destroy n, ws := Function.update s.ws w none } := by
  refine Ensures.nonNull fun d hd => Ensures.deref fun _ => Ensures.ok ⟨?_, d.scene, ?_, rfl⟩
  · have hw : s.wsNode w = some d.scene := by
      rw [wsNode, hd]
      rfl
    obtain ⟨hzero, -, -, -⟩ := h.tree w _ hw
    have hnode : ∀ x m, Option.map (SceneWs.scene)
        (Function.update s.ws w none x) = some m → x ≠ w ∧ s.wsNode x = some m := by
      intro x m hx
      by_cases hxw : x = w
      · subst hxw
        rw [Function.update_self] at hx
        cases hx
      · rw [Function.update_of_ne hxw] at hx
        exact ⟨hxw, hx⟩
    have hlinks : ∀ x u, (∃ d', Function.update s.ws w none x = some d' ∧
        (u ∈ d'.views ∨ u ∈ d'.unmanagedViews)) → s.Links x u := by
      rintro x u ⟨d', hd', hu⟩
      by_cases hxw : x = w
      · subst hxw
        rw [Function.update_self] at hd'
        cases hd'
      · rw [Function.update_of_ne hxw] at hd'
        exact ⟨d', hd', hu⟩
    refine ⟨h.root, h.top, fun x m hx => ?_, fun x y m hx hy => ?_, fun u c' hu => ?_,
      h.viewInj, fun u c' x m hu hx => ?_, fun u c' hu => ?_, fun x u hl => ?_,
      fun x m hx => ?_, h.viewFresh⟩
    · obtain ⟨hxw, hx⟩ := hnode x m hx
      obtain ⟨h0, hlt, hlive, hpar⟩ := h.tree x m hx
      have hne : d.scene ≠ m := by
        rintro rfl
        exact hxw (h.wsInj x w _ hx hw)
      exact ⟨h0, hlt, h.spared_ws hx (by simp [hne, hzero]), hpar⟩
    · exact h.wsInj x y m (hnode x m hx).2 (hnode y m hy).2
    -- the tree of a view hangs below another workspace
    · obtain ⟨x, m, hx, hpar, -⟩ := h.parent u c' hu
      obtain ⟨h0, hlt, hlive⟩ := h.node u c' hu
      have hne : d.scene ≠ c'.sceneTree := Ne.symm (h.apart u c' w _ hu hw)
      have hne' : d.scene ≠ m := by
        rintro rfl
        exact hnone u c' _ hu hw hpar
      exact ⟨h0, hlt, h.spared hx hpar (by simp [hne, hne', hzero]) hlive⟩
    · exact h.apart u c' x m hu (hnode x m hx).2
    · obtain ⟨x, m, hx, hpar, hmap⟩ := h.parent u c' hu
      have hxw : x ≠ w := by
        rintro rfl
        exact hnone u c' m hu hx hpar
      refine ⟨x, m, ?_, hpar, fun hm => ⟨(hmap hm).1, ?_⟩⟩
      · show Option.map _ (Function.update s.ws w none x) = _
        rw [Function.update_of_ne hxw]
        exact hx
      · obtain ⟨d', hd', hu'⟩ := (hmap hm).2
        exact ⟨d', (Function.update_of_ne hxw ..).trans hd', hu'⟩
    · exact h.linked x u (hlinks x u hl)
    · exact h.wsFresh x m (hnode x m hx).2
  · rw [wsNode, hd]
    rfl

/-! ### New views and workspaces -/

theorem Hung.viewInit (h : s.Hung) : Ensures (s.viewInit managed) fun s' => s'.Hung ∧
    s'.wsNode = s.wsNode ∧ ∃ f g k, s' = { s with view := f, scene := g, viewTop := k } := by
  rw [SceneServer.viewInit]
  refine Ensures.bind_any fun w _ => Ensures.nonNull fun d hd => Ensures.deref fun _ =>
    Ensures.ok ⟨?_, rfl, _, _, _, rfl⟩
  have hw : s.wsNode w = some d.scene := by
    rw [wsNode, hd]
    rfl
  -- the new view is in no list
  have hfresh : ∀ x, ¬ s.Links x s.viewTop := by
    intro x hl
    obtain ⟨c, hc, -, -⟩ := h.linked x _ hl
    exact absurd (h.viewFresh _ c hc) (Nat.lt_irrefl _)
  have hview : ∀ u c, Function.update s.view s.viewTop
      (some ⟨s.scene.top, none, managed, false⟩) u = some c →
      u = s.viewTop ∧ c.sceneTree = s.scene.top ∧ c.mapped = false ∨
        u ≠ s.viewTop ∧ s.view u = some c := by
    intro u c hu
    by_cases huv : u = s.viewTop
    · subst huv
      rw [Function.update_self] at hu
      obtain rfl := Option.some.inj hu
      exact .inl ⟨rfl, rfl, rfl⟩
    · rw [Function.update_of_ne huv] at hu
      exact .inr ⟨huv, hu⟩
  have hzero : (0 : ℕ) < s.scene.top := h.top
  refine ⟨?_, Nat.succ_pos _, fun x m hx => ?_, h.wsInj, fun u c hu => ?_,
    fun u x c c' hu hx hsame => ?_, fun u c x m hu hx => ?_, fun u c hu => ?_, fun x u hl => ?_,
    h.wsFresh, fun u c hu => ?_⟩
  · exact (Forest.create_of_lt hzero).1.trans h.root
  · obtain ⟨h0, hlt, hlive, hpar⟩ := h.tree x m hx
    exact ⟨h0, hlt.trans (Nat.lt_succ_self _), (Forest.create_of_lt hlt).2.trans hlive,
      (Forest.create_of_lt hlt).1.trans hpar⟩
  · obtain ⟨-, htree, -⟩ | ⟨-, hu⟩ := hview u c hu
    · rw [htree]
      exact ⟨hzero.ne', Nat.lt_succ_self _, Forest.create_live_self⟩
    · obtain ⟨h0, hlt, hlive⟩ := h.node u c hu
      exact ⟨h0, hlt.trans (Nat.lt_succ_self _), (Forest.create_of_lt hlt).2.trans hlive⟩
  · obtain ⟨rfl, htree, -⟩ | ⟨hu', hu⟩ := hview u c hu
    · obtain ⟨rfl, -, -⟩ | ⟨-, hx⟩ := hview x c' hx
      · rfl
      · exact absurd (h.node x c' hx).2.1 (by rw [← hsame, htree]; exact Nat.lt_irrefl _)
    · obtain ⟨rfl, htree, -⟩ | ⟨-, hx⟩ := hview x c' hx
      · exact absurd (h.node u c hu).2.1 (by rw [hsame, htree]; exact Nat.lt_irrefl _)
      · exact h.viewInj u x c c' hu hx hsame
  · obtain ⟨rfl, htree, -⟩ | ⟨-, hu⟩ := hview u c hu
    · rw [htree]
      exact (h.tree x m hx).2.1.ne'
    · exact h.apart u c x m hu hx
  · obtain ⟨rfl, htree, hmapped⟩ | ⟨-, hu⟩ := hview u c hu
    · refine ⟨w, _, hw, ?_, fun hm => ?_⟩
      · rw [htree]
        exact Forest.create_parent_self
      · rw [hmapped] at hm
        cases hm
    · obtain ⟨x, m, hx, hpar, hmap⟩ := h.parent u c hu
      exact ⟨x, m, hx, (Forest.create_of_lt (h.node u c hu).2.1).1.trans hpar, hmap⟩
  · obtain ⟨c, hc, hm, hws⟩ := h.linked x u hl
    refine ⟨c, ?_, hm, hws⟩
    exact (Function.update_of_ne (h.viewFresh u c hc).ne ..).trans hc
  · obtain ⟨rfl, -⟩ | ⟨-, hu⟩ := hview u c hu
    · exact Nat.lt_succ_self _
    · exact (h.viewFresh u c hu).trans (Nat.lt_succ_self _)

/-- The trees of the workspaces, with a new one. -/
theorem addWorkspace_wsNode (hx : (addWorkspace o s i).wsNode x = some n) :
    x = s.wsTop ∧ n = s.scene.top ∨ x ≠ s.wsTop ∧ s.wsNode x = some n := by
  have hx' : (Function.update s.ws s.wsTop (some ⟨s.scene.top, [], []⟩) x).map
      SceneWs.scene = some n := hx
  by_cases hxw : x = s.wsTop
  · subst hxw
    rw [Function.update_self] at hx'
    obtain rfl := Option.some.inj hx'
    exact .inl ⟨rfl, rfl⟩
  · rw [Function.update_of_ne hxw] at hx'
    exact .inr ⟨hxw, hx'⟩

theorem Hung.addWorkspace (h : s.Hung) : (addWorkspace o s i).Hung := by
  have hzero : (0 : ℕ) < s.scene.top := h.top
  have hnode : ∀ x m, s.wsNode x = some m →
      (SceneServer.addWorkspace o s i).wsNode x = some m := by
    intro x m hx
    show (Function.update s.ws s.wsTop _ x).map _ = _
    rw [Function.update_of_ne (h.wsFresh x m hx).ne]
    exact hx
  have hlinks : ∀ x u, (SceneServer.addWorkspace o s i).Links x u → s.Links x u := by
    rintro x u ⟨d, hd, hu⟩
    have hd' : Function.update s.ws s.wsTop (some ⟨s.scene.top, [], []⟩) x = some d := hd
    by_cases hxw : x = s.wsTop
    · subst hxw
      rw [Function.update_self] at hd'
      obtain rfl := Option.some.inj hd'
      simp at hu
    · rw [Function.update_of_ne hxw] at hd'
      exact ⟨d, hd', hu⟩
  -- the new tree hangs below the root, and no view hangs below it
  refine ⟨?_, Nat.succ_pos _, fun x m hx => ?_, fun x y m hx hy => ?_, fun u c hu => ?_,
    h.viewInj, fun u c x m hu hx => ?_, fun u c hu => ?_, fun x u hl => ?_, fun x m hx => ?_,
    h.viewFresh⟩
  · exact (Forest.create_of_lt hzero).1.trans h.root
  · obtain ⟨-, rfl⟩ | ⟨-, hx⟩ := addWorkspace_wsNode hx
    · exact ⟨hzero.ne', Nat.lt_succ_self _, Forest.create_live_self, Forest.create_parent_self⟩
    · obtain ⟨h0, hlt, hlive, hpar⟩ := h.tree x m hx
      exact ⟨h0, hlt.trans (Nat.lt_succ_self _), (Forest.create_of_lt hlt).2.trans hlive,
        (Forest.create_of_lt hlt).1.trans hpar⟩
  · obtain ⟨rfl, rfl⟩ | ⟨-, hx⟩ := addWorkspace_wsNode hx
    · obtain ⟨rfl, -⟩ | ⟨-, hy⟩ := addWorkspace_wsNode hy
      · rfl
      · exact absurd (h.tree y _ hy).2.1 (Nat.lt_irrefl _)
    · obtain ⟨rfl, rfl⟩ | ⟨-, hy⟩ := addWorkspace_wsNode hy
      · exact absurd (h.tree x _ hx).2.1 (Nat.lt_irrefl _)
      · exact h.wsInj x y m hx hy
  · obtain ⟨h0, hlt, hlive⟩ := h.node u c hu
    exact ⟨h0, hlt.trans (Nat.lt_succ_self _), (Forest.create_of_lt hlt).2.trans hlive⟩
  · obtain ⟨-, rfl⟩ | ⟨-, hx⟩ := addWorkspace_wsNode hx
    · exact (h.node u c hu).2.1.ne
    · exact h.apart u c x m hu hx
  · obtain ⟨x, m, hx, hpar, hmap⟩ := h.parent u c hu
    refine ⟨x, m, hnode x m hx, (Forest.create_of_lt (h.node u c hu).2.1).1.trans hpar,
      fun hm => ?_⟩
    obtain ⟨hws, d, hd, hu'⟩ := hmap hm
    refine ⟨hws, d, ?_, hu'⟩
    exact (Function.update_of_ne (h.wsFresh x m hx).ne ..).trans hd
  · exact h.linked x u (hlinks x u hl)
  · obtain ⟨rfl, -⟩ | ⟨-, hx⟩ := addWorkspace_wsNode hx
    · exact Nat.lt_succ_self _
    · exact (h.wsFresh x m hx).trans (Nat.lt_succ_self _)

/-! ### Rescuing views -/

/-- The current workspace, if there is one. -/
def cwOf (s : SceneServer) : Option ℕ := do
  let o ← s.currOutput
  let c ← s.out o
  let entry ← c.workspaces[c.currWorkspace]?
  entry

theorem currWs_spec : Ensures s.currWs fun w => s.cwOf = some w ∧ ∃ n, s.wsNode w = some n := by
  rw [currWs]
  refine Ensures.nonNull fun o ho => Ensures.nonNull fun c hc => ?_
  refine Ensures.bind (P := fun w => s.cwOf = some w) ?_ fun w hw =>
    Ensures.nonNull fun d hd => Ensures.ok ⟨hw, d.scene, by rw [wsNode, hd]; rfl⟩
  rw [wsAt]
  refine Ensures.nonNull fun c' hc' => Ensures.nonNull fun entry hentry => ?_
  obtain rfl := Option.some.inj (hc.symm.trans hc')
  intro w hw
  rw [nonNull_eq_ok] at hw
  rw [cwOf, ho, Option.bind_eq_bind, Option.bind_some, hc, Option.bind_eq_bind, Option.bind_some,
    hentry, Option.bind_eq_bind, Option.bind_some, hw]

/-- What clearing an output does to the views: some are freed, and some move to
the current workspace. -/
structure Rescued (s s' : SceneServer) : Prop where
  same : SameOutputs s s'
  node : s'.wsNode = s.wsNode
  view : ∀ u c, s'.view u = some c → ∃ c₀, s.view u = some c₀ ∧ c.sceneTree = c₀.sceneTree ∧
    c.mapped = c₀.mapped ∧ (s'.scene.parent c.sceneTree = s.scene.parent c.sceneTree ∨
      s.outputs ≠ [] ∧ ∃ w n, s.cwOf = some w ∧ s.wsNode w = some n ∧
        s'.scene.parent c.sceneTree = some n)
  lists : ∀ x d', (s.outputs ≠ [] → s.cwOf ≠ some x) → s'.ws x = some d' → ∃ d, s.ws x = some d ∧
    (∀ u ∈ d'.views, u ∈ d.views) ∧ ∀ u ∈ d'.unmanagedViews, u ∈ d.unmanagedViews

theorem SameOutputs.refl (s : SceneServer) : SameOutputs s s :=
  ⟨rfl, rfl, rfl, rfl, rfl, rfl, rfl, rfl⟩

theorem SameOutputs.trans {s'' : SceneServer} (h : SameOutputs s s') (h' : SameOutputs s' s'') :
    SameOutputs s s'' :=
  ⟨h'.wsTop.trans h.wsTop, h'.viewTop.trans h.viewTop, h'.outTop.trans h.outTop,
    h'.out.trans h.out, h'.outputs.trans h.outputs, h'.disabledOutputs.trans h.disabledOutputs,
    h'.currOutput.trans h.currOutput, h'.nws.trans h.nws⟩

theorem SameOutputs.cwOf (h : SameOutputs s s') : s'.cwOf = s.cwOf := by
  rw [SceneServer.cwOf, SceneServer.cwOf, h.currOutput, h.out]

theorem Rescued.refl (s : SceneServer) : Rescued s s :=
  ⟨.refl s, rfl, fun _ c hc => ⟨c, hc, rfl, rfl, .inl rfl⟩,
    fun _ d _ hd => ⟨d, hd, fun _ hu => hu, fun _ hu => hu⟩⟩

theorem Rescued.trans {s'' : SceneServer} (h : Rescued s s') (h' : Rescued s' s'') :
    Rescued s s'' := by
  refine ⟨h.same.trans h'.same, h'.node.trans h.node, fun u c hu => ?_, fun x d hx hd => ?_⟩
  · obtain ⟨c₁, hc₁, htree₁, hmapped₁, hpar₁⟩ := h'.view u c hu
    obtain ⟨c₀, hc₀, htree, hmapped, hpar⟩ := h.view u c₁ hc₁
    refine ⟨c₀, hc₀, htree₁.trans htree, hmapped₁.trans hmapped, ?_⟩
    obtain hpar₁ | ⟨hne, w, n, hcw, hw, hpar₁⟩ := hpar₁
    · rw [htree₁] at hpar₁ ⊢
      obtain hpar | ⟨hne, w, n, hcw, hw, hpar⟩ := hpar
      · exact .inl (hpar₁.trans hpar)
      · exact .inr ⟨hne, w, n, hcw, hw, hpar₁.trans hpar⟩
    · rw [h.same.outputs] at hne
      rw [h.same.cwOf] at hcw
      rw [h.node] at hw
      exact .inr ⟨hne, w, n, hcw, hw, hpar₁⟩
  · obtain ⟨d₁, hd₁, hv₁, hu₁⟩ := h'.lists x d (by rw [h.same.cwOf, h.same.outputs]; exact hx) hd
    obtain ⟨d₀, hd₀, hv, hu⟩ := h.lists x d₁ hx hd₁
    exact ⟨d₀, hd₀, fun u hmem => hv u (hv₁ u hmem), fun u hmem => hu u (hu₁ u hmem)⟩

/-- The view has been freed, or is below the current workspace. -/
def Moved (s : SceneServer) (v : ℕ) : Prop :=
  ∀ c, s.view v = some c → s.outputs ≠ [] ∧ ∃ w n, s.cwOf = some w ∧
    s.wsNode w = some n ∧ s.scene.parent c.sceneTree = some n

theorem Rescued.moved (h : Rescued s s') (hv : s.Moved v) : s'.Moved v := by
  intro c hc
  obtain ⟨c₀, hc₀, htree, -, hpar⟩ := h.view v c hc
  rw [h.same.outputs, h.same.cwOf, h.node]
  obtain hpar | hpar := hpar
  · obtain ⟨hne, w, n, hcw, hw, hpar₀⟩ := hv c₀ hc₀
    rw [← htree] at hpar₀
    exact ⟨hne, w, n, hcw, hw, hpar.trans hpar₀⟩
  · exact hpar

/-- A view below a workspace that is not the current one has not been moved. -/
theorem Hung.not_moved (h : s.Hung) (hc : s.view v = some c) (hw : s.wsNode w = some n)
    (hpar : s.scene.parent c.sceneTree = some n) (hne : s.outputs ≠ [] → s.cwOf ≠ some w) :
    ¬ s.Moved v := by
  intro hmoved
  obtain ⟨hout, x, m, hcw, hx, hpar'⟩ := hmoved c hc
  obtain rfl : n = m := Option.some.inj (hpar.symm.trans hpar')
  exact hne hout (by rw [h.wsInj w x n hw hx, hcw])

/-- A view that has not been moved hangs where it did. -/
theorem Rescued.parent_of (h : Rescued s s') (hc : s'.view v = some c)
    (hpar : s'.scene.parent c.sceneTree = some n) (hno : ¬ s'.Moved v) :
    ∃ c₀, s.view v = some c₀ ∧ c.mapped = c₀.mapped ∧ s.scene.parent c₀.sceneTree = some n := by
  obtain ⟨c₀, hc₀, htree, hm, hsame | hmoved⟩ := h.view v c hc
  · refine ⟨c₀, hc₀, hm, ?_⟩
    rw [← htree, ← hsame, hpar]
  · refine absurd (fun c' hc' => ?_) hno
    rw [h.same.outputs, h.same.cwOf, h.node, ← Option.some.inj (hc.symm.trans hc')]
    exact hmoved

theorem reparent_spec : Ensures (s.reparent n p)
    fun s' => s' = { s with scene := s.scene.reparent n p } :=
  Ensures.deref fun _ => Ensures.ok rfl

/-- Taking a mapped view out of its list and putting it on another workspace. -/
theorem Linked.placed (h : (s.unlink v).Linked w v s') (hm : c.mapped = true) :
    Placed s v c w n ({ s' with scene := s'.scene.reparent c.sceneTree n }.setView v
      (some { c with workspace := some w })) := by
  obtain ⟨hnode, hlinks, -, f, rfl⟩ := h
  refine ⟨⟨_, rfl, rfl, hm, rfl⟩, hnode.trans unlink_wsNode, fun x u => ?_, rfl,
    ⟨rfl, rfl, rfl, rfl, rfl, rfl, rfl, rfl⟩⟩
  have hxu := hlinks x u
  rw [links_unlink] at hxu
  exact hxu

theorem rescue_spec (h : s.Hung) (hcw : s.cwOf = some w)
    (hmapped : ∀ c, s.view v = some c → c.mapped = true) :
    Ensures (rescue w managed s v) fun s' => s'.Hung ∧ Rescued s s' ∧ s'.Moved v := by
  rw [rescue]
  refine Ensures.nonNull fun c hc => ?_
  have hm := hmapped c hc
  refine Ensures.ite (fun hnil => Ensures.ok ?_) fun hne => Ensures.nonNull fun d hd =>
    Ensures.bind link_spec fun s₁ hs₁ => ?_
  -- the last output is gone: the view is freed
  · have hdraw : Withdrawn s v none ((s.unlink v).setView v none) := withdrawn_unlink
    refine ⟨h.withdrawn (d := none) hc nofun hdraw rfl, ⟨hdraw.same, hdraw.node, fun u c' hu => ?_,
      fun x d' _ hd' => ?_⟩, fun c' hc' => ?_⟩
    · obtain ⟨-, hd⟩ | ⟨-, hu⟩ := view_update hdraw.view hu
      · cases hd
      · exact ⟨c', hu, rfl, rfl, .inl rfl⟩
    · obtain ⟨d, hd, rfl⟩ := Option.map_eq_some_iff.mp hd'
      exact ⟨d, hd, fun u hu => (List.mem_filter.mp hu).1, fun u hu => (List.mem_filter.mp hu).1⟩
    · rw [hdraw.view, Function.update_self] at hc'
      cases hc'
  -- the view moves to the current workspace, and its tree with it
  · refine Ensures.bind reparent_spec ?_
    rintro _ rfl
    have hp : Placed s v c w d.scene ({ s₁ with
        scene := s₁.scene.reparent c.sceneTree d.scene }.setView v
          (some { c with workspace := some w })) := hs₁.placed hm
    have hw : s.wsNode w = some d.scene := by
      rw [← unlink_wsNode (v := v), wsNode, hd]
      rfl
    obtain ⟨c', hview, htree, hmapped', -⟩ := hp.view
    have hparent : ∀ u c₀, s.view u = some c₀ → u ≠ v →
        (s₁.scene.reparent c.sceneTree d.scene).parent c₀.sceneTree =
          s.scene.parent c₀.sceneTree := by
      intro u c₀ hu huv
      have hscene : s₁.scene.reparent c.sceneTree d.scene =
          s.scene.reparent c.sceneTree d.scene := hp.scene
      rw [hscene, Forest.reparent_parent_of_ne fun hsame => huv (h.viewInj u v c₀ c hu hc hsame)]
    have hself : (s₁.scene.reparent c.sceneTree d.scene).parent c'.sceneTree = some d.scene := by
      rw [htree, Forest.reparent_parent_self]
    refine Ensures.ok ⟨h.placed hc hw hp, ⟨hp.same, hp.node, fun u c₀ hu => ?_,
      fun x d' hx hd' => ?_⟩,
      fun c₀ hc₀ => ?_⟩
    · obtain ⟨rfl, hd'⟩ | ⟨huv, hu⟩ := view_update hview hu
      · obtain rfl := Option.some.inj hd'
        exact ⟨c, hc, htree, hmapped'.trans hm.symm, .inr ⟨hne, w, _, hcw, hw, hself⟩⟩
      · exact ⟨c₀, hu, rfl, rfl, .inl (hparent u c₀ hu huv)⟩
    · have hxw : x ≠ w := fun hxw => hx hne (by rw [hxw, hcw])
      have hs₁x : s₁.ws x = some d' := hd'
      rw [hs₁.other x hxw] at hs₁x
      obtain ⟨d₀, hd₀, rfl⟩ := Option.map_eq_some_iff.mp hs₁x
      exact ⟨d₀, hd₀, fun u hu => (List.mem_filter.mp hu).1, fun u hu => (List.mem_filter.mp hu).1⟩
    · rw [hview, Function.update_self] at hc₀
      obtain rfl := Option.some.inj hc₀
      rw [hp.same.outputs, hp.same.cwOf, hp.node]
      exact ⟨hne, w, _, hcw, hw, hself⟩

/-- All views of a list are freed or move to the current workspace. -/
theorem foldlM_rescue {l : List ℕ} (h : s.Hung) (hcw : s.cwOf = some w)
    (hmapped : ∀ v ∈ l, ∀ c, s.view v = some c → c.mapped = true) :
    Ensures (l.foldlM (rescue w managed) s) fun s' =>
      s'.Hung ∧ Rescued s s' ∧ ∀ v ∈ l, s'.Moved v := by
  induction l generalizing s with
  | nil => exact Ensures.ok ⟨h, .refl s, fun v hv => absurd hv List.not_mem_nil⟩
  | cons v l ih =>
    rw [List.foldlM_cons]
    refine Ensures.bind (rescue_spec h hcw (hmapped v List.mem_cons_self)) ?_
    rintro s₁ ⟨h₁, hr₁, hv₁⟩
    have hmapped₁ : ∀ u ∈ l, ∀ c, s₁.view u = some c → c.mapped = true := by
      intro u hu c hc
      obtain ⟨c₀, hc₀, -, hm, -⟩ := hr₁.view u c hc
      rw [hm]
      exact hmapped u (List.mem_cons_of_mem _ hu) c₀ hc₀
    refine (ih h₁ (hr₁.same.cwOf.trans hcw) hmapped₁).mono ?_
    rintro s₂ ⟨h₂, hr₂, hl₂⟩
    refine ⟨h₂, hr₁.trans hr₂, fun u hu => ?_⟩
    obtain rfl | hu := List.mem_cons.mp hu
    · exact hr₂.moved hv₁
    · exact hl₂ u hu

theorem Hung.mapped_of_links (h : s.Hung) (hl : s.Links w v) (hc : s.view v = some c) :
    c.mapped = true := by
  obtain ⟨c', hc', hm, -⟩ := h.linked w v hl
  rw [Option.some.inj (hc.symm.trans hc')]
  exact hm

/-- The views that hang below the workspace are mapped. -/
def AllMapped (s : SceneServer) (w : ℕ) : Prop :=
  ∀ v c n, s.view v = some c → s.wsNode w = some n →
    s.scene.parent c.sceneTree = some n → c.mapped = true

/-- **Clearing a workspace.**  All its mapped views leave it, unless it is the
current one. -/
theorem clearWs_spec (h : s.Hung) : Ensures (clearWs o s i) fun s' => s'.Hung ∧ Rescued s s' ∧
    ∀ w, s.wsAt o i = .ok w → s.AllMapped w → (s.outputs ≠ [] → s.cwOf ≠ some w) →
      s'.NoneUnder w := by
  rw [clearWs]
  refine Ensures.bind_any fun w hw => Ensures.bind currWs_spec fun cw hcw =>
    Ensures.nonNull fun d hd => ?_
  have hlinks : ∀ v, v ∈ d.views ∨ v ∈ d.unmanagedViews → s.Links w v := fun v hv => ⟨d, hd, hv⟩
  refine Ensures.bind (foldlM_rescue h hcw.1 fun v hv c hc =>
    h.mapped_of_links (hlinks v (.inl hv)) hc) ?_
  rintro s₁ ⟨h₁, hr₁, hl₁⟩
  refine Ensures.nonNull fun d₁ hd₁ => ?_
  have hlinks₁ : ∀ v, v ∈ d₁.views ∨ v ∈ d₁.unmanagedViews → s₁.Links w v :=
    fun v hv => ⟨d₁, hd₁, hv⟩
  refine (foldlM_rescue h₁ (hr₁.same.cwOf.trans hcw.1) fun v hv c hc =>
    h₁.mapped_of_links (hlinks₁ v (.inr hv)) hc).mono ?_
  rintro s₂ ⟨h₂, hr₂, hl₂⟩
  refine ⟨h₂, hr₁.trans hr₂, fun w' hw' hall hne => ?_⟩
  obtain rfl : w = w' := Except.ok.inj (hw.symm.trans hw')
  intro v c n hc hn hpar
  have hn₁ : s₁.wsNode w = some n := by rw [← hr₂.node]; exact hn
  have hn₀ : s.wsNode w = some n := by rw [← hr₁.node]; exact hn₁
  have hmoved : ¬ s₂.Moved v := by
    refine h₂.not_moved hc hn hpar ?_
    rw [hr₂.same.outputs, hr₁.same.outputs, hr₂.same.cwOf, hr₁.same.cwOf]
    exact hne
  obtain ⟨c₁, hc₁, -, hpar₁⟩ := hr₂.parent_of hc hpar hmoved
  obtain ⟨c₀, hc₀, hm₀, hpar₀⟩ := hr₁.parent_of hc₁ hpar₁ fun hv => hmoved (hr₂.moved hv)
  -- so that it was in one of the lists
  have hm₁ : c₁.mapped = true := hm₀.trans (hall v c₀ n hc₀ hn₀ hpar₀)
  obtain ⟨d', hd', hv | hv⟩ := h₁.links_of_parent hc₁ hm₁ hn₁ hpar₁
  · obtain ⟨d₀, hd₀, hviews, -⟩ := hr₁.lists w d' hne hd'
    obtain rfl := Option.some.inj (hd.symm.trans hd₀)
    exact hmoved (hr₂.moved (hl₁ v (hviews v hv)))
  · obtain rfl := Option.some.inj (hd₁.symm.trans hd')
    exact hmoved (hl₂ v hv)

theorem Rescued.noneUnder (hr : Rescued s s') (h' : s'.Hung) (hnone : s.NoneUnder w)
    (hne : s.outputs ≠ [] → s.cwOf ≠ some w) : s'.NoneUnder w := by
  intro v c n hc hw hpar
  have hmoved : ¬ s'.Moved v := h'.not_moved hc hw hpar
    (by rw [hr.same.outputs, hr.same.cwOf]; exact hne)
  obtain ⟨c₀, hc₀, -, hpar₀⟩ := hr.parent_of hc hpar hmoved
  rw [hr.node] at hw
  exact hnone v c₀ n hc₀ hw hpar₀

theorem Rescued.allMapped (hr : Rescued s s') (h' : s'.Hung) (hall : s.AllMapped w)
    (hne : s.outputs ≠ [] → s.cwOf ≠ some w) : s'.AllMapped w := by
  intro v c n hc hw hpar
  have hmoved : ¬ s'.Moved v := h'.not_moved hc hw hpar
    (by rw [hr.same.outputs, hr.same.cwOf]; exact hne)
  obtain ⟨c₀, hc₀, hm, hpar₀⟩ := hr.parent_of hc hpar hmoved
  rw [hr.node] at hw
  rw [hm]
  exact hall v c₀ n hc₀ hw hpar₀

theorem SameOutputs.wsAt (h : SameOutputs s s') : s'.wsAt o i = s.wsAt o i := by
  rw [SceneServer.wsAt, SceneServer.wsAt, h.out]

/-- The views below the workspace are mapped, and it is not where they go. -/
def Leaves (s : SceneServer) (w : ℕ) : Prop :=
  s.AllMapped w ∧ (s.outputs ≠ [] → s.cwOf ≠ some w)

/-- All workspaces of an output are cleared. -/
theorem foldlM_clearWs {l : List ℕ} (h : s.Hung) : Ensures (l.foldlM (clearWs o) s) fun s' =>
    s'.Hung ∧ Rescued s s' ∧ ((∀ i ∈ l, ∀ w, s.wsAt o i = .ok w → s.Leaves w) →
      ∀ i ∈ l, ∀ w, s.wsAt o i = .ok w → s'.NoneUnder w) := by
  induction l generalizing s with
  | nil => exact Ensures.ok ⟨h, .refl s, fun _ i hi => absurd hi List.not_mem_nil⟩
  | cons i l ih =>
    rw [List.foldlM_cons]
    refine Ensures.bind (clearWs_spec h) ?_
    rintro s₁ ⟨h₁, hr₁, hnone₁⟩
    refine (ih h₁).mono ?_
    rintro s₂ ⟨h₂, hr₂, hnone₂⟩
    refine ⟨h₂, hr₁.trans hr₂, fun hleaves j hj w hw => ?_⟩
    have hleaves₁ : ∀ k ∈ l, ∀ x, s₁.wsAt o k = .ok x → s₁.Leaves x := by
      intro k hk x hx
      rw [hr₁.same.wsAt] at hx
      obtain ⟨hall, hne⟩ := hleaves k (List.mem_cons_of_mem _ hk) x hx
      refine ⟨hr₁.allMapped h₁ hall hne, ?_⟩
      rw [hr₁.same.outputs, hr₁.same.cwOf]
      exact hne
    obtain rfl | hj := List.mem_cons.mp hj
    · obtain ⟨hall, hne⟩ := hleaves j List.mem_cons_self w hw
      refine hr₂.noneUnder h₂ (hnone₁ w hw hall hne) ?_
      rw [hr₁.same.outputs, hr₁.same.cwOf]
      exact hne
    · exact hnone₂ hleaves₁ j hj w (by rw [hr₁.same.wsAt]; exact hw)

/-- No view is in a list of a workspace that no view hangs below. -/
theorem Hung.lists_nil (h : s.Hung) (hnone : s.NoneUnder w) {d : SceneWs} (hd : s.ws w = some d) :
    d.views = [] ∧ d.unmanagedViews = [] := by
  have hw : s.wsNode w = some d.scene := by
    rw [wsNode, hd]
    rfl
  have hno : ∀ v, ¬ s.Links w v := by
    intro v hl
    obtain ⟨c, hc, -, hpar⟩ := h.parent_of_links hl hw
    exact hnone v c _ hc hw hpar
  refine ⟨List.eq_nil_iff_forall_not_mem.mpr fun v hv => hno v ⟨d, hd, .inl hv⟩,
    List.eq_nil_iff_forall_not_mem.mpr fun v hv => hno v ⟨d, hd, .inr hv⟩⟩

/-- An output without views is left as it is. -/
theorem foldlM_clearWs_none {l : List ℕ} (h : s.Hung)
    (hnone : ∀ i ∈ l, ∀ w, s.wsAt o i = .ok w → s.NoneUnder w) :
    Ensures (l.foldlM (clearWs o) s) (· = s) := by
  refine Ensures.foldlM (I := (· = s)) (fun t i hi ht => ?_) rfl
  subst ht
  rw [clearWs]
  refine Ensures.bind_any fun w hw => Ensures.bind_any fun cw _ => Ensures.nonNull fun d hd => ?_
  obtain ⟨hviews, hunmanaged⟩ := h.lists_nil (hnone i hi w hw) hd
  rw [hviews]
  refine Ensures.bind (P := (· = t)) (Ensures.ok rfl) ?_
  rintro _ rfl
  refine Ensures.nonNull fun d' hd' => ?_
  rw [← Option.some.inj (hd.symm.trans hd'), hunmanaged]
  exact Ensures.ok rfl

/-! ### Outputs -/

/-- The fields that `Hung` speaks of. -/
theorem Hung.congr (h : s.Hung) (hscene : s'.scene = s.scene) (hws : s'.ws = s.ws)
    (hview : s'.view = s.view) (hwsTop : s'.wsTop = s.wsTop) (hviewTop : s'.viewTop = s.viewTop) :
    s'.Hung := by
  have hnode : s'.wsNode = s.wsNode := by
    funext w
    rw [wsNode, wsNode, hws]
  have hlinks : ∀ w v, s'.Links w v ↔ s.Links w v := by
    intro w v
    rw [Links, Links, hws]
  constructor
  · rw [hscene]
    exact h.root
  · rw [hscene]
    exact h.top
  · rw [hscene, hnode]
    exact h.tree
  · rw [hnode]
    exact h.wsInj
  · rw [hscene, hview]
    exact h.node
  · rw [hview]
    exact h.viewInj
  · rw [hview, hnode]
    exact h.apart
  · rw [hview, hnode, hscene]
    intro v c hc
    obtain ⟨w, n, hw, hpar, hmap⟩ := h.parent v c hc
    exact ⟨w, n, hw, hpar, fun hm => ⟨(hmap hm).1, (hlinks w v).mpr (hmap hm).2⟩⟩
  · rw [hview]
    exact fun w v hl => h.linked w v ((hlinks w v).mp hl)
  · rw [hnode, hwsTop]
    exact h.wsFresh
  · rw [hview, hviewTop]
    exact h.viewFresh

theorem Arrayed.mono (h : s.Arrayed)
    (hout : ∀ o c, s'.out o = some c → ∃ c₀, s.out o = some c₀ ∧
      ∀ w, some w ∈ c.workspaces → some w ∈ c₀.workspaces)
    (hwsTop : s.wsTop ≤ s'.wsTop) (houtTop : s.outTop ≤ s'.outTop) : s'.Arrayed := by
  refine ⟨fun o p c d w hc hd hw hw' => ?_, fun o c w hc hw => ?_, fun o c hc => ?_⟩
  · obtain ⟨c₀, hc₀, hsub⟩ := hout o c hc
    obtain ⟨d₀, hd₀, hsub'⟩ := hout p d hd
    exact h.disjoint o p c₀ d₀ w hc₀ hd₀ (hsub w hw) (hsub' w hw')
  · obtain ⟨c₀, hc₀, hsub⟩ := hout o c hc
    exact (h.wsFresh o c₀ w hc₀ (hsub w hw)).trans_le hwsTop
  · obtain ⟨c₀, hc₀, -⟩ := hout o c hc
    exact (h.outFresh o c₀ hc₀).trans_le houtTop

theorem Arrayed.congr (h : s.Arrayed) (hout : s'.out = s.out) (hwsTop : s'.wsTop = s.wsTop)
    (houtTop : s'.outTop = s.outTop) : s'.Arrayed :=
  h.mono (fun o c hc => ⟨c, by rwa [hout] at hc, fun _ hw => hw⟩) hwsTop.ge houtTop.ge

theorem Known.congr (h : s.Known) (hout : s'.outputs = s.outputs)
    (hdis : s'.disabledOutputs = s.disabledOutputs) (htop : s'.outTop = s.outTop) : s'.Known := by
  constructor
  · rw [hout]
    exact h.outputs
  · rw [hdis]
    exact h.disabled
  · rw [hout, hdis]
    exact h.disjoint
  · rw [hout, hdis, htop]
    exact h.fresh

theorem setOutput_spec : Ensures (s.setOutput o) (· = { s with currOutput := some o }) :=
  Ensures.bind_any fun _ _ => Ensures.ok rfl

/-- Turning to the next output leaves the output that is the current one. -/
theorem keybindingCycleOutputs_spec (reverse : Bool) :
    Ensures (s.keybindingCycleOutputs reverse) fun s' => ∃ c, s' = { s with currOutput := some c } ∧
      (s.Known → s.currOutput = some o → 1 < s.outputs.length → reverse = false → c ≠ o) := by
  rw [keybindingCycleOutputs]
  refine Ensures.nonNull fun old hold => Ensures.bind
    (P := fun c => s.Known → s.currOutput = some o →
    1 < s.outputs.length → reverse = false → c ≠ o) ?_ fun c hc => ?_
  · rw [nextOutput]
    refine Ensures.ite (fun hmem c hc hk ho hlen hrev => ?_) fun hmem c hc hk ho hlen hrev => ?_
    · obtain rfl : old = o := Option.some.inj (hold.symm.trans ho)
      rw [hrev, nonNull_eq_ok] at hc
      exact ne_of_after_or_head hk.outputs hlen hc hmem
    · obtain rfl : old = o := Option.some.inj (hold.symm.trans ho)
      rw [hrev, nonNull_eq_ok] at hc
      rintro rfl
      have hc' : after c s.disabledOutputs = some c := hc
      obtain ⟨l₁, l₂, hl, hl₁⟩ := List.eq_append_cons_of_mem (mem_of_after hc')
      have hnd := hk.disabled
      rw [hl] at hnd hc'
      rw [after_append hl₁] at hc'
      exact (List.nodup_cons.mp (List.nodup_append.mp hnd).2.1).1 (List.mem_of_head? hc')
  · exact setOutput_spec.mono fun s' hs' => ⟨c, hs', hc⟩

/-- The views of an output can be brought to another one, or there is none. -/
def Leavable (s : SceneServer) (o : ℕ) : Prop :=
  s.outputs.erase o = [] ∨ s.currOutput ≠ some o ∨ 1 < s.outputs.length

/-- The view hangs below the workspace `i` of the output. -/
def UnderOutput (s : SceneServer) (o : ℕ) (c : SceneView) : Prop :=
  ∃ i, i < s.nws ∧ ∃ w n, s.wsAt o i = .ok w ∧ s.wsNode w = some n ∧
    s.scene.parent c.sceneTree = some n

theorem wsAt_mem (h : s.wsAt o i = .ok w) : ∃ c, s.out o = some c ∧ some w ∈ c.workspaces := by
  rw [wsAt] at h
  obtain ⟨c, hc, h⟩ := bind_eq_ok.mp h
  obtain ⟨entry, hentry, h⟩ := bind_eq_ok.mp h
  rw [nonNull_eq_ok] at hc hentry h
  subst h
  exact ⟨c, hc, List.mem_of_getElem? hentry⟩

theorem cwOf_mem (h : s.cwOf = some w) : ∃ o c, s.currOutput = some o ∧ s.out o = some c ∧
    some w ∈ c.workspaces := by
  simp only [cwOf, Option.bind_eq_bind, Option.bind_eq_some_iff] at h
  obtain ⟨o, ho, c, hc, entry, hentry, rfl⟩ := h
  exact ⟨o, c, ho, hc, List.mem_of_getElem? hentry⟩

/-- What `output_clear` leaves. -/
structure Cleared (s : SceneServer) (o : ℕ) (s' : SceneServer) : Prop where
  hung : s'.Hung
  node : s'.wsNode = s.wsNode
  out : s'.out = s.out
  outputs : s'.outputs = s.outputs.erase o
  disabled : s'.disabledOutputs = s.disabledOutputs.erase o
  nws : s'.nws = s.nws
  wsTop : s'.wsTop = s.wsTop
  outTop : s'.outTop = s.outTop
  none : (∀ v c, s.view v = some c → s.UnderOutput o c → c.mapped = true ∧ s.Leavable o) →
    ∀ i, i < s.nws → ∀ w, s.wsAt o i = .ok w → s'.NoneUnder w

theorem outputClear_spec (h : s.Hung) (ha : s.Arrayed) (hk : s.Known) :
    Ensures (s.outputClear o) (s.Cleared o) := by
  rw [outputClear]
  refine Ensures.bind (P := fun s₁ => ∃ c, s₁ = { s with currOutput := c } ∧
    (s.Leavable o → s.outputs.erase o ≠ [] → c ≠ some o)) ?_ ?_
  · refine Ensures.ite (fun hturn => ?_) fun hstay => Ensures.ok ⟨s.currOutput, rfl, ?_⟩
    · refine (keybindingCycleOutputs_spec (o := o) false).mono ?_
      rintro s₁ ⟨c, rfl, hc⟩
      refine ⟨some c, rfl, fun _ _ hco => ?_⟩
      exact hc hk hturn.1 hturn.2 rfl (Option.some.inj hco)
    · rintro (hnil | hne | hlen) hne' ho
      · exact hne' hnil
      · exact hne ho
      · exact hstay ⟨ho, hlen⟩
  rintro _ ⟨c, rfl, hc⟩
  -- the state in which the workspaces are visited
  generalize hs₁ : ({ s with
    currOutput := c
    outputs := s.outputs.erase o
    disabledOutputs := s.disabledOutputs.erase o } : SceneServer) = s₁
  have h₁ : s₁.Hung := by
    subst hs₁
    exact h.congr rfl rfl rfl rfl rfl
  have hwsAt : ∀ i, s₁.wsAt o i = s.wsAt o i := by
    subst hs₁
    exact fun _ => rfl
  have hnws : s₁.nws = s.nws := by rw [← hs₁]
  by_cases hany : ∃ v c', s.view v = some c' ∧ s.UnderOutput o c'
  · obtain ⟨v₀, c₀, hv₀, hunder₀⟩ := hany
    refine (foldlM_clearWs (o := o) (l := List.range s₁.nws) h₁).mono ?_
    rintro s₂ ⟨h₂, hr₂, hnone₂⟩
    have hsame := hr₂.same
    refine ⟨h₂, ?_, ?_, ?_, ?_, ?_, ?_, ?_, fun hcond i hi w hw => ?_⟩
    · rw [hr₂.node, ← hs₁]
      rfl
    · rw [hsame.out, ← hs₁]
    · rw [hsame.outputs, ← hs₁]
    · rw [hsame.disabledOutputs, ← hs₁]
    · rw [hsame.nws, hnws]
    · rw [hsame.wsTop, ← hs₁]
    · rw [hsame.outTop, ← hs₁]
    · have hleav := (hcond v₀ c₀ hv₀ hunder₀).2
      refine hnone₂ (fun j hj x hx => ⟨fun v c' n hc' hn hpar => ?_, fun hne hcw => ?_⟩) i
        (List.mem_range.mpr (by rw [hnws]; exact hi)) w (by rw [hwsAt]; exact hw)
      · rw [List.mem_range, hnws] at hj
        rw [hwsAt] at hx
        subst hs₁
        exact (hcond v c' hc' ⟨j, hj, x, n, hx, hn, hpar⟩).1
      · -- the current workspace is on another output
        rw [hwsAt] at hx
        obtain ⟨q, d, hq, hd, hmem⟩ := cwOf_mem hcw
        obtain ⟨d', hd', hmem'⟩ := wsAt_mem hx
        subst hs₁
        obtain rfl := ha.disjoint q o d d' x hd hd' hmem hmem'
        exact hc hleav hne hq
  · have hnone : ∀ i, i < s.nws → ∀ w, s.wsAt o i = .ok w → s.NoneUnder w :=
      fun i hi w hw v c' n hc' hn hpar => hany ⟨v, c', hc', i, hi, w, n, hw, hn, hpar⟩
    refine (foldlM_clearWs_none (o := o) (l := List.range s₁.nws) h₁ fun i hi w hw => ?_).mono ?_
    · rw [List.mem_range, hnws] at hi
      rw [hwsAt] at hw
      subst hs₁
      exact hnone i hi w hw
    · rintro _ rfl
      subst hs₁
      exact ⟨h₁, rfl, rfl, rfl, rfl, rfl, rfl, rfl, fun _ => hnone⟩

/-- Only workspaces have been freed. -/
structure Freed (s s' : SceneServer) : Prop where
  node : ∀ w n, s'.wsNode w = some n → s.wsNode w = some n
  view : s'.view = s.view
  parent : s'.scene.parent = s.scene.parent
  same : SameOutputs s s'

theorem Freed.refl (s : SceneServer) : Freed s s := ⟨fun _ _ h => h, rfl, rfl, .refl s⟩

theorem Freed.trans {s'' : SceneServer} (h : Freed s s') (h' : Freed s' s'') : Freed s s'' :=
  ⟨fun w n hw => h.node w n (h'.node w n hw), h'.view.trans h.view, h'.parent.trans h.parent,
    h.same.trans h'.same⟩

theorem Freed.noneUnder (h : Freed s s') (hnone : s.NoneUnder w) : s'.NoneUnder w := by
  intro v c n hc hw
  rw [h.view] at hc
  rw [h.parent]
  exact hnone v c n hc (h.node w n hw)

theorem workspaceFree_spec (h : s.Hung) (hnone : s.NoneUnder w) :
    Ensures (s.workspaceFree w) fun s' => s'.Hung ∧ Freed s s' := by
  refine (h.workspaceFree hnone).mono ?_
  rintro _ ⟨h', n, hn, rfl⟩
  refine ⟨h', fun x m hx => ?_, rfl, rfl, rfl, rfl, rfl, rfl, rfl, rfl, rfl, rfl⟩
  have hx' : (Function.update s.ws w none x).map SceneWs.scene = some m := hx
  by_cases hxw : x = w
  · subst hxw
    rw [Function.update_self] at hx'
    cases hx'
  · rw [Function.update_of_ne hxw] at hx'
    exact hx'

/-- A loop that frees workspaces of an output below which no view hangs. -/
theorem foldlM_freed {f : SceneServer → ℕ → Exec SceneServer} {l : List ℕ}
    (hf : ∀ (s : SceneServer) (i : ℕ), s.Hung → (∀ w, s.wsAt o i = .ok w → s.NoneUnder w) →
      Ensures (f s i) fun s' => s'.Hung ∧ Freed s s')
    (h : s.Hung) (hnone : ∀ i ∈ l, ∀ w, s.wsAt o i = .ok w → s.NoneUnder w) :
    Ensures (l.foldlM f s) fun s' => s'.Hung ∧ Freed s s' := by
  induction l generalizing s with
  | nil => exact Ensures.ok ⟨h, .refl s⟩
  | cons i l ih =>
    rw [List.foldlM_cons]
    refine Ensures.bind (hf s i h (hnone i List.mem_cons_self)) ?_
    rintro s₁ ⟨h₁, hf₁⟩
    refine (ih h₁ fun j hj w hw => ?_).mono fun s₂ hs₂ => ⟨hs₂.1, hf₁.trans hs₂.2⟩
    rw [hf₁.same.wsAt] at hw
    exact hf₁.noneUnder (hnone j (List.mem_cons_of_mem _ hj) w hw)

/-- What is kept by everything that happens. -/
structure Sound (s : SceneServer) : Prop where
  hung : s.Hung
  arrayed : s.Arrayed
  known : s.Known

theorem Cleared.sound (h : s.Cleared o s') (hs : s.Sound) : s'.Sound := by
  refine ⟨h.hung, hs.arrayed.congr h.out h.wsTop h.outTop, ?_⟩
  constructor
  · rw [h.outputs]
    exact hs.known.outputs.erase o
  · rw [h.disabled]
    exact hs.known.disabled.erase o
  · rw [h.outputs, h.disabled]
    exact fun p hp hp' => hs.known.disjoint p (List.mem_of_mem_erase hp) (List.mem_of_mem_erase hp')
  · rw [h.outputs, h.disabled, h.outTop]
    exact fun p hp => hs.known.fresh p (hp.imp List.mem_of_mem_erase List.mem_of_mem_erase)

/-- **Removing an output.**  The views below its workspaces have to be mapped, and
there has to be another output for them. -/
theorem outputDestroy_spec (hs : s.Sound) (hcond : ∀ v c, s.view v = some c → s.UnderOutput o c →
    c.mapped = true ∧ s.Leavable o) : Ensures (s.outputDestroy o) Sound := by
  rw [outputDestroy]
  refine Ensures.bind (outputClear_spec hs.hung hs.arrayed hs.known) fun s₁ h₁ => ?_
  have hs₁ := h₁.sound hs
  have hnone : ∀ i ∈ List.range s₁.nws, ∀ w, s₁.wsAt o i = .ok w → s₁.NoneUnder w := by
    intro i hi w hw
    rw [List.mem_range, h₁.nws] at hi
    rw [wsAt, h₁.out] at hw
    exact h₁.none hcond i hi w hw
  refine Ensures.bind (foldlM_freed (o := o) (fun s i h hnone => Ensures.bind_any fun w hw =>
    workspaceFree_spec h (hnone w hw)) hs₁.hung hnone) ?_
  rintro s₂ ⟨h₂, hf₂⟩
  have ha₂ : s₂.Arrayed := hs₁.arrayed.congr hf₂.same.out hf₂.same.wsTop hf₂.same.outTop
  have hk₂ : s₂.Known := hs₁.known.congr hf₂.same.outputs hf₂.same.disabledOutputs hf₂.same.outTop
  refine Ensures.ok ⟨h₂.congr rfl rfl rfl rfl rfl, ha₂.mono (fun p c hc => ⟨c, ?_, fun _ hw => hw⟩)
    le_rfl le_rfl, hk₂.congr rfl rfl rfl⟩
  have hc' : Function.update s₂.out o none p = some c := hc
  by_cases hpo : p = o
  · subst hpo
    rw [Function.update_self] at hc'
    cases hc'
  · rwa [Function.update_of_ne hpo] at hc'

theorem Sound.congr (h : s.Sound) (hscene : s'.scene = s.scene) (hws : s'.ws = s.ws)
    (hview : s'.view = s.view) (hsame : SameOutputs s s') : s'.Sound :=
  ⟨h.hung.congr hscene hws hview hsame.wsTop hsame.viewTop,
    h.arrayed.congr hsame.out hsame.wsTop hsame.outTop,
    h.known.congr hsame.outputs hsame.disabledOutputs hsame.outTop⟩

theorem Sound.same (h : s.Sound) (h' : s'.Hung) (hsame : SameOutputs s s') : s'.Sound :=
  ⟨h', h.arrayed.congr hsame.out hsame.wsTop hsame.outTop,
    h.known.congr hsame.outputs hsame.disabledOutputs hsame.outTop⟩

theorem Sound.turned (h : s.Sound) {c : Option ℕ} :
    ({ s with currOutput := c } : SceneServer).Sound :=
  ⟨h.hung.congr rfl rfl rfl rfl rfl, h.arrayed.congr rfl rfl rfl, h.known.congr rfl rfl rfl⟩

theorem outputDisable_spec (hs : s.Sound) (ho : o ∈ s.outputs ∨ o ∈ s.disabledOutputs) :
    Ensures (s.outputDisable o) Sound := by
  rw [outputDisable]
  refine Ensures.bind (outputClear_spec (o := o) hs.hung hs.arrayed hs.known) fun s₁ h₁ => ?_
  have hs₁ := h₁.sound hs
  have hno : o ∉ s₁.outputs ∧ o ∉ s₁.disabledOutputs := by
    rw [h₁.outputs, h₁.disabled]
    exact ⟨fun hmem => (hs.known.outputs.mem_erase_iff.mp hmem).1 rfl,
      fun hmem => (hs.known.disabled.mem_erase_iff.mp hmem).1 rfl⟩
  refine Ensures.ok ⟨hs₁.hung.congr rfl rfl rfl rfl rfl, hs₁.arrayed.congr rfl rfl rfl,
    hs₁.known.outputs, List.nodup_cons.mpr ⟨hno.2, hs₁.known.disabled⟩, fun p hp hmem => ?_,
    fun p hp => ?_⟩
  · obtain rfl | hmem := List.mem_cons.mp hmem
    · exact hno.1 hp
    · exact hs₁.known.disjoint p hp hmem
  · obtain hp | hp := hp
    · exact hs₁.known.fresh p (.inl hp)
    · obtain rfl | hp := List.mem_cons.mp hp
      · show p < s₁.outTop
        rw [h₁.outTop]
        exact hs.known.fresh p ho
      · exact hs₁.known.fresh p (.inr hp)

theorem insertAt_perm {l : List ℕ} : (insertAt l k o).Perm (o :: l) := by
  have hperm : (l.take k ++ o :: l.drop k).Perm (o :: (l.take k ++ l.drop k)) := List.perm_middle
  rwa [List.take_append_drop] at hperm

/-- An output that is in no list is put among the enabled ones. -/
theorem Known.insertAt (h : s.Known) (ho : o < s'.outTop) (htop : s.outTop ≤ s'.outTop)
    (hno : o ∉ s.outputs ∧ o ∉ s.disabledOutputs) (hout : s'.outputs = insertAt s.outputs k o)
    (hdis : s'.disabledOutputs = s.disabledOutputs) : s'.Known := by
  have hmem : ∀ p, p ∈ s'.outputs ↔ p = o ∨ p ∈ s.outputs := by
    intro p
    rw [hout, insertAt_perm.mem_iff, List.mem_cons]
  constructor
  · rw [hout]
    exact insertAt_perm.nodup_iff.mpr (List.nodup_cons.mpr ⟨hno.1, h.outputs⟩)
  · rw [hdis]
    exact h.disabled
  · intro p hp
    rw [hdis]
    obtain rfl | hp := (hmem p).mp hp
    · exact hno.2
    · exact h.disjoint p hp
  · intro p hp
    rw [hmem, hdis, or_assoc] at hp
    obtain rfl | hp := hp
    · exact ho
    · exact (h.fresh p hp).trans_le htop

theorem outputEnable_sound (hs : s.Sound) (ho : o ∈ s.outputs ∨ o ∈ s.disabledOutputs) :
    (s.outputEnable o k).Sound := by
  have herase : ({ s with
      outputs := s.outputs.erase o
      disabledOutputs := s.disabledOutputs.erase o } : SceneServer).Known :=
    ⟨hs.known.outputs.erase o, hs.known.disabled.erase o,
      fun p hp hp' => hs.known.disjoint p (List.mem_of_mem_erase hp) (List.mem_of_mem_erase hp'),
      fun p hp => hs.known.fresh p (hp.imp List.mem_of_mem_erase List.mem_of_mem_erase)⟩
  refine ⟨hs.hung.congr rfl rfl rfl rfl rfl, hs.arrayed.congr rfl rfl rfl,
    herase.insertAt (k := k) (hs.known.fresh o ho) le_rfl ⟨fun hmem => ?_, fun hmem => ?_⟩ rfl rfl⟩
  · exact (hs.known.outputs.mem_erase_iff.mp hmem).1 rfl
  · exact (hs.known.disabled.mem_erase_iff.mp hmem).1 rfl

/-- A workspace is new, and in the array of its output only. -/
theorem Arrayed.addWorkspace (h : s.Arrayed) : (addWorkspace o s i).Arrayed := by
  have hout : ∀ p c w, (SceneServer.addWorkspace o s i).out p = some c → some w ∈ c.workspaces →
      w = s.wsTop ∧ p = o ∨ ∃ c₀, s.out p = some c₀ ∧ some w ∈ c₀.workspaces := by
    intro p c w hc hw
    have hc' : Function.update s.out o ((s.out o).map fun c =>
        { c with workspaces := c.workspaces.set i (some s.wsTop) }) p = some c := hc
    by_cases hpo : p = o
    · subst hpo
      rw [Function.update_self] at hc'
      obtain ⟨c₀, hc₀, rfl⟩ := Option.map_eq_some_iff.mp hc'
      obtain hw | hw := List.mem_or_eq_of_mem_set hw
      · exact .inr ⟨c₀, hc₀, hw⟩
      · exact .inl ⟨Option.some.inj hw, rfl⟩
    · rw [Function.update_of_ne hpo] at hc'
      exact .inr ⟨c, hc', hw⟩
  refine ⟨fun p q c d w hc hd hw hw' => ?_, fun p c w hc hw => ?_, fun p c hc => ?_⟩
  · obtain ⟨rfl, rfl⟩ | ⟨c₀, hc₀, hw₀⟩ := hout p c w hc hw
    · obtain ⟨-, rfl⟩ | ⟨d₀, hd₀, hw₀'⟩ := hout q d _ hd hw'
      · rfl
      · exact absurd (h.wsFresh q d₀ _ hd₀ hw₀') (Nat.lt_irrefl _)
    · obtain ⟨rfl, -⟩ | ⟨d₀, hd₀, hw₀'⟩ := hout q d w hd hw'
      · exact absurd (h.wsFresh p c₀ _ hc₀ hw₀) (Nat.lt_irrefl _)
      · exact h.disjoint p q c₀ d₀ w hc₀ hd₀ hw₀ hw₀'
  · obtain ⟨rfl, -⟩ | ⟨c₀, hc₀, hw₀⟩ := hout p c w hc hw
    · exact Nat.lt_succ_self _
    · exact (h.wsFresh p c₀ w hc₀ hw₀).trans (Nat.lt_succ_self _)
  · have hc' : Function.update s.out o ((s.out o).map fun c =>
        { c with workspaces := c.workspaces.set i (some s.wsTop) }) p = some c := hc
    by_cases hpo : p = o
    · subst hpo
      rw [Function.update_self] at hc'
      obtain ⟨c₀, hc₀, -⟩ := Option.map_eq_some_iff.mp hc'
      exact h.outFresh p c₀ hc₀
    · rw [Function.update_of_ne hpo] at hc'
      exact h.outFresh p c hc'

theorem foldl_addWorkspace {l : List ℕ} (h : s.Sound) : (l.foldl (addWorkspace o) s).Sound ∧
    (l.foldl (addWorkspace o) s).outputs = s.outputs ∧
    ∀ p, p ≠ o → (l.foldl (addWorkspace o) s).out p = s.out p := by
  induction l generalizing s with
  | nil => exact ⟨h, rfl, fun _ _ => rfl⟩
  | cons i l ih =>
    obtain ⟨hs, hout, hp⟩ := ih (s := addWorkspace o s i)
      ⟨h.hung.addWorkspace, h.arrayed.addWorkspace, h.known.congr rfl rfl rfl⟩
    exact ⟨hs, hout, fun p hpo => (hp p hpo).trans (Function.update_of_ne hpo ..)⟩

theorem handleNewOutput_sound (hs : s.Sound) : (s.handleNewOutput k).Sound := by
  rw [handleNewOutput]
  refine (foldl_addWorkspace ?_).1
  have hno : s.outTop ∉ s.outputs ∧ s.outTop ∉ s.disabledOutputs := by
    rw [← not_or]
    exact fun ho => absurd (hs.known.fresh _ ho) (Nat.lt_irrefl _)
  have hout : ∀ p c,
      Function.update s.out s.outTop (some ⟨List.replicate s.nws none, 0⟩) p = some c →
      (∀ w, some w ∉ c.workspaces) ∧ p < s.outTop + 1 ∨ s.out p = some c := by
    intro p c hc
    by_cases hpo : p = s.outTop
    · subst hpo
      rw [Function.update_self] at hc
      obtain rfl := Option.some.inj hc
      refine .inl ⟨fun w hw => ?_, Nat.lt_succ_self _⟩
      exact nomatch List.eq_of_mem_replicate hw
    · rw [Function.update_of_ne hpo] at hc
      exact .inr hc
  refine ⟨hs.hung.congr rfl rfl rfl rfl rfl, ⟨fun p q c d w hc hd hw hw' => ?_,
    fun p c w hc hw => ?_, fun p c hc => ?_⟩,
    hs.known.insertAt (k := k) (Nat.lt_succ_self _) (Nat.le_succ _) hno rfl rfl⟩
  · obtain ⟨hnil, -⟩ | hc := hout p c hc
    · exact absurd hw (hnil w)
    · obtain ⟨hnil, -⟩ | hd := hout q d hd
      · exact absurd hw' (hnil w)
      · exact hs.arrayed.disjoint p q c d w hc hd hw hw'
  · obtain ⟨hnil, -⟩ | hc := hout p c hc
    · exact absurd hw (hnil w)
    · exact hs.arrayed.wsFresh p c w hc hw
  · obtain ⟨-, hlt⟩ | hc := hout p c hc
    · exact hlt
    · exact (hs.arrayed.outFresh p c hc).trans (Nat.lt_succ_self _)

/-! ### The number of workspaces -/

/-- A workspace without views is removed: there is nothing to take along. -/
theorem removeWs_spec {nws : ℕ} (h : s.Hung) (hnone : ∀ w, s.wsAt o i = .ok w → s.NoneUnder w) :
    Ensures (removeWs nws o s i) fun s' => s'.Hung ∧ Freed s s' := by
  rw [removeWs]
  refine Ensures.bind_any fun w hw => Ensures.bind_any fun t _ => Ensures.nonNull fun d hd => ?_
  obtain ⟨hviews, hunmanaged⟩ := h.lists_nil (hnone w hw) hd
  rw [hviews]
  refine Ensures.bind (P := (· = s)) (Ensures.ok rfl) fun s₁ hs₁ => ?_
  subst hs₁
  refine Ensures.nonNull fun d' hd' => ?_
  rw [← Option.some.inj (hd.symm.trans hd'), hunmanaged]
  refine Ensures.bind (P := (· = s₁)) (Ensures.ok rfl) fun s₂ hs₂ => ?_
  subst hs₂
  exact workspaceFree_spec h (hnone w hw)

/-- Changing an output without new workspaces in its array. -/
theorem Sound.setOut (h : s.Sound) {c c' : SceneOut} (hc : s.out o = some c)
    (hsub : ∀ w, some w ∈ c'.workspaces → some w ∈ c.workspaces) :
    (s.setOut o (some c')).Sound := by
  refine ⟨h.hung.congr rfl rfl rfl rfl rfl, h.arrayed.mono (fun p d hd => ?_) le_rfl le_rfl,
    h.known.congr rfl rfl rfl⟩
  have hd' : Function.update s.out o (some c') p = some d := hd
  by_cases hpo : p = o
  · subst hpo
    rw [Function.update_self] at hd'
    obtain rfl := Option.some.inj hd'
    exact ⟨c, hc, hsub⟩
  · rw [Function.update_of_ne hpo] at hd'
    exact ⟨d, hd', fun _ hw => hw⟩

/-- No view hangs below the workspaces of the output that are removed. -/
def Removable (s : SceneServer) (oldNws nws o : ℕ) : Prop :=
  ∀ i, nws ≤ i → i < oldNws → ∀ w, s.wsAt o i = .ok w → s.NoneUnder w

theorem outputSetNws_spec {oldNws nws : ℕ} (hs : s.Sound) (hnone : s.Removable oldNws nws o) :
    Ensures (outputSetNws oldNws nws s o) fun s' => s'.Sound ∧ s'.outputs = s.outputs ∧
      ∀ p, p ≠ o → s.Removable oldNws nws p → s'.Removable oldNws nws p := by
  rw [outputSetNws]
  have hfree : ∀ i ∈ List.range' nws (oldNws - nws), ∀ w, s.wsAt o i = .ok w → s.NoneUnder w := by
    intro i hi
    rw [List.mem_range'_1] at hi
    exact hnone i hi.1 (by omega)
  refine Ensures.bind
    (foldlM_freed (o := o) (fun s i h hnone => removeWs_spec h hnone) hs.hung hfree) ?_
  rintro s₁ ⟨h₁, hf₁⟩
  have hs₁ : s₁.Sound := hs.same h₁ hf₁.same
  refine Ensures.nonNull fun c hc => ?_
  generalize hs₂ : s₁.setOut o (some { c with workspaces := resizeArray c.workspaces nws }) = s₂
  have hsound₂ : s₂.Sound := by
    rw [← hs₂]
    refine hs₁.setOut hc fun w hw => ?_
    rw [resizeArray, List.mem_append, List.mem_replicate] at hw
    obtain hw | ⟨-, hw⟩ := hw
    · exact List.mem_of_mem_take hw
    · cases hw
  obtain ⟨hsound₃, hout₃, hp₃⟩ :=
    foldl_addWorkspace (o := o) (l := List.range' oldNws (nws - oldNws)) hsound₂
  refine Ensures.nonNull fun c' hc' => Ensures.ok ⟨hsound₃.setOut hc' fun _ hw => hw, ?_,
    fun p hpo hrem i hi hlt w hw => ?_⟩
  · refine hout₃.trans ?_
    rw [← hs₂]
    exact hf₁.same.outputs
  · -- no workspace is added while some are removed
    have hnil : List.range' oldNws (nws - oldNws) = [] := by
      rw [Nat.sub_eq_zero_of_le (by omega)]
      rfl
    rw [hnil] at hw ⊢
    have hw₁ : s₁.wsAt p i = .ok w := by
      rw [← hw, ← hs₂, wsAt, wsAt]
      show _ = (nonNull (Function.update (Function.update s₁.out o _) o _ p) >>= _)
      rw [Function.update_of_ne hpo, Function.update_of_ne hpo]
    rw [hf₁.same.wsAt] at hw₁
    have hnone₁ := hf₁.noneUnder (hrem i hi hlt w hw₁)
    rw [← hs₂]
    exact hnone₁

theorem foldlM_outputSetNws {oldNws nws : ℕ} {l : List ℕ} (hnd : l.Nodup) (hs : s.Sound)
    (hrem : ∀ o ∈ l, s.Removable oldNws nws o) :
    Ensures (l.foldlM (outputSetNws oldNws nws) s) Sound := by
  induction l generalizing s with
  | nil => exact Ensures.ok hs
  | cons o l ih =>
    rw [List.foldlM_cons]
    refine Ensures.bind (outputSetNws_spec hs (hrem o List.mem_cons_self)) ?_
    rintro s₁ ⟨hs₁, -, hkeep⟩
    obtain ⟨ho, hnd⟩ := List.nodup_cons.mp hnd
    refine ih hnd hs₁ fun p hp => hkeep p ?_ (hrem p (List.mem_cons_of_mem _ hp))
    exact ne_of_mem_of_not_mem hp ho

theorem keybindingSetNws_spec {nws : ℕ} (hs : s.Sound)
    (hrem : ∀ o ∈ s.outputs, s.Removable s.nws nws o) :
    Ensures (s.keybindingSetNws nws) Sound := by
  rw [keybindingSetNws]
  have hs' : ({ s with nws } : SceneServer).Sound :=
    ⟨hs.hung.congr rfl rfl rfl rfl rfl, hs.arrayed.congr rfl rfl rfl, hs.known.congr rfl rfl rfl⟩
  exact Ensures.bind (foldlM_outputSetNws hs.known.outputs hs' hrem) fun s₁ hs₁ =>
    Ensures.bind_any fun _ _ => Ensures.ok hs₁

/-! ### Runs -/

theorem viewMap_spec (hs : s.Sound) (hv : ∀ c, s.view v = some c → c.mapped = false) :
    Ensures (s.viewMap v) Sound := by
  rw [viewMap]
  refine Ensures.nonNull fun c hc => Ensures.bind_any fun w _ => Ensures.nonNull fun d hd => ?_
  refine Ensures.bind reparent_spec ?_
  rintro _ rfl
  refine link_spec.mono ?_
  rintro _ ⟨hnode, hlinks, -, f, rfl⟩
  have hw : s.wsNode w = some d.scene := by
    rw [wsNode, hd]
    rfl
  have hp : Placed s v c w d.scene
      { { s with scene := s.scene.reparent c.sceneTree d.scene }.setView v
      (some { c with workspace := some w, mapped := true }) with ws := f } := by
    refine ⟨⟨_, rfl, rfl, rfl, rfl⟩, hnode, fun x u => (hlinks x u).trans (or_congr_left ?_), rfl,
      rfl, rfl, rfl, rfl, rfl, rfl, rfl, rfl⟩
    refine ⟨fun hl => ⟨?_, hl⟩, fun hl => hl.2⟩
    rintro rfl
    have hmapped := hs.hung.mapped_of_links (w := x) hl hc
    rw [hv c hc] at hmapped
    cases hmapped
  exact hs.same (hs.hung.placed hc hw hp) hp.same

theorem viewUnmap_spec (hs : s.Sound) : Ensures (s.viewUnmap v) fun s' => s'.Sound ∧
    ∀ c, s.view v = some c → c.mapped = true →
      s'.view v = some { c with mapped := false } := by
  rw [viewUnmap]
  refine Ensures.nonNull fun c hc => Ensures.nonNull fun w _ => Ensures.bind_any fun _ _ => ?_
  refine Ensures.ite (fun hm => Ensures.ok ⟨?_, fun c' hc' _ => ?_⟩) fun hm =>
    Ensures.ok ⟨hs, fun c' hc' hm' => ?_⟩
  · have hdraw : Withdrawn s v (some { c with mapped := false })
        ((s.unlink v).setView v (some { c with mapped := false })) := withdrawn_unlink
    refine hs.same (hs.hung.withdrawn hc (fun c' hc' => ?_) hdraw rfl) hdraw.same
    obtain rfl := Option.some.inj hc'
    exact ⟨rfl, rfl⟩
  · obtain rfl := Option.some.inj (hc.symm.trans hc')
    exact Function.update_self ..
  · obtain rfl := Option.some.inj (hc.symm.trans hc')
    exact absurd hm' hm

theorem viewDestroy_spec (hs : s.Sound) : Ensures (s.viewDestroy v) Sound := by
  rw [viewDestroy]
  refine Ensures.nonNull fun c hc => ?_
  refine Ensures.bind (P := fun s' => s'.Sound ∧ ∃ c', s'.view v = some c' ∧
    c'.mapped = false ∧ c'.sceneTree = c.sceneTree) ?_ ?_
  · refine Ensures.ite (fun hm => (viewUnmap_spec hs).mono ?_) fun hm =>
      Ensures.ok ⟨hs, c, hc, ?_, rfl⟩
    · rintro s' ⟨hs', hv⟩
      exact ⟨hs', _, hv c hc hm, rfl, rfl⟩
    · simpa using hm
  · rintro s₁ ⟨hs₁, c', hc', hm', htree⟩
    refine Ensures.deref fun _ => Ensures.bind_any fun _ _ => Ensures.ok ?_
    have hgone := hs₁.hung.destroyed hc' hm'
    rw [htree] at hgone
    exact hs₁.same hgone ⟨rfl, rfl, rfl, rfl, rfl, rfl, rfl, rfl⟩

theorem moveView_spec (hs : s.Sound) (hv : ∀ c, s.view v = some c → c.mapped = true) :
    Ensures (s.moveView v w) Sound := by
  rw [moveView]
  refine Ensures.nonNull fun c hc => Ensures.nonNull fun d hd =>
    Ensures.bind link_spec fun s₁ hs₁ => ?_
  refine Ensures.bind reparent_spec ?_
  rintro _ rfl
  have hw : s.wsNode w = some d.scene := by
    rw [wsNode, hd]
    rfl
  have hp : Placed s v c w d.scene _ := hs₁.placed (hv c hc)
  exact Ensures.ok (hs.same (hs.hung.placed hc hw hp) hp.same)

theorem shown_mapped (h : s.shown v = true) : ∀ c, s.view v = some c → c.mapped = true := by
  intro c hc
  rw [shown, hc, Option.any_some, Bool.and_eq_true] at h
  exact h.1

theorem keybindingMoveViewToCycleOutput_spec (hs : s.Sound) {v : Option ℕ} (reverse : Bool)
    (hv : v.all s.shown = true) : Ensures (s.keybindingMoveViewToCycleOutput v reverse) Sound := by
  rw [keybindingMoveViewToCycleOutput]
  refine Ensures.ite (fun _ => Ensures.ok hs) fun _ => ?_
  refine Ensures.bind (keybindingCycleOutputs_spec (o := 0) reverse) ?_
  rintro s₁ ⟨c, rfl, -⟩
  refine Ensures.ifSome (fun _ => hs.turned) ?_
  rintro v rfl
  exact Ensures.bind_any fun w _ => moveView_spec hs.turned (shown_mapped hv)

/-- The workspaces that are freed have no view below them, but for mapped views
of an output that is removed, which go to another one. -/
def Spares (s : SceneServer) : SceneEvent → Prop
  | .workspaces nws => ∀ o ∈ s.outputs, s.Removable s.nws nws o
  | .outputDestroy o => ∀ v c, s.view v = some c → s.UnderOutput o c →
    c.mapped = true ∧ s.Leavable o
  | _ => True

theorem step_sound (hs : s.Sound) (hok : s.Spares e) : Ensures (s.step e) Sound := by
  cases e with
  | outputNew k => exact Ensures.ok (handleNewOutput_sound hs)
  | outputDisable o => exact Ensures.deref fun ho => outputDisable_spec hs (of_decide_eq_true ho)
  | outputEnable o k =>
    exact Ensures.deref fun ho => Ensures.ok (outputEnable_sound hs (of_decide_eq_true ho))
  | outputDestroy o => exact Ensures.deref fun _ => outputDestroy_spec hs hok
  | workspaces nws => exact keybindingSetNws_spec hs hok
  | cycleOutputs reverse =>
    refine (keybindingCycleOutputs_spec (o := 0) reverse).mono ?_
    rintro _ ⟨c, rfl, -⟩
    exact hs.turned
  | switchOutput output =>
    show Ensures (s.keybindingSwitchOutput output) _
    rw [keybindingSwitchOutput]
    cases s.outputs[output - 1]? with
    | none => exact Ensures.ok hs
    | some o =>
      refine Ensures.ite (fun _ => Ensures.ok hs) fun _ => setOutput_spec.mono ?_
      rintro _ rfl
      exact hs.turned
  | switchWs i =>
    refine Ensures.ite (fun _ => Ensures.ok hs) fun _ => ?_
    exact Ensures.nonNull fun o _ => Ensures.nonNull fun c hc => Ensures.bind_any fun _ _ =>
      Ensures.ok (hs.setOut hc fun _ hw => hw)
  | viewNew managed =>
    refine hs.hung.viewInit.mono ?_
    rintro _ ⟨h', -, f, g, k, rfl⟩
    exact ⟨h', hs.arrayed.congr rfl rfl rfl, hs.known.congr rfl rfl rfl⟩
  | viewMap v =>
    refine Ensures.deref fun hv => viewMap_spec hs fun c hc => ?_
    rw [hc] at hv
    simpa using hv
  | viewUnmap v => exact Ensures.deref fun _ => (viewUnmap_spec hs).mono fun _ hs' => hs'.1
  | viewDestroy v => exact viewDestroy_spec hs
  | moveView v o i =>
    refine Ensures.deref fun hv => Ensures.bind_any fun w _ => moveView_spec hs (shown_mapped ?_)
    rw [Bool.and_eq_true, Bool.and_eq_true] at hv
    exact hv.1.1
  | moveViewToCycleOutput v reverse =>
    exact Ensures.deref fun hv => keybindingMoveViewToCycleOutput_spec hs reverse hv

theorem init_sound : init.Sound := by
  refine ⟨⟨rfl, Nat.one_pos, ?_, ?_, ?_, ?_, ?_, ?_, ?_, ?_, ?_⟩, ⟨?_, ?_, ?_⟩,
    List.nodup_nil, List.nodup_nil, ?_, ?_⟩
  all_goals simp [init, wsNode, Links]

/-- **The trees of the views.**  In every run in which a workspace is freed only
when no view hangs below it, but for mapped views of an output that is removed
while there is another one for them, the tree of each view is there, and that of
a mapped view hangs below the tree of its workspace. -/
theorem scene_nodes (hs : Steps step Spares init s) (hv : s.view v = some c) :
    s.scene.live c.sceneTree = true ∧ (c.mapped = true → ∃ w d, c.workspace = some w ∧
      s.ws w = some d ∧ s.scene.parent c.sceneTree = some d.scene) := by
  have h : s.Sound := hs.invariant init_sound fun t e ht hok => step_sound ht hok
  refine ⟨(h.hung.node v c hv).2.2, fun hm => ?_⟩
  obtain ⟨w, n, hw, hpar, hmap⟩ := h.hung.parent v c hv
  obtain ⟨d, hd, rfl⟩ := Option.map_eq_some_iff.mp hw
  exact ⟨w, d, (hmap hm).1, hd, hpar⟩

/-- A view is moved to a second output and comes back when that one is disabled. -/
theorem scene_nodes_disabled : ∃ s c d, Steps step Spares init s ∧ s.view 0 = some c ∧
    c.mapped = true ∧ c.workspace = some 0 ∧ s.ws 0 = some d ∧
    s.scene.live c.sceneTree = true ∧ s.scene.parent c.sceneTree = some d.scene := by
  have hret : returns (run step init [.outputNew 0, .viewNew true, .viewMap 0, .outputNew 1,
      .moveViewToCycleOutput (some 0) false, .outputDisable 1]) (fun s => (s.view 0).any fun c =>
        c.mapped && decide (c.workspace = some 0)) = true := by decide
  obtain ⟨s, hs, htest⟩ := exists_of_returns hret
  obtain ⟨c, hc, hmapped⟩ := (Option.any_eq_true ..).mp htest
  rw [Bool.and_eq_true, decide_eq_true_eq] at hmapped
  have hrun : Steps step Spares init s := by
    refine Steps.of_run hs fun e he t => ?_
    simp only [List.mem_cons, List.not_mem_nil, or_false] at he
    obtain rfl | rfl | rfl | rfl | rfl | rfl := he <;> trivial
  obtain ⟨hlive, hparent⟩ := scene_nodes hrun hc
  obtain ⟨w, d, hw, hd, hnode⟩ := hparent hmapped.1
  rw [hmapped.2] at hw
  obtain rfl := Option.some.inj hw
  exact ⟨s, c, d, hrun, hc, hmapped.1, hmapped.2, hd, hlive, hnode⟩

/-- A view on a workspace that is removed goes to another one, but its tree dies
with the tree of the former. -/
theorem scene_nodes_removed : ∃ s c, Steps step (fun _ _ => True) init s ∧
    s.view 0 = some c ∧ c.mapped = true ∧ s.scene.live c.sceneTree = false := by
  have hret : returns (run step init [.outputNew 0, .workspaces ⟨2, by decide⟩, .switchWs 1,
      .viewNew true, .viewMap 0, .workspaces ⟨1, by decide⟩]) (fun s => (s.view 0).any fun c =>
        c.mapped && !s.scene.live c.sceneTree) = true := by decide
  obtain ⟨s, hs, htest⟩ := exists_of_returns hret
  obtain ⟨c, hc, htest⟩ := (Option.any_eq_true ..).mp htest
  rw [Bool.and_eq_true, Bool.not_eq_true'] at htest
  exact ⟨s, c, Steps.of_run hs fun _ _ _ => trivial, hc, htest.1, htest.2⟩

end SceneServer

end Cagebreak
