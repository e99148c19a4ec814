/-
Managed views in managed lists.

Every workspace has a list for the views that are placed in tiles and one for the
others.  `ViewsInv` says that each of the two kinds keeps to its own lists, and
that tiles and the keyboard focus hold views of the first kind only.  It does not
say which workspace a list belongs to, and so it survives whatever becomes of the
rings that the lists form.

* `findView_spec`, `viewFromId_spec`, `viewGetPrevView_spec` — what a search in a
  list of managed views finds;
* `step_viewsInv` — every input keeps the invariant.
-/
import Cagebreak.Frame
import Cagebreak.Step

namespace Cagebreak

open Exec

namespace Views

variable {V : Views} {a b c n : Node} {v : ViewPtr} {w : WsPtr}

/-- A node that has been made. -/
def Known (V : Views) : Node → Prop
  | .head _ _ => True
  | .view v => v < V.viewTop

/-- The kind of list that a node belongs to. -/
def kind (V : Views) : Node → Bool
  | .head managed _ => managed
  | .view v => V.managed v

/-- Two nodes that may be in one list. -/
structure Alike (V : Views) (a b : Node) : Prop where
  left : V.Known a
  right : V.Known b
  kind : V.kind a = V.kind b

/-- Neighbours are of one kind. -/
structure ListsInv (V : Views) : Prop where
  next : ∀ a b, V.links.next a = some b → V.Alike a b
  prev : ∀ a b, V.links.prev a = some b → V.Alike a b
  live : ∀ v : ℕ, V.viewLive v = true → v < V.viewTop

/-- A view that may be put into a tile. -/
structure Manages (V : Views) (v : ViewPtr) : Prop where
  known : v < V.viewTop
  managed : V.managed v = true

theorem Alike.symm (h : V.Alike a b) : V.Alike b a := ⟨h.right, h.left, h.kind.symm⟩

theorem Alike.trans (h : V.Alike a b) (h' : V.Alike b c) : V.Alike a c :=
  ⟨h.left, h'.right, h.kind.trans h'.kind⟩

theorem Alike.manages (h : V.Alike (.head true w) (.view v)) : V.Manages v :=
  ⟨h.right, h.kind.symm⟩

theorem Manages.alike (h : V.Manages v) : V.Alike (.head true w) (.view v) :=
  ⟨trivial, h.known, h.managed.symm⟩

/-- The same views, whatever their links. -/
structure SameIdentity (V V' : Views) : Prop where
  top : V'.viewTop = V.viewTop
  attrs : V'.viewAttrs = V.viewAttrs

theorem SameIdentity.alike {V' : Views} (h : SameIdentity V V') (hab : V.Alike a b) :
    V'.Alike a b := by
  have hknown : ∀ n, V.Known n → V'.Known n := by
    intro n hn
    cases n with
    | head managed w => trivial
    | view v =>
      show v < V'.viewTop
      rw [h.top]
      exact hn
  have hkind : ∀ n, V'.kind n = V.kind n := by
    intro n
    cases n with
    | head managed w => rfl
    | view v => rw [kind, kind, managed, managed, h.attrs]
  exact ⟨hknown a hab.left, hknown b hab.right, by rw [hkind, hkind, hab.kind]⟩

theorem SameIdentity.manages {V' : Views} (h : SameIdentity V V') (hv : V.Manages v) :
    V'.Manages v :=
  (h.alike (hv.alike (w := 0))).manages

theorem SameIdentity.refl : SameIdentity V V := ⟨rfl, rfl⟩

theorem SameIdentity.trans {V' V'' : Views} (h : SameIdentity V V') (h' : SameIdentity V' V'') :
    SameIdentity V V'' :=
  ⟨h'.top.trans h.top, h'.attrs.trans h.attrs⟩

/-- Neighbours are of one kind in the links of another state with the same views. -/
theorem ListsInv.congr {V' : Views} (h : V.ListsInv) (hid : SameIdentity V V')
    (hlinks : V'.links = V.links) (hlive : ∀ v : ℕ, V'.viewLive v = true → v < V'.viewTop) :
    V'.ListsInv := by
  refine ⟨fun a b hab => hid.alike (h.next a b ?_), fun a b hab => hid.alike (h.prev a b ?_), hlive⟩
  · rw [← hlinks]
    exact hab
  · rw [← hlinks]
    exact hab

/-- Setting pointers between nodes of one kind. -/
theorem ListsInv.setLinks (h : V.ListsInv) {L : DLinks Node}
    (hnext : ∀ a b, L.next a = some b → V.links.next a = some b ∨ V.Alike a b)
    (hprev : ∀ a b, L.prev a = some b → V.links.prev a = some b ∨ V.Alike a b) :
    ({ V with links := L } : Views).ListsInv := by
  have hid : SameIdentity V { V with links := L } := ⟨rfl, rfl⟩
  refine ⟨fun a b hab => hid.alike ?_, fun a b hab => hid.alike ?_, h.live⟩
  · obtain hold | hnew := hnext a b hab
    · exact h.next a b hold
    · exact hnew
  · obtain hold | hnew := hprev a b hab
    · exact h.prev a b hold
    · exact hnew

theorem wlListRemove_lists (h : V.ListsInv) : Ensures (V.wlListRemove n) fun V' =>
    V'.ListsInv ∧ V' = { V with links := V'.links } := by
  refine Server.wlListRemove_spec.mono ?_
  rintro V' ⟨a, c, ha, hc, rfl⟩
  have hac : V.Alike a c := (h.prev n a ha).symm.trans (h.next n c hc)
  refine ⟨h.setLinks (fun x y hxy => ?_) fun x y hxy => ?_, rfl⟩
  · by_cases hxn : x = n
    · simp [DLinks.unlink, hxn] at hxy
    · by_cases hxa : x = a
      · subst hxa
        obtain rfl : c = y := by simpa [DLinks.unlink, hxn] using hxy
        exact .inr hac
      · exact .inl (by simpa [DLinks.unlink, hxn, hxa] using hxy)
  · by_cases hxn : x = n
    · simp [DLinks.unlink, hxn] at hxy
    · by_cases hxc : x = c
      · subst hxc
        obtain rfl : a = y := by simpa [DLinks.unlink, hxn] using hxy
        exact .inr hac.symm
      · exact .inl (by simpa [DLinks.unlink, hxn, hxc] using hxy)

theorem wlListInsert_lists (h : V.ListsInv) (han : V.Alike a n) :
    Ensures (V.wlListInsert a n) fun V' => V'.ListsInv ∧ V' = { V with links := V'.links } := by
  refine Server.wlListInsert_spec.mono ?_
  rintro V' ⟨c, hc, rfl⟩
  have hnc : V.Alike n c := han.symm.trans (h.next a c hc)
  refine ⟨h.setLinks (fun x y hxy => ?_) fun x y hxy => ?_, rfl⟩
  · by_cases hxa : x = a
    · subst hxa
      obtain rfl : n = y := by simpa [DLinks.insert] using hxy
      exact .inr han
    · by_cases hxn : x = n
      · subst hxn
        obtain rfl : c = y := by simpa [DLinks.insert, hxa] using hxy
        exact .inr hnc
      · exact .inl (by simpa [DLinks.insert, hxa, hxn] using hxy)
  · by_cases hxc : x = c
    · subst hxc
      obtain rfl : n = y := by simpa [DLinks.insert] using hxy
      exact .inr hnc.symm
    · by_cases hxn : x = n
      · subst hxn
        obtain rfl : a = y := by simpa [DLinks.insert, hxc] using hxy
        exact .inr han.symm
      · exact .inl (by simpa [DLinks.insert, hxc, hxn] using hxy)

/-- A new list is empty. -/
theorem ListsInv.wlListInit (h : V.ListsInv) {managed : Bool} :
    (V.wlListInit (.head managed w)).ListsInv := by
  have hself : ∀ x y, Function.update V.links.next (.head managed w)
      (some (.head managed w)) x = some y → V.links.next x = some y ∨ V.Alike x y := by
    intro x y hxy
    by_cases hx : x = .head managed w
    · subst hx
      obtain rfl : Node.head managed w = y := by simpa using hxy
      exact .inr ⟨trivial, trivial, rfl⟩
    · exact .inl (by simpa [hx] using hxy)
  refine h.setLinks hself fun x y hxy => ?_
  by_cases hx : x = .head managed w
  · subst hx
    obtain rfl : Node.head managed w = y := by simpa using hxy
    exact .inr ⟨trivial, trivial, rfl⟩
  · exact .inl (by simpa [hx] using hxy)

end Views

namespace Server

open Views

variable {s s' s'' : Server} {t : TilePtr} {v : ViewPtr} {w w' : WsPtr} {o : OutPtr}
  {view : Option ViewPtr} {managed : Bool}

/-- Views keep to the lists of their kind, and tiles and the keyboard focus hold
managed views. -/
structure ViewsInv (s : Server) : Prop where
  lists : s.views.ListsInv
  shown : ∀ t v, s.disp.tileView t = some v → s.views.Manages v
  focused : ∀ v, s.disp.focusedView = some v → s.views.Manages v

/-- The invariant holds of `s'`, whose views are those of `s`. -/
structure Kept (s s' : Server) : Prop where
  inv : s'.ViewsInv
  same : SameIdentity s.views s'.views

theorem ViewsInv.kept (h : s.ViewsInv) : Kept s s := ⟨h, .refl⟩

theorem Kept.trans (h : Kept s s') (h' : Kept s' s'') : Kept s s'' :=
  ⟨h'.inv, h.same.trans h'.same⟩

/-- Sequencing operations that keep the views. -/
theorem Kept.bind {m : Exec Server} {f : Server → Exec Server} (hm : Ensures m (Kept s))
    (hf : ∀ s₁, Kept s s₁ → Ensures (f s₁) (Kept s₁)) : Ensures (m >>= f) (Kept s) :=
  hm.bind fun s₁ h₁ => (hf s₁ h₁).mono fun _ h₂ => h₁.trans h₂

/-- Other views are put into tiles or get the focus. -/
theorem ViewsInv.display (h : s.ViewsInv) (hviews : s'.views = s.views)
    (hshown : ∀ t v, s'.disp.tileView t = some v → s.disp.tileView t = some v ∨ s.views.Manages v)
    (hfocused : ∀ v, s'.disp.focusedView = some v →
      s.disp.focusedView = some v ∨ s.views.Manages v) : Kept s s' := by
  refine ⟨⟨?_, fun t v hv => ?_, fun v hv => ?_⟩, ?_⟩
  · rw [hviews]
    exact h.lists
  · rw [hviews]
    exact (hshown t v hv).elim (h.shown t v) id
  · rw [hviews]
    exact (hfocused v hv).elim (h.focused v) id
  · rw [hviews]
    exact .refl

/-- Nothing about views in lists, tiles and focus has changed. -/
theorem ViewsInv.unchanged (h : s.ViewsInv) (hviews : s'.views = s.views)
    (htile : s'.disp.tileView = s.disp.tileView)
    (hfocus : s'.disp.focusedView = s.disp.focusedView) : Kept s s' := by
  refine h.display hviews (fun t v hv => .inl ?_) fun v hv => .inl ?_
  · rw [← htile]
    exact hv
  · rw [← hfocus]
    exact hv

/-- Other links, or other fields of the views. -/
theorem ViewsInv.relist (h : s.ViewsInv) {V : Views} (hlists : V.ListsInv)
    (hid : SameIdentity s.views V) : Kept s { s with views := V } :=
  ⟨⟨hlists, fun t v hv => hid.manages (h.shown t v hv),
    fun v hv => hid.manages (h.focused v hv)⟩, hid⟩

theorem ViewsInv.setTileView (h : s.ViewsInv) {D : Display}
    (htile : D.tileView = Function.update s.disp.tileView t view)
    (hfocus : D.focusedView = s.disp.focusedView)
    (hview : ∀ v, view = some v → s.views.Manages v) : Kept s { s with disp := D } := by
  refine h.display rfl (fun t' v hv => ?_) fun v hv => .inl ?_
  · simp only [htile] at hv
    by_cases ht : t' = t
    · subst ht
      rw [Function.update_self] at hv
      exact .inr (hview v hv)
    · rw [Function.update_of_ne ht] at hv
      exact .inl hv
  · simp only [hfocus] at hv
    exact hv

/-! ### The basic operations -/

theorem viewMaximize_kept (h : s.ViewsInv) : Ensures (s.viewMaximize v t) (Kept s) := by
  refine viewMaximize_spec.mono ?_
  rintro s' ⟨-, sc, rfl⟩
  exact h.unchanged rfl rfl rfl

theorem workspaceTileUpdateView_kept (h : s.ViewsInv)
    (hview : ∀ v, view = some v → s.views.Manages v) :
    Ensures (s.workspaceTileUpdateView t view) (Kept s) := by
  refine workspaceTileUpdateView_spec.mono ?_
  rintro s' ⟨-, sc, rfl⟩
  have hset : Kept s { s with disp := s.disp.assign t view } := h.setTileView rfl rfl hview
  exact hset.trans (hset.inv.unchanged rfl rfl rfl)

theorem processCursorMotion_kept (h : s.ViewsInv) : Ensures s.processCursorMotion (Kept s) := by
  refine processCursorMotion_spec.mono ?_
  rintro s' ⟨c, e, rfl, -⟩
  exact h.unchanged rfl rfl rfl

theorem seatSetFocus_kept (h : s.ViewsInv) (hview : ∀ v, view = some v → v < s.views.viewTop) :
    Ensures (s.seatSetFocus view) (Kept s) := by
  cases view with
  | none =>
    refine seatSetFocus_none_spec.mono ?_
    rintro s' ⟨f, sc, c, e, -, rfl, -⟩
    have hset : Kept s { s with disp := s.disp.assign f none } := h.setTileView rfl rfl nofun
    exact hset.trans (hset.inv.display rfl (fun _ _ hv => .inl hv) nofun)
  | some v =>
    by_cases hv : s.views.managed v = true
    · have hman : s.views.Manages v := ⟨hview v rfl, hv⟩
      refine (seatSetFocus_managed_spec hv).mono ?_
      rintro s' ⟨w, f, V₁, V₂, sc, c, e, -, -, hV₁, hV₂, rfl, -⟩
      obtain ⟨hlists₁, hid₁⟩ := wlListRemove_lists h.lists V₁ hV₁
      have hsame₁ : SameIdentity s.views V₁ := by
        rw [hid₁]
        exact ⟨rfl, rfl⟩
      -- the head of the list goes behind the view, which is in a list of its kind
      obtain ⟨hlists₂, hid₂⟩ := wlListInsert_lists hlists₁
        (hsame₁.alike (hman.alike (w := w)).symm) V₂ hV₂
      have hsame₂ : SameIdentity V₁ V₂ := by
        rw [hid₂]
        exact ⟨rfl, rfl⟩
      have hset : Kept s { s with disp := s.disp.assign f (some v) } :=
        h.setTileView rfl rfl fun u hu => by
          obtain rfl := Option.some.inj hu
          exact hman
      have hmoved := hset.inv.relist hlists₂ (hsame₁.trans hsame₂)
      refine (hset.trans hmoved).trans (hmoved.inv.display rfl (fun _ _ hu => .inl hu)
        fun u hu => ?_)
      obtain rfl : v = u := Option.some.inj hu
      exact .inr (hmoved.same.manages hman)
    · refine (seatSetFocus_unmanaged_spec (by simpa using hv)).mono ?_
      rintro s' ⟨c, e, rfl, -⟩
      exact h.unchanged rfl rfl rfl

theorem refocus_kept (h : s.ViewsInv) : Ensures s.refocus (Kept s) :=
  Ensures.bind_any fun f _ => seatSetFocus_kept h fun v hv => (h.shown f v hv).known

theorem unlinkView_kept (h : s.ViewsInv) : Ensures (s.unlinkView v) (Kept s) := by
  refine Ensures.bind (wlListRemove_lists h.lists) ?_
  rintro V ⟨hlists, hid⟩
  refine Ensures.ok (h.relist hlists ?_)
  rw [hid]
  exact ⟨rfl, rfl⟩

theorem linkView_kept (h : s.ViewsInv) (hv : s.views.Alike (.head managed w) (.view v)) :
    Ensures (s.linkView managed w v) (Kept s) := by
  refine Ensures.bind (wlListInsert_lists h.lists hv) ?_
  rintro V ⟨hlists, hid⟩
  refine Ensures.ok (h.relist hlists ?_)
  rw [hid]
  exact ⟨rfl, rfl⟩

theorem setViewWorkspace_kept (h : s.ViewsInv) : Kept s (s.setViewWorkspace v w) :=
  h.relist (h.lists.congr ⟨rfl, rfl⟩ rfl h.lists.live) ⟨rfl, rfl⟩

theorem emit_kept (h : s.ViewsInv) {e : Event} : Kept s (s.emit e) := h.unchanged rfl rfl rfl

/-! ### Searching lists -/

/-- What is found in a list of managed views. -/
theorem findView_spec {step : Node → Option Node} {p : ViewPtr → Exec Bool}
    (hstep : ∀ a b, step a = some b → s.views.Alike a b) :
    Ensures (s.findView step (.head true w) p) fun found =>
      ∀ v, found = some v → s.views.Manages v ∧ p v = .ok true := by
  refine Ensures.bind_any fun found hfound => Ensures.ifSome nofun fun n hn => ?_
  subst hn
  have halike : s.views.Alike (.head true w) n :=
    DLinks.findNode_along hfound (fun b hb => hstep _ b hb) fun b c hb hc => hb.trans (hstep b c hc)
  have htest := (DLinks.findNode_some hfound).1
  cases n with
  | head managed w' =>
    exact Ensures.bind_any fun u hu => nomatch hu
  | view u =>
    refine Ensures.ok fun v hv => ?_
    obtain rfl : u = v := Option.some.inj hv
    exact ⟨halike.manages, htest⟩

/-- What holds of the views found in every list holds of the one with an id. -/
theorem viewFromId_ensures {Q : ViewPtr → Prop} {id : ℕ}
    (hQ : ∀ w, Ensures (s.findView s.views.links.next (.head true w) fun v => do
      deref (s.views.viewLive v)
      .ok (decide (id = s.views.viewId v))) fun found => ∀ v, found = some v → Q v) :
    Ensures (s.viewFromId id) fun found => ∀ v, found = some v → Q v := by
  have hsearch : ∀ {α : Type} (l : List α) (f : α → Exec (Option ViewPtr)),
      (∀ a ∈ l, Ensures (f a) fun found => ∀ v, found = some v → Q v) →
      Ensures (l.findSomeM? f) fun found => ∀ v, found = some v → Q v := by
    intro α l f hf
    induction l with
    | nil => exact Ensures.ok nofun
    | cons a l ih =>
      rw [List.findSomeM?]
      refine Ensures.bind (hf a List.mem_cons_self) fun found hfound => ?_
      cases found with
      | none => exact ih fun b hb => hf b (List.mem_cons_of_mem _ hb)
      | some v => exact Ensures.ok hfound
  exact hsearch _ _ fun o _ => hsearch _ _ fun i _ => Ensures.bind_any fun w _ => hQ w

theorem viewFromId_spec (h : s.ViewsInv) {id : ℕ} : Ensures (s.viewFromId id) fun found =>
    ∀ v, found = some v → s.views.Manages v :=
  viewFromId_ensures fun _ => (findView_spec h.lists.next).mono fun _ hfound v hv => (hfound v hv).1

/-- The view before a managed one is another managed one. -/
theorem viewGetPrevView_spec (h : s.ViewsInv) (hv : s.views.Manages v) :
    Ensures (s.viewGetPrevView v) fun found =>
      ∀ u, found = some u → s.views.Manages u ∧ u ≠ v := by
  refine Ensures.bind_any fun w _ => Ensures.bind_any fun found hfound =>
    Ensures.ifSome nofun fun n hn => ?_
  subst hn
  have hprev : ∀ b, s.views.links.prev (.view v) = some b → s.views.Alike (.head true w) b :=
    fun b hb => hv.alike.trans (h.lists.prev _ b hb)
  have halike : s.views.Alike (.head true w) n :=
    DLinks.findNode_along hfound hprev fun b c hb hc => hb.trans (h.lists.prev b c hc)
  have hne := (DLinks.findNode_some hfound).2.1
  cases n with
  | head managed w' =>
    exact Ensures.bind_any fun u hu => nomatch hu
  | view u =>
    refine Ensures.ok fun u' hu => ?_
    obtain rfl : u = u' := Option.some.inj hu
    exact ⟨halike.manages, fun huv => hne (by rw [huv])⟩

theorem cycleTarget_spec (h : s.ViewsInv) {viewId : ℕ} {reverse : Bool} :
    Ensures (s.cycleTarget w viewId reverse) fun found =>
      ∀ v, found = some v → s.views.Manages v ∧ s.viewIsVisible v = .ok false := by
  have hidden : ∀ v, (s.viewIsVisible v >>= fun vis => Except.ok !vis) = .ok true →
      s.viewIsVisible v = .ok false := by
    intro v hv
    obtain ⟨vis, hvis, hnot⟩ := bind_eq_ok.mp hv
    cases vis with
    | false => exact hvis
    | true => exact nomatch hnot
  refine Ensures.ite (fun _ => ?_) fun _ => ?_
  · have hstep : ∀ a b, (if reverse then s.views.links.next else s.views.links.prev) a = some b →
        s.views.Alike a b := by
      intro a b hab
      cases reverse with
      | true => exact h.lists.next a b hab
      | false => exact h.lists.prev a b hab
    exact (findView_spec hstep).mono fun found hfound v hv =>
      ⟨(hfound v hv).1, hidden v (hfound v hv).2⟩
  · refine Ensures.bind (viewFromId_spec h) fun found hfound => Ensures.ifSome nofun fun v hv => ?_
    refine Ensures.bind_any fun vis hvis => ?_
    cases vis with
    | true => exact Ensures.ok nofun
    | false =>
      refine Ensures.ok fun u hu => ?_
      obtain rfl : v = u := Option.some.inj hu
      exact ⟨hfound v hv, hvis⟩

/-! ### Commands -/

/-- Following an option to an operation that keeps the views. -/
theorem Kept.ifSome {α : Type} {m : Option α} {f : α → Exec Server} (h : s.ViewsInv)
    (hf : ∀ a, m = some a → Ensures (f a) (Kept s)) : Ensures (Exec.ifSome m s f) (Kept s) :=
  Ensures.ifSome (fun _ => h.kept) hf

theorem emitCycleViews_kept (h : s.ViewsInv) {current : Option ViewPtr} :
    Ensures (s.emitCycleViews w current v) (Kept s) := by
  refine emitCycleViews_spec.mono ?_
  rintro s' ⟨e, rfl⟩
  exact emit_kept h

theorem keybindingCycleViews_kept (h : s.ViewsInv) {tile : Option TilePtr} {viewId : ℕ}
    {reverse ipc : Bool} : Ensures (s.keybindingCycleViews tile viewId reverse ipc) (Kept s) := by
  refine Ensures.bind_any fun t _ => Ensures.deref fun _ => Ensures.bind (cycleTarget_spec h)
    fun next hnext => Kept.ifSome h fun v hv => ?_
  have hman := (hnext v hv).1
  refine Kept.bind (workspaceTileUpdateView_kept h fun u hu => ?_) fun s₁ h₁ =>
    Ensures.bind_any fun f _ => ?_
  · obtain rfl := Option.some.inj hu
    exact hman
  refine Kept.bind (Ensures.ite (fun _ => seatSetFocus_kept h₁.inv fun u hu => ?_)
    fun _ => Ensures.ok h₁.inv.kept) fun s₂ h₂ => ?_
  · obtain rfl := Option.some.inj hu
    exact (h₁.same.manages hman).known
  · exact Ensures.ite (fun _ => emitCycleViews_kept h₂.inv) fun _ => Ensures.ok h₂.inv.kept

theorem setOutput_kept (h : s.ViewsInv) : Ensures (s.setOutput o) (Kept s) := by
  have hset : Kept s { s with outs.currOutput := some o } := h.unchanged rfl rfl rfl
  exact (refocus_kept hset.inv).mono fun _ h' => hset.trans h'

theorem keybindingCycleOutputs_kept (h : s.ViewsInv) {reverse triggerEvent : Bool} :
    Ensures (s.keybindingCycleOutputs reverse triggerEvent) (Kept s) := by
  refine Ensures.bind_any fun old _ => Ensures.nonNull fun o _ => Kept.bind (setOutput_kept h)
    fun s₁ h₁ => Ensures.ok ?_
  cases triggerEvent with
  | false => exact h₁.inv.kept
  | true => exact emit_kept h₁.inv

theorem keybindingSwitchOutput_kept (h : s.ViewsInv) {num : ℕ} :
    Ensures (s.keybindingSwitchOutput num) (Kept s) :=
  Ensures.bind_any fun _ _ => Kept.ifSome h fun _ _ => Kept.bind (setOutput_kept h)
    fun _ h₁ => Ensures.ok (emit_kept h₁.inv)

theorem workspaceFocus_kept (h : s.ViewsInv) {ws : ℕ} :
    Ensures (s.workspaceFocus o ws) (Kept s) :=
  Ensures.ite (fun _ => Ensures.ok h.kept) fun _ => Ensures.bind_any fun _ _ =>
    Ensures.bind_any fun _ _ => Ensures.deref fun _ => Ensures.ok (h.unchanged rfl rfl rfl)

theorem workspaceFocusTile_kept (h : s.ViewsInv) :
    Ensures (s.workspaceFocusTile w t) (Kept s) :=
  Ensures.deref fun _ => Ensures.ok (h.unchanged rfl rfl rfl)

/-- Focusing what a tile shows. -/
theorem focusShown_kept (h : s.ViewsInv) :
    Ensures (s.seatSetFocus (s.disp.tileView t)) (Kept s) :=
  seatSetFocus_kept h fun v hv => (h.shown t v hv).known

theorem keybindingSwitchWs_kept (h : s.ViewsInv) {ws : ℕ} :
    Ensures (s.keybindingSwitchWs ws) (Kept s) :=
  Ensures.ite (fun _ => Ensures.ok h.kept) fun _ => Ensures.bind_any fun _ _ =>
    Kept.bind (workspaceFocus_kept h) fun _ h₁ => Ensures.bind_any fun _ _ =>
      Ensures.bind_any fun _ _ => Kept.bind (focusShown_kept h₁.inv) fun _ h₂ =>
        Ensures.ok (emit_kept h₂.inv)

theorem keybindingFocusTile_kept (h : s.ViewsInv) {tileId : ℕ} :
    Ensures (s.keybindingFocusTile tileId) (Kept s) := by
  refine Ensures.bind_any fun o _ => Ensures.bind_any fun w _ => Ensures.bind_any fun oldTile _ =>
    Ensures.bind_any fun tile _ => Kept.ifSome h fun t _ => Ensures.bind_any fun ot _ => ?_
  refine Kept.bind (Ensures.ite (fun _ => Ensures.ok h.kept) fun _ => setOutput_kept h)
    fun s₁ h₁ => Ensures.bind_any fun oc _ => ?_
  refine Kept.bind (Ensures.ite (fun _ => Ensures.ok h₁.inv.kept)
    fun _ => keybindingSwitchWs_kept h₁.inv) fun s₂ h₂ => ?_
  refine Kept.bind (workspaceFocusTile_kept h₂.inv) fun s₃ h₃ => ?_
  exact Kept.bind (focusShown_kept h₃.inv) fun s₄ h₄ => Ensures.ok (emit_kept h₄.inv)

theorem keybindingCycleTiles_kept (h : s.ViewsInv) {reverse : Bool} :
    Ensures (s.keybindingCycleTiles reverse) (Kept s) :=
  Ensures.bind_any fun _ _ => Ensures.deref fun _ => Ensures.nonNull fun _ _ =>
    Ensures.deref fun _ => keybindingFocusTile_kept h

theorem focusTile_kept (h : s.ViewsInv) {dir : Direction} :
    Ensures (s.focusTile dir t) (Kept s) :=
  Ensures.bind_any fun _ _ => Kept.ifSome h fun _ _ => Kept.bind (workspaceFocusTile_kept h)
    fun _ h₁ => (focusShown_kept h₁.inv)

/-- Maximizing what a tile shows. -/
theorem maximizeShown_kept (h : s.ViewsInv) :
    Ensures (Exec.ifSome view s fun v => s.viewMaximize v t) (Kept s) :=
  Kept.ifSome h fun _ _ => viewMaximize_kept h

theorem mergeTile_kept (h : s.ViewsInv) {dir : Direction} :
    Ensures (s.mergeTile dir t) (Kept s) := by
  refine Ensures.bind_any fun neighbour _ => Kept.ifSome h fun m _ =>
    Ensures.ite (fun _ => Ensures.ok h.kept) fun _ => ?_
  refine Kept.bind (workspaceTileUpdateView_kept h nofun) fun s₁ h₁ => ?_
  refine Ensures.nonNull fun p _ => Ensures.nonNull fun n _ => ?_
  -- tiles and the cursor tile change, the views do not
  refine Kept.bind ((maximizeShown_kept ?_).mono fun s₂ h₂ => Kept.trans ?_ h₂) fun s₂ h₂ =>
    Ensures.bind_any fun place _ => ?_
  · refine Kept.inv (s := s₁) ?_
    exact h₁.inv.unchanged rfl rfl rfl
  · exact h₁.inv.unchanged rfl rfl rfl
  · obtain ⟨ws, output, outputId⟩ := place
    exact Ensures.ok (emit_kept h₂.inv)

theorem swapTiles_kept (h : s.ViewsInv) {tile swapTile : Option TilePtr} {follow : Bool} :
    Ensures (s.swapTiles tile swapTile follow) (Kept s) := by
  unfold swapTiles
  split
  · next a b =>
    refine Ensures.ite (fun _ => Ensures.ok h.kept) fun _ => Ensures.deref fun _ => ?_
    refine Kept.bind (workspaceTileUpdateView_kept h nofun) fun s₁ h₁ => ?_
    refine Kept.bind (workspaceTileUpdateView_kept h₁.inv
      fun v hv => h₁.same.manages (h.shown a v hv)) fun s₂ h₂ => ?_
    refine Kept.bind (workspaceTileUpdateView_kept h₂.inv
      fun v hv => (h₁.trans h₂).same.manages (h.shown b v hv)) fun s₃ h₃ => ?_
    refine Kept.bind (Ensures.ite (fun _ => keybindingFocusTile_kept h₃.inv)
      fun _ => refocus_kept h₃.inv) fun s₄ h₄ => Ensures.bind_any fun place _ => ?_
    obtain ⟨ws, output, outputId⟩ := place
    exact Ensures.ok (emit_kept h₄.inv)
  · exact Ensures.ok h.kept

theorem swapTile_kept (h : s.ViewsInv) {tileId : ℕ} {dir : Direction} {follow : Bool} :
    Ensures (s.swapTile tileId dir follow) (Kept s) :=
  Ensures.bind_any fun _ _ => Kept.ifSome h fun _ _ => Ensures.bind_any fun _ _ => swapTiles_kept h

theorem keybindingSplitOutput_kept (h : s.ViewsInv) {vertical : Bool} {percentage : Percentage} :
    Ensures (s.keybindingSplitOutput o vertical percentage) (Kept s) := by
  refine Ensures.bind_any fun w _ => Ensures.bind_any fun f _ => Ensures.deref fun _ =>
    Ensures.ite (fun _ => Ensures.ok h.kept) fun _ => ?_
  refine Ensures.bind (findView_spec h.lists.next) fun nextView hnext =>
    Ensures.nonNull fun c _ => ?_
  set s₁ : Server := { s with
    tiles := _
    disp.tileView := Function.update s.disp.tileView s.tiles.tileTop none }
  have h₁ : Kept s s₁ := by
    have hset : Kept s { s with disp := { s.disp with
        tileView := Function.update s.disp.tileView s.tiles.tileTop none } } :=
      h.setTileView rfl rfl nofun
    exact hset.trans (hset.inv.unchanged rfl rfl rfl)
  refine Ensures.mono (P := Kept s₁) ?_ fun s' h' => h₁.trans h'
  refine Kept.bind (workspaceTileUpdateView_kept h₁.inv
    fun v hv => h₁.same.manages (hnext v hv).1) fun s₂ h₂ => ?_
  refine Kept.bind (workspaceFocusTile_kept h₂.inv) fun s₃ h₃ => ?_
  refine Kept.bind (maximizeShown_kept h₃.inv) fun s₄ h₄ => ?_
  refine Kept.bind (maximizeShown_kept h₄.inv) fun s₅ h₅ => Ensures.bind_any fun place _ => ?_
  obtain ⟨ws, output, outputId⟩ := place
  exact Ensures.ok (emit_kept h₅.inv)

/-! ### Full screen, resizing and moving -/

theorem freeTilesLoop_kept {n : ℕ} (h : s.ViewsInv) : Ensures (freeTilesLoop w n s) (Kept s) := by
  induction n generalizing s with
  | zero => exact Ensures.error
  | succ n ih =>
    unfold freeTilesLoop
    split
    · exact Ensures.ok h.kept
    · next t _ =>
      refine Ensures.deref fun _ => ?_
      have hfreed : Kept s { s with
          cursorTile := if s.cursorTile = some t then none else s.cursorTile
          tiles.tileLive := Function.update s.tiles.tileLive t false
          tiles.wsFocused := Function.update s.tiles.wsFocused w (s.tiles.tileLinks.next t) } :=
        h.unchanged rfl rfl rfl
      exact (ih hfreed.inv).mono fun _ h' => hfreed.trans h'

theorem workspaceFreeTiles_kept (h : s.ViewsInv) : Ensures (s.workspaceFreeTiles w) (Kept s) := by
  refine Ensures.bind_any fun f _ => Ensures.deref fun _ => Ensures.nonNull fun p _ => ?_
  have hcut : Kept s { s with tiles.tileLinks := { s.tiles.tileLinks with
      next := Function.update s.tiles.tileLinks.next p none } } := h.unchanged rfl rfl rfl
  exact (freeTilesLoop_kept hcut.inv).mono fun _ h' => hcut.trans h'

theorem workspaceFree_kept (h : s.ViewsInv) : Ensures (s.workspaceFree w) (Kept s) :=
  Kept.bind (workspaceFreeTiles_kept h) fun _ h₁ => Ensures.ok (h₁.inv.unchanged rfl rfl rfl)

theorem fullScreenWorkspaceTiles_kept (h : s.ViewsInv) :
    Ensures (s.fullScreenWorkspaceTiles w) (Kept s) := by
  refine Ensures.deref fun _ => ?_
  set s₁ : Server := { s with
    tiles := _
    disp.tileView := Function.update s.disp.tileView s.tiles.tileTop none }
  have h₁ : Kept s s₁ := by
    have hset : Kept s { s with disp := { s.disp with
        tileView := Function.update s.disp.tileView s.tiles.tileTop none } } :=
      h.setTileView rfl rfl nofun
    exact hset.trans (hset.inv.unchanged rfl rfl rfl)
  refine Ensures.mono (P := Kept s₁) ?_ fun _ h' => h₁.trans h'
  exact workspaceTileUpdateView_kept h₁.inv nofun

theorem newWorkspace_kept (h : s.ViewsInv) {num : ℕ} :
    Ensures (s.newWorkspace o num) fun p => Kept s p.2 := by
  have hnew : Kept s { s with tiles := { s.tiles with
      wsTop := s.tiles.wsTop + 1
      wsLive := Function.update s.tiles.wsLive s.tiles.wsTop true
      wsOutput := Function.update s.tiles.wsOutput s.tiles.wsTop o
      wsNum := Function.update s.tiles.wsNum s.tiles.wsTop num } } := h.unchanged rfl rfl rfl
  refine Ensures.bind (fullScreenWorkspaceTiles_kept hnew.inv) fun s₁ h₁ => Ensures.ok ?_
  have hlists : ((s₁.views.wlListInit (.head true s.tiles.wsTop)).wlListInit
      (.head false s.tiles.wsTop)).ListsInv := h₁.inv.lists.wlListInit.wlListInit
  exact (hnew.trans h₁).trans (h₁.inv.relist hlists ⟨rfl, rfl⟩)

theorem pointViewsAt_kept {l : List ViewPtr} (h : s.ViewsInv) : Kept s (s.pointViewsAt l t) := by
  unfold pointViewsAt
  induction l generalizing s with
  | nil => exact h.kept
  | cons v l ih =>
    have hset : Kept s (s.setViewTile v (some t)) := h.unchanged rfl rfl rfl
    exact hset.trans (ih hset.inv)

/-- The view that a full screen workspace goes on to show. -/
theorem fullscreenView_spec (h : s.ViewsInv) :
    Ensures ((s.disp.tileView t).elim
      (s.findView s.views.links.next (.head true w) s.viewIsVisible) (.ok ∘ some)) fun found =>
      ∀ v, found = some v → s.views.Manages v := by
  cases htv : s.disp.tileView t with
  | none => exact (findView_spec h.lists.next).mono fun found hfound v hv => (hfound v hv).1
  | some u =>
    refine Ensures.ok fun v hv => ?_
    obtain rfl : u = v := Option.some.inj hv
    exact h.shown t u htv

theorem outputMakeWorkspaceFullscreen_kept (h : s.ViewsInv) {ws : ℕ} :
    Ensures (s.outputMakeWorkspaceFullscreen o ws) (Kept s) := by
  refine Ensures.ite (fun _ => Ensures.ok h.kept) fun _ => Ensures.bind_any fun w _ =>
    Ensures.bind_any fun f _ => Ensures.deref fun _ =>
    Ensures.bind (fullscreenView_spec h) fun current hcurrent => ?_
  refine Kept.bind (workspaceFreeTiles_kept h) fun s₁ h₁ => ?_
  refine Kept.bind (fullScreenWorkspaceTiles_kept h₁.inv) fun s₂ h₂ => ?_
  refine Ensures.bind_any fun f' _ => Ensures.bind_any fun l _ => ?_
  have h₃ : Kept s₂ (s₂.pointViewsAt l f') := pointViewsAt_kept h₂.inv
  have hman : ∀ v, current = some v → (s₂.pointViewsAt l f').views.Manages v := fun v hv =>
    ((h₁.trans h₂).trans h₃).same.manages (hcurrent v hv)
  refine Ensures.mono (P := Kept (s₂.pointViewsAt l f')) ?_ fun _ h' => h₃.trans h'
  refine Kept.bind (workspaceTileUpdateView_kept h₃.inv hman) fun s₄ h₄ => ?_
  exact Ensures.ite (fun _ => seatSetFocus_kept h₄.inv
    fun v hv => (h₄.same.manages (hman v hv)).known) fun _ => Ensures.ok h₄.inv.kept

theorem keybindingWorkspaceFullscreen_kept (h : s.ViewsInv) {screen workspace : ℕ} :
    Ensures (s.keybindingWorkspaceFullscreen screen workspace) (Kept s) :=
  Ensures.bind_any fun _ _ => Kept.ifSome h fun _ _ => Ensures.ite (fun _ => Ensures.ok h.kept)
    fun _ => Kept.bind (outputMakeWorkspaceFullscreen_kept h) fun _ h₁ =>
      Ensures.bind_any fun _ _ => Ensures.bind_any fun _ _ => Ensures.ok (emit_kept h₁.inv)

theorem resize_kept {a : Axis} {orig tile : TilePtr} {parent : Option TilePtr} {n : ℕ}
    {coordOffset dimOffset : ℤ} (h : s.ViewsInv) :
    Ensures (resize a orig n s tile parent coordOffset dimOffset) (Kept s) := by
  induction n generalizing s tile parent coordOffset dimOffset with
  | zero => exact Ensures.error
  | succ n ih =>
    refine Ensures.ite (fun _ => Ensures.ok h.kept) fun _ => Ensures.bind_any fun its _ => ?_
    refine Kept.bind (Ensures.foldlM (fun s₁ it _ h₁ => ?_) h.kept) fun s₁ h₁ => ?_
    · refine Ensures.ite (fun _ => Ensures.ok h₁) fun _ => ?_
      cases handedOn s₁.tiles a tile it coordOffset dimOffset with
      | none => exact Ensures.ok h₁
      | some cd => exact (ih h₁.inv).mono fun _ h₂ => h₁.trans h₂
    · refine Kept.bind ((maximizeShown_kept ?_).mono fun s₂ h₂ => Kept.trans ?_ h₂) fun s₂ h₂ =>
        Ensures.bind_any fun place _ => ?_
      · refine Kept.inv (s := s₁) ?_
        exact h₁.inv.unchanged rfl rfl rfl
      · exact h₁.inv.unchanged rfl rfl rfl
      · obtain ⟨ws, output, outputId⟩ := place
        exact Ensures.ok (emit_kept h₂.inv)

theorem resizeAlong_kept (h : s.ViewsInv) {a : Axis} {pixs : ℤ} :
    Ensures (s.resizeAlong a o t pixs) (Kept s) :=
  Ensures.deref fun _ => Ensures.ite (fun _ => Ensures.bind_any fun _ _ =>
    Ensures.ite (fun _ => resize_kept h) fun _ => Ensures.ok h.kept) fun _ => Ensures.ok h.kept

theorem resizeTile_kept (h : s.ViewsInv) {hpixs vpixs : ℤ} {tileId : ℕ} :
    Ensures (s.resizeTile hpixs vpixs tileId) (Kept s) :=
  Ensures.bind_any fun _ _ => Ensures.bind_any fun _ _ => Ensures.bind_any fun _ _ =>
    Kept.ifSome h fun _ _ => Kept.bind (resizeAlong_kept h) fun _ h₁ => resizeAlong_kept h₁.inv

theorem takeView_kept (h : s.ViewsInv) : Ensures (s.takeView v) (Kept s) := by
  unfold takeView
  cases s.disp.viewTile v with
  | none => exact unlinkView_kept h
  | some old =>
    refine Kept.bind (workspaceTileUpdateView_kept h nofun) fun s₁ h₁ => ?_
    refine Kept.bind (unlinkView_kept h₁.inv) fun s₂ h₂ => ?_
    refine Kept.bind (keybindingCycleViews_kept h₂.inv) fun s₃ h₃ => Ensures.bind_any fun f _ => ?_
    exact Ensures.ite (fun _ => seatSetFocus_kept h₃.inv nofun) fun _ => Ensures.ok h₃.inv.kept

theorem putView_kept (h : s.ViewsInv) (hv : s.views.Manages v) :
    Ensures (s.putView v t) (Kept s) := by
  refine Ensures.deref fun _ => ?_
  have h₀ : Kept s (s.setViewWorkspace v (s.tiles.tileWorkspace t)) := setViewWorkspace_kept h
  have hv₀ := h₀.same.manages hv
  refine Ensures.bind (linkView_kept h₀.inv hv₀.alike) fun s₁ h₁ => ?_
  have hv₁ := h₁.same.manages hv₀
  have h₂ : Kept s₁ ((s₁.setViewTile v (some t)).setTileView t (some v)) :=
    h₁.inv.setTileView rfl rfl fun u hu => by
      obtain rfl := Option.some.inj hu
      exact hv₁
  refine Ensures.bind_any fun f _ => ?_
  have hto := (h₀.trans h₁).trans h₂
  refine Ensures.ite (fun _ => ?_) fun _ => Ensures.ok hto
  refine (seatSetFocus_kept h₂.inv fun u hu => ?_).mono fun _ h' => hto.trans h'
  obtain rfl := Option.some.inj hu
  exact (h₂.same.manages hv₁).known

theorem emptyTile_kept (h : s.ViewsInv) : Ensures (s.emptyTile t) (Kept s) :=
  Ensures.deref fun _ => Kept.ifSome h fun _ _ => Ensures.deref fun _ =>
    Ensures.ok (h.setTileView rfl rfl nofun)

theorem keybindingMoveViewToTile_kept (h : s.ViewsInv) {viewId tileId : ℕ} {follow : Bool} :
    Ensures (s.keybindingMoveViewToTile viewId tileId follow) (Kept s) := by
  refine Ensures.bind (viewFromId_spec h) fun view hview => Ensures.bind_any fun tile _ =>
    Ensures.bind_any fun old _ => ?_
  obtain ⟨oldOutput, oldWs⟩ := old
  refine Kept.ifSome h fun t _ => ?_
  have hmove : Ensures (view.elim (s.emptyTile t) fun v => do
      let s ← s.takeView v
      s.putView v t) (Kept s) := by
    cases view with
    | none => exact emptyTile_kept h
    | some v => exact Kept.bind (takeView_kept h) fun s₁ h₁ =>
        putView_kept h₁.inv (h₁.same.manages (hview v rfl))
  refine Kept.bind hmove fun s₁ h₁ => ?_
  refine Kept.bind (Ensures.ite (fun _ => keybindingFocusTile_kept h₁.inv) fun _ =>
    Kept.ifSome h₁.inv fun u hu => workspaceTileUpdateView_kept h₁.inv fun u' hu' => ?_)
    fun s₂ h₂ => ?_
  · obtain rfl := Option.some.inj hu'
    exact h₁.inv.shown t u hu
  · exact Ensures.bind_any fun oc _ => Ensures.bind_any fun oldId _ =>
      Ensures.ok (emit_kept h₂.inv)

theorem keybindingMoveViewToOutput_kept (h : s.ViewsInv) {viewId outputNum : ℕ} {follow : Bool} :
    Ensures (s.keybindingMoveViewToOutput viewId outputNum follow) (Kept s) :=
  Kept.ifSome h fun _ _ => Ensures.bind_any fun _ _ => Ensures.bind_any fun _ _ =>
    keybindingMoveViewToTile_kept h

theorem keybindingMoveViewToWorkspace_kept (h : s.ViewsInv) {viewId ws : ℕ} {follow : Bool} :
    Ensures (s.keybindingMoveViewToWorkspace viewId ws follow) (Kept s) :=
  Ensures.ite (fun _ => Ensures.ok h.kept) fun _ => Ensures.bind_any fun _ _ =>
    Ensures.bind_any fun _ _ => Ensures.bind_any fun _ _ => keybindingMoveViewToTile_kept h

theorem leaveView_kept (h : s.ViewsInv) : Ensures (s.leaveView t v) (Kept s) := by
  refine Kept.bind (unlinkView_kept h) fun s₁ h₁ => ?_
  have h₂ : Kept s₁ (s₁.setTileView t none) := h₁.inv.setTileView rfl rfl nofun
  refine Ensures.bind (keybindingCycleViews_kept h₂.inv) fun s₃ h₃ => Ensures.bind_any fun f _ => ?_
  refine Ensures.ite (fun _ => ?_) fun _ => Ensures.ok (h₂.trans h₃)
  refine Ensures.mono (P := Kept s₃) ?_ fun _ h' => (h₂.trans h₃).trans h'
  exact seatSetFocus_kept h₃.inv nofun

theorem arriveView_kept (h : s.ViewsInv) (hv : s.views.Manages v) :
    Ensures (s.arriveView v) (Kept s) := by
  refine Ensures.bind_any fun w _ => Kept.bind (linkView_kept h hv.alike) fun s₁ h₁ => ?_
  have hv₁ := h₁.same.manages hv
  refine Ensures.bind_any fun f _ => Kept.bind (workspaceTileUpdateView_kept h₁.inv fun u hu => ?_)
    fun s₂ h₂ => ?_
  · obtain rfl := Option.some.inj hu
    exact hv₁
  have h₃ : Kept s₂ (s₂.setViewWorkspace v w) := setViewWorkspace_kept h₂.inv
  refine (seatSetFocus_kept h₃.inv fun u hu => ?_).mono fun _ h' => h₃.trans h'
  obtain rfl := Option.some.inj hu
  exact (h₃.same.manages (h₂.same.manages hv₁)).known

theorem keybindingMoveViewToCycleOutput_kept (h : s.ViewsInv) {reverse : Bool} :
    Ensures (s.keybindingMoveViewToCycleOutput reverse) (Kept s) := by
  refine Ensures.ite (fun _ => Ensures.ok h.kept) fun _ => Ensures.bind_any fun old _ =>
    Ensures.bind_any fun f _ => ?_
  refine Kept.bind (Kept.ifSome h fun _ _ => leaveView_kept h) fun s₁ h₁ => ?_
  refine Kept.bind (keybindingCycleOutputs_kept h₁.inv) fun s₂ h₂ => ?_
  refine Kept.bind (Kept.ifSome h₂.inv fun v hv => arriveView_kept h₂.inv
    ((h₁.trans h₂).same.manages (h.shown f v hv))) fun s₃ h₃ => ?_
  exact Ensures.bind_any fun new _ => Ensures.bind_any fun wOld _ => Ensures.bind_any fun fOld _ =>
    Ensures.bind_any fun fNew _ => Ensures.ok (emit_kept h₃.inv)

/-! ### Workspaces and outputs -/

/-- A loop over a list whose body keeps the views of its kind. -/
theorem forEachViewSafe_kept {body : Server → ViewPtr → Exec Server} {n : ℕ} {cur : Option Node}
    (hbody : ∀ s v, s.ViewsInv → s.views.Alike (.head managed w) (.view v) →
      Ensures (body s v) (Kept s))
    (h : s.ViewsInv) (hcur : ∀ x, cur = some x → s.views.Alike (.head managed w) x) :
    Ensures (forEachViewSafe (.head managed w) body n cur s) (Kept s) := by
  induction n generalizing cur s with
  | zero => exact Ensures.error
  | succ n ih =>
    cases cur with
    | none => exact Ensures.error
    | some x =>
      have hx := hcur x rfl
      refine Ensures.ite (fun _ => Ensures.ok h.kept) fun _ => Ensures.bind_any fun v hv => ?_
      cases x with
      | head managed' w' => exact nomatch hv
      | view v' =>
        obtain rfl : v' = v := Except.ok.inj hv
        refine Kept.bind (hbody s v' h hx) fun s₁ h₁ => ih h₁.inv fun y hy => ?_
        exact h₁.same.alike (hx.trans (h.lists.next _ y hy))

theorem moveViews_kept (h : s.ViewsInv) : Ensures (s.moveViews managed w w') (Kept s) := by
  refine forEachViewSafe_kept (fun s₁ v h₁ hv => ?_) h fun x hx => h.lists.next _ x hx
  refine Kept.bind (unlinkView_kept h₁) fun s₂ h₂ => ?_
  have hv₂ := h₂.same.alike hv
  refine Kept.bind (linkView_kept h₂.inv ⟨trivial, hv₂.right, hv₂.kind⟩) fun s₃ h₃ => ?_
  exact Ensures.ok (setViewWorkspace_kept h₃.inv)

/-- One more workspace for an output. -/
theorem addWorkspace_kept (h : s.ViewsInv) {i : ℕ} :
    Ensures (addWorkspace o s i) (Kept s) := by
  refine addWorkspace_ensures ((newWorkspace_kept h).mono fun p hp => ?_)
  exact hp.trans (hp.inv.unchanged rfl rfl rfl)

theorem outputSetNws_kept {oldNws nws : ℕ} (h : s.ViewsInv) :
    Ensures (outputSetNws oldNws nws s o) (Kept s) := by
  refine Kept.bind (Ensures.foldlM (fun s₁ i _ h₁ => ?_) h.kept) fun s₁ h₁ => ?_
  · refine Ensures.bind_any fun w _ => Ensures.bind_any fun last _ => Ensures.deref fun _ => ?_
    refine Ensures.mono (P := Kept s₁) ?_ fun _ h' => h₁.trans h'
    exact Kept.bind (moveViews_kept h₁.inv) fun s₂ h₂ => Kept.bind (moveViews_kept h₂.inv)
      fun s₃ h₃ => workspaceFree_kept h₃.inv
  have h₂ : Kept s₁ (s₁.setWorkspaces o ((s₁.outs.outWorkspaces o).take nws)) :=
    h₁.inv.unchanged rfl rfl rfl
  refine Ensures.mono ?_ fun _ h' => h₂.trans h'
  refine Kept.bind (Ensures.foldlM (fun s₃ i _ h₃ => ?_) h₂.inv.kept) fun s₃ h₃ => ?_
  · exact (addWorkspace_kept h₃.inv).mono fun _ h' => h₃.trans h'
  · refine Ensures.ite (fun _ => ?_) fun _ => Ensures.ok h₃.inv.kept
    have h₄ : Kept s₃ { s₃ with outs.outCurr := Function.update s₃.outs.outCurr o 0 } :=
      h₃.inv.unchanged rfl rfl rfl
    exact (workspaceFocus_kept h₄.inv).mono fun _ h' => h₄.trans h'

theorem keybindingSetNws_kept (h : s.ViewsInv) {nws : ℕ} :
    Ensures (s.keybindingSetNws nws) (Kept s) := by
  have h₁ : Kept s { s with outs.nws := nws } := h.unchanged rfl rfl rfl
  refine Ensures.bind (Ensures.foldlM (fun s₂ o _ h₂ => ?_) h₁) fun s₂ h₂ => ?_
  · exact (outputSetNws_kept h₂.inv).mono fun _ h' => h₂.trans h'
  · exact Ensures.bind (refocus_kept h₂.inv) fun s₃ h₃ =>
      Ensures.ok ((h₂.trans h₃).trans (emit_kept h₃.inv))

theorem handleNewOutput_kept (h : s.ViewsInv) {name : String} {box : LayoutBox} :
    Ensures (s.handleNewOutput name box) (Kept s) := by
  refine Ensures.bind (P := Kept s) (Ensures.foldlM (fun s₁ i _ h₁ => ?_) ?_) fun s₁ h₁ => ?_
  · exact (addWorkspace_kept h₁.inv).mono fun _ h' => h₁.trans h'
  · exact h.unchanged rfl rfl rfl
  · refine Ensures.bind (workspaceFocus_kept h₁.inv) fun s₂ h₂ => Ensures.ok ?_
    have h₃ : Kept s₂ { s₂ with outs.currOutput := s₂.outs.currOutput.or (some s.outs.outTop) } :=
      h₂.inv.unchanged rfl rfl rfl
    exact ((h₁.trans h₂).trans h₃).trans (emit_kept h₃.inv)

theorem rehomeViews_kept (h : s.ViewsInv) : Ensures (s.rehomeViews managed w w') (Kept s) := by
  refine forEachViewSafe_kept (fun s₁ v h₁ hv => ?_) h fun x hx => h.lists.next _ x hx
  refine Kept.bind (unlinkView_kept h₁) fun s₂ h₂ => ?_
  have hv₂ := h₂.same.alike hv
  refine Ensures.ite (fun _ => Ensures.ok ?_) fun _ => ?_
  · refine h₂.inv.relist (h₂.inv.lists.congr ⟨rfl, rfl⟩ rfl fun u hu => ?_) ⟨rfl, rfl⟩
    refine h₂.inv.lists.live u ?_
    by_cases huv : u = v
    · subst huv
      simp at hu
    · simpa [huv] using hu
  refine Kept.bind (linkView_kept h₂.inv ⟨trivial, hv₂.right, hv₂.kind⟩) fun s₃ h₃ =>
    Ensures.bind_any fun f _ => ?_
  have h₄ : Kept s₃ (s₃.setViewWorkspace v w') := setViewWorkspace_kept h₃.inv
  have h₅ : Kept s₃ ((s₃.setViewWorkspace v w').setViewTile v (some f)) :=
    h₄.trans (h₄.inv.unchanged rfl rfl rfl)
  refine Ensures.ite (fun _ => ?_) fun _ => Ensures.ok h₅
  refine (seatSetFocus_kept h₅.inv fun u hu => ?_).mono fun _ h' => h₅.trans h'
  obtain rfl := Option.some.inj hu
  exact (h₅.same.alike (h₃.same.alike hv₂)).right

theorem outputClear_kept (h : s.ViewsInv) : Ensures (s.outputClear o) (Kept s) := by
  refine Kept.bind (Ensures.ite (fun _ => keybindingCycleOutputs_kept h)
    fun _ => Ensures.ok h.kept) fun s₁ h₁ => ?_
  have h₂ : Kept s₁ { s₁ with outs.outputs := s₁.outs.outputs.erase o } :=
    h₁.inv.unchanged rfl rfl rfl
  refine Ensures.foldlM (fun s₃ i _ h₃ => ?_) h₂
  refine Ensures.mono (P := Kept s₃) ?_ fun _ h' => h₃.trans h'
  refine Ensures.bind_any fun w _ => Ensures.bind_any fun l _ => ?_
  refine Kept.bind (Ensures.foldlM (fun s₄ t _ h₄ => ?_) h₃.inv.kept) fun s₄ h₄ => ?_
  · refine Ensures.mono (P := Kept s₄) ?_ fun _ h' => h₄.trans h'
    exact workspaceTileUpdateView_kept h₄.inv nofun
  · exact Ensures.bind_any fun wNew _ => Kept.bind (rehomeViews_kept h₄.inv) fun s₅ h₅ =>
      rehomeViews_kept h₅.inv

theorem outputDestroy_kept (h : s.ViewsInv) : Ensures (s.outputDestroy o) (Kept s) := by
  refine Kept.bind (outputClear_kept h) fun s₁ h₁ => ?_
  refine Kept.bind (Ensures.foldlM (fun s₂ i _ h₂ => ?_) h₁.inv.kept) fun s₂ h₂ => Ensures.ok ?_
  · exact Ensures.bind_any fun w _ => Ensures.deref fun _ =>
      (workspaceFree_kept h₂.inv).mono fun _ h' => h₂.trans h'
  · split
    · exact h₂.inv.unchanged rfl rfl rfl
    · exact h₂.inv.unchanged rfl rfl rfl

/-! ### Views that come and go -/

/-- A new view is in no list and no tile. -/
theorem viewInit_viewsInv (h : s.ViewsInv) {attrs : ViewAttrs} :
    Ensures (s.viewInit attrs) ViewsInv := by
  refine Ensures.bind_any fun w _ => Ensures.deref fun _ => Ensures.ok ?_
  have hknown : ∀ u : ℕ, u < s.views.viewTop → u ≠ s.views.viewTop := fun u hu => ne_of_lt hu
  have hkind : ∀ n, s.views.Known n → ∀ V : Views, V.viewTop = s.views.viewTop + 1 →
      V.viewAttrs = Function.update s.views.viewAttrs s.views.viewTop attrs →
      V.Known n ∧ V.kind n = s.views.kind n := by
    intro n hn V htop hattrs
    cases n with
    | head managed w => exact ⟨trivial, rfl⟩
    | view u =>
      refine ⟨?_, ?_⟩
      · show u < V.viewTop
        rw [htop]
        exact Nat.lt_succ_of_lt hn
      · rw [kind, kind, managed, managed, hattrs, Function.update_of_ne (hknown u hn)]
  have halike : ∀ a b, s.views.Alike a b → ∀ V : Views, V.viewTop = s.views.viewTop + 1 →
      V.viewAttrs = Function.update s.views.viewAttrs s.views.viewTop attrs → V.Alike a b := by
    intro a b hab V htop hattrs
    obtain ⟨ha, hka⟩ := hkind a hab.left V htop hattrs
    obtain ⟨hb, hkb⟩ := hkind b hab.right V htop hattrs
    exact ⟨ha, hb, by rw [hka, hkb, hab.kind]⟩
  refine ⟨⟨fun a b hab => halike a b (h.lists.next a b hab) _ rfl rfl,
    fun a b hab => halike a b (h.lists.prev a b hab) _ rfl rfl, fun u hu => ?_⟩,
    fun t u hu => ?_, fun u hu => ?_⟩
  · show u < s.views.viewTop + 1
    by_cases huv : u = s.views.viewTop
    · omega
    · exact Nat.lt_succ_of_lt (h.lists.live u (by simpa [huv] using hu))
  · exact (halike _ _ ((h.shown t u hu).alike (w := 0)) _ rfl rfl).manages
  · exact (halike _ _ ((h.focused u hu).alike (w := 0)) _ rfl rfl).manages

theorem viewMap_kept (h : s.ViewsInv) {x y : ℤ} : Ensures (s.viewMap v x y) (Kept s) := by
  refine Ensures.deref fun hl => Ensures.bind_any fun w _ => Ensures.deref fun _ => ?_
  have hv : v < s.views.viewTop := h.lists.live v hl
  have h₀ : Kept s
      ({ s with views.viewMapped := Function.update s.views.viewMapped v true }.setViewWorkspace
        v w) :=
    h.relist (h.lists.congr ⟨rfl, rfl⟩ rfl h.lists.live) ⟨rfl, rfl⟩
  refine Ensures.mono ?_ fun _ h' => h₀.trans h'
  refine Kept.bind (linkView_kept h₀.inv ⟨trivial, hv, rfl⟩) fun s₁ h₁ =>
    Ensures.bind_any fun cur _ => ?_
  have hv₁ : v < s₁.views.viewTop := by
    rw [h₁.same.top]
    exact hv
  -- an unmanaged surface keeps its own position
  have hplaced : ∀ sc : Scene,
      Kept s₁ (if s₁.views.managed v then s₁ else { s₁ with scene := sc }) := by
    intro sc
    split
    · exact h₁.inv.kept
    · exact h₁.inv.unchanged rfl rfl rfl
  refine Ensures.bind (seatSetFocus_kept (hplaced _).inv fun u hu => ?_) fun s₂ h₂ =>
    Ensures.bind_any fun tileId _ =>
      Ensures.ok (((hplaced _).trans h₂).trans (emit_kept h₂.inv))
  obtain rfl := Option.some.inj hu
  rw [(hplaced _).same.top]
  exact hv₁

theorem viewWithdraw_kept (h : s.ViewsInv) (hv : s.views.Manages v) {kb : Bool} :
    Ensures (s.viewWithdraw v kb) (Kept s) := by
  refine Ensures.bind (viewGetPrevView_spec h hv) fun prev hprev => ?_
  refine Kept.bind (Ensures.ite (fun _ => seatSetFocus_kept h fun u hu => (hprev u hu).1.known)
    fun _ => Ensures.ite (fun _ => seatSetFocus_kept h fun u hu => (h.focused u hu).known)
      fun _ => Ensures.ok h.kept) fun s₁ h₁ => ?_
  exact Ensures.bind_any fun tile _ => Kept.ifSome h₁.inv fun t _ =>
    workspaceTileUpdateView_kept h₁.inv fun u hu => h₁.same.manages (hprev u hu).1

theorem viewUnmap_kept (h : s.ViewsInv) {kb : Bool} : Ensures (s.viewUnmap v kb) (Kept s) := by
  refine Ensures.bind_any fun w hw => Ensures.deref fun _ => Ensures.ite (fun _ => ?_)
    fun _ => Ensures.ok h.kept
  obtain ⟨_, hlive, -⟩ := bind_eq_ok.mp hw
  have hv : v < s.views.viewTop := h.lists.live v (deref_eq_ok.mp hlive)
  refine Ensures.bind_any fun tileId _ => ?_
  refine Kept.bind (Ensures.ite (fun hm => viewWithdraw_kept h ⟨hv, hm⟩) fun _ =>
    Ensures.ite (fun _ => seatSetFocus_kept h fun u hu => (h.focused u hu).known)
      fun _ => Ensures.ok h.kept) fun s₁ h₁ => ?_
  refine Kept.bind (unlinkView_kept h₁.inv) fun s₂ h₂ => Ensures.ok ?_
  have h₃ : Kept s₂ { s₂ with views.viewMapped := Function.update s₂.views.viewMapped v false } :=
    h₂.inv.relist (h₂.inv.lists.congr ⟨rfl, rfl⟩ rfl h₂.inv.lists.live) ⟨rfl, rfl⟩
  exact h₃.trans (emit_kept h₃.inv)

theorem viewDestroy_kept (h : s.ViewsInv) {kb : Bool} :
    Ensures (s.viewDestroy v kb) (Kept s) := by
  refine Ensures.deref fun _ => Kept.bind (Ensures.ite (fun _ => viewUnmap_kept h)
    fun _ => Ensures.ok h.kept) fun s₁ h₁ => Ensures.bind_any fun f _ =>
    Ensures.bind_any fun _ _ => Ensures.ok ?_
  refine h₁.inv.relist (h₁.inv.lists.congr ⟨rfl, rfl⟩ rfl fun u hu => ?_) ⟨rfl, rfl⟩
  refine h₁.inv.lists.live u ?_
  by_cases huv : u = v
  · subst huv
    simp at hu
  · simpa [huv] using hu

/-! ### Every input -/

theorem runAction_kept (h : s.ViewsInv) {a : Action} : Ensures (s.runAction a) (Kept s) := by
  cases a with
  | layoutFullscreen => exact keybindingWorkspaceFullscreen_kept h
  | splitHorizontal => exact Ensures.bind_any fun _ _ => keybindingSplitOutput_kept h
  | splitVertical => exact Ensures.bind_any fun _ _ => keybindingSplitOutput_kept h
  | cycleViews => exact keybindingCycleViews_kept h
  | cycleTiles =>
    exact Ensures.ite (fun _ => keybindingCycleTiles_kept h) fun _ => keybindingFocusTile_kept h
  | cycleOutput => exact keybindingCycleOutputs_kept h
  | switchWorkspace => exact keybindingSwitchWs_kept h
  | switchOutput => exact keybindingSwitchOutput_kept h
  | resizeTileHorizontal => exact resizeTile_kept h
  | resizeTileVertical => exact resizeTile_kept h
  | moveToTile => exact Ensures.bind_any fun _ _ => keybindingMoveViewToTile_kept h
  | moveToWorkspace => exact Ensures.bind_any fun _ _ => keybindingMoveViewToWorkspace_kept h
  | moveToOutput => exact Ensures.bind_any fun _ _ => keybindingMoveViewToOutput_kept h
  | moveViewToTile => exact keybindingMoveViewToTile_kept h
  | moveViewToWorkspace => exact keybindingMoveViewToWorkspace_kept h
  | moveViewToOutput => exact keybindingMoveViewToOutput_kept h
  | merge => exact Ensures.bind_any fun _ _ => Kept.ifSome h fun _ _ => mergeTile_kept h
  | swapDir => exact swapTile_kept h
  | swap => exact Ensures.bind_any fun _ _ => Ensures.bind_any fun _ _ => swapTiles_kept h
  | focus => exact Ensures.bind_any fun _ _ => focusTile_kept h
  | moveViewToCycleOutput => exact keybindingMoveViewToCycleOutput_kept h
  | workspaces => exact keybindingSetNws_kept h

theorem ViewsInv.setCursorAt (h : s.ViewsInv) (c : Option (OutPtr × ℚ × ℚ)) :
    ({ s with cursorAt := c } : Server).ViewsInv := by
  refine Kept.inv (s := s) ?_
  exact h.unchanged rfl rfl rfl

/-- **Every input keeps managed views in managed lists** and lets tiles show no
other views. -/
theorem step_viewsInv {i : Input} (h : s.ViewsInv) : Ensures (step s i) ViewsInv := by
  refine Ensures.ite (fun _ => Ensures.ok h) fun _ => ?_
  cases i with
  | command a => exact (runAction_kept h).mono fun _ h' => h'.inv
  | outputNew name box cursor =>
    exact (handleNewOutput_kept (h.setCursorAt cursor)).mono fun _ h' => h'.inv
  | outputDestroy o cursor =>
    exact Ensures.deref fun _ => (outputDestroy_kept (h.setCursorAt cursor)).mono fun _ h' => h'.inv
  | layoutChange o box =>
    refine Ensures.ok (Kept.inv (s := s) ?_)
    exact h.unchanged rfl rfl rfl
  | cursorMotion cursor =>
    exact (processCursorMotion_kept (h.setCursorAt cursor)).mono fun _ h' => h'.inv
  | viewNew attrs => exact viewInit_viewsInv h
  | viewMap v x y => exact Ensures.deref fun _ => (viewMap_kept h).mono fun _ h' => h'.inv
  | viewUnmap v kb => exact Ensures.deref fun _ => (viewUnmap_kept h).mono fun _ h' => h'.inv
  | viewDestroy v kb => exact (viewDestroy_kept h).mono fun _ h' => h'.inv

theorem ViewsInv.init : Server.init.ViewsInv :=
  ⟨⟨nofun, nofun, nofun⟩, nofun, nofun⟩

end Server

theorem Reachable.viewsInv {s : Server} (h : Reachable s) : s.ViewsInv :=
  h.invariant Server.ViewsInv.init fun _ _ hs _ => Server.step_viewsInv hs

end Cagebreak
