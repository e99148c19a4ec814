/-
The views of a workspace in the order of its list.

`ListIs managed w l` says that the list that starts at a head of the workspace is
`l`.  The loops over such a list are searches of `l`:

* `findView_next`, `findView_prev` — from the head on, and backwards;
* `viewGetPrevView_list` — backwards from a view, over the head;
* `ListIs.moveHead`, `ListIs.unlink` — what `seat_set_focus` and `view_unmap` do to
  the order.
-/
import Cagebreak.Valid

namespace Cagebreak

open Exec

namespace Views

variable {V V' V₁ V₂ : Views} {managed : Bool} {w : WsPtr} {v : ViewPtr} {l a b : List ViewPtr}

/-- The list that starts at a head consists of these views, in this order. -/
def ListIs (V : Views) (managed : Bool) (w : WsPtr) (l : List ViewPtr) : Prop :=
  V.links.IsRing (.head managed w :: l.map .view)

instance {L : DLinks Node} : DecidableRel L.Linked := fun _ _ => inferInstanceAs (Decidable (_ ∧ _))

instance : Decidable (V.ListIs managed w l) := decidable_of_iff _ DLinks.isRing_cons.symm

theorem ListIs.nodup (h : V.ListIs managed w l) : l.Nodup :=
  (List.nodup_map_iff (fun _ _ => Node.view.inj)).mp (List.nodup_cons.mp (DLinks.IsRing.nodup h)).2

theorem ListIs.chained (h : V.ListIs managed w l) (hv : v ∈ l) : V.links.Chained (.view v) :=
  DLinks.IsRing.chained h (List.mem_cons_of_mem _ (List.mem_map_of_mem hv))

/-- Everything in a list is of the kind of its head. -/
theorem ListIs.alike (h : V.ListIs managed w l) (hl : V.ListsInv) (hv : v ∈ l) :
    V.Alike (.head managed w) (.view v) := by
  have hchain := (DLinks.isRing_cons.mp h).2
  have htrans : IsTrans Node V.Alike := ⟨fun _ _ _ => Alike.trans⟩
  have hpair := List.isChain_iff_pairwise.mp (hchain.imp fun x y hxy => hl.next x y hxy.1)
  refine (List.pairwise_cons.mp hpair).1 _ ?_
  exact List.mem_append_left _ (List.mem_map_of_mem hv)

theorem ListIs.length_lt (h : V.ListIs managed w l) (hl : V.ListsInv) {T : Tiles} :
    l.length < V.fuel T := by
  have hsub : l ⊆ List.range V.viewTop :=
    fun v hv => List.mem_range.mpr (h.alike hl hv).right
  have hle := (List.subperm_of_subset h.nodup hsub).length_le
  rw [List.length_range] at hle
  rw [fuel]
  omega

/-- The head of a list is moved behind one of its views. -/
theorem ListIs.moveHead (h : V.ListIs managed w (a ++ v :: b))
    (h₁ : V.wlListRemove (.head managed w) = .ok V₁)
    (h₂ : V₁.wlListInsert (.view v) (.head managed w) = .ok V₂) :
    V₂.ListIs managed w (b ++ a ++ [v]) := by
  obtain ⟨x, y, hx, hy, rfl⟩ := Server.wlListRemove_spec _ h₁
  obtain ⟨z, hz, rfl⟩ := Server.wlListInsert_spec _ h₂
  rw [ListIs, List.map_append, List.map_cons] at h
  have hmove := DLinks.IsRing.move h hx hy hz
  rw [ListIs]
  simpa using hmove

/-- A view is unlinked. -/
theorem ListIs.unlink (h : V.ListIs managed w (a ++ v :: b))
    (h₁ : V.wlListRemove (.view v) = .ok V₁) : V₁.ListIs managed w (a ++ b) := by
  obtain ⟨x, y, hx, hy, rfl⟩ := Server.wlListRemove_spec _ h₁
  have hring : V.links.IsRing ((.head managed w :: a.map .view) ++ .view v :: b.map .view) := by
    simpa [ListIs] using h
  have hout := hring.unlink_append (List.cons_ne_nil _ _) hx hy
  rw [ListIs]
  simpa using hout

/-! ### The lists of several workspaces -/

variable {W : WsPtr → Prop} {L : Bool → WsPtr → List ViewPtr} {managed' : Bool} {w' : WsPtr}
  {l' : List ViewPtr}

theorem ListIs.exists_next (h : V.ListIs managed w l) {x y : Node}
    (hx : x ∈ Node.head managed w :: l.map Node.view) (hy : V.links.next x = some y) :
    y ∈ Node.head managed w :: l.map Node.view := by
  obtain ⟨z, hz, hlink⟩ := DLinks.IsRing.exists_next h hx
  obtain rfl := Option.some.inj (hlink.1.symm.trans hy)
  exact hz

theorem ListIs.exists_prev (h : V.ListIs managed w l) {x y : Node}
    (hx : x ∈ Node.head managed w :: l.map Node.view) (hy : V.links.prev x = some y) :
    y ∈ Node.head managed w :: l.map Node.view := by
  obtain ⟨z, hz, hlink⟩ := DLinks.IsRing.exists_prev h hx
  obtain rfl := Option.some.inj (hlink.2.symm.trans hy)
  exact hz

/-- Nothing is in two lists. -/
theorem ListIs.disjoint (h : V.ListIs managed w l) (h' : V.ListIs managed' w' l')
    (hne : ¬ (managed' = managed ∧ w' = w)) : ∀ x ∈ Node.head managed w :: l.map Node.view,
      x ∉ Node.head managed' w' :: l'.map Node.view := by
  refine DLinks.IsRing.disjoint h h' List.mem_cons_self fun hmem => ?_
  rcases List.mem_cons.mp hmem with e | hmem
  · obtain ⟨rfl, rfl⟩ := Node.head.inj e
    exact hne ⟨rfl, rfl⟩
  · obtain ⟨u, -, hu⟩ := List.mem_map.mp hmem
    exact nomatch hu

theorem ListIs.mem_node : Node.view v ∈ Node.head managed w :: l.map Node.view ↔ v ∈ l := by
  simp

theorem ListIs.notMem (h : V.ListIs managed w l) (h' : V.ListIs managed' w' l')
    (hne : ¬ (managed' = managed ∧ w' = w)) (hv : v ∈ l) : v ∉ l' := fun hv' =>
  h.disjoint h' hne _ (ListIs.mem_node.mpr hv) (ListIs.mem_node.mpr hv')

/-- These are the lists of the workspaces in `W`. -/
def ListsAre (V : Views) (W : WsPtr → Prop) (L : Bool → WsPtr → List ViewPtr) : Prop :=
  ∀ managed w, W w → V.ListIs managed w (L managed w)

/-- A view is unlinked, and taken out of the list it is in. -/
theorem ListsAre.unlink (h : V.ListsAre W L) (hw : W w) (hv : v ∈ L managed w)
    (h₁ : V.wlListRemove (.view v) = .ok V₁) :
    V₁.ListsAre W fun managed' w' => (L managed' w').filter (· ≠ v) := by
  intro managed' w' hw'
  have hl := h managed w hw
  show V₁.ListIs managed' w' ((L managed' w').filter (· ≠ v))
  by_cases hsame : managed' = managed ∧ w' = w
  · obtain ⟨rfl, rfl⟩ := hsame
    obtain ⟨a, b, hab⟩ := List.append_of_mem hv
    rw [hab] at hl ⊢
    have hnodup := hl.nodup
    simp only [List.nodup_append, List.nodup_cons, List.mem_cons] at hnodup
    have hfilter : (a ++ v :: b).filter (· ≠ v) = a ++ b := by
      rw [List.filter_append, List.filter_cons_of_neg (by simp), List.filter_eq_self.mpr,
        List.filter_eq_self.mpr]
      · intro u hu
        exact decide_eq_true fun e => hnodup.2.1.1 (e ▸ hu)
      · intro u hu
        exact decide_eq_true (hnodup.2.2 u hu v (.inl rfl))
    rw [hfilter]
    exact hl.unlink h₁
  · have hl' := h managed' w' hw'
    have hdisj := hl.disjoint hl' hsame
    have hvmem : Node.view v ∈ Node.head managed w :: (L managed w).map Node.view :=
      ListIs.mem_node.mpr hv
    obtain ⟨x, y, hx, hy, rfl⟩ := Server.wlListRemove_spec _ h₁
    have hfilter : (L managed' w').filter (· ≠ v) = L managed' w' := by
      refine List.filter_eq_self.mpr fun u hu => decide_eq_true ?_
      rintro rfl
      exact hl.notMem hl' hsame hv hu
    rw [hfilter]
    exact hl'.unlink_of_notMem (hdisj x (hl.exists_prev hvmem hx)) (hdisj _ hvmem)
      (hdisj y (hl.exists_next hvmem hy))

/-- A view that is in none of the lists is linked in at the front of one of them. -/
theorem ListsAre.link (h : V.ListsAre W L) (hw : W w)
    (hv : ∀ managed' w', W w' → v ∉ L managed' w')
    (h₁ : V.wlListInsert (.head managed w) (.view v) = .ok V₁) :
    V₁.ListsAre W fun managed' w' =>
      if managed' = managed ∧ w' = w then v :: L managed w else L managed' w' := by
  intro managed' w' hw'
  have hl := h managed w hw
  obtain ⟨x, hx, rfl⟩ := Server.wlListInsert_spec _ h₁
  show ListIs _ managed' w'
    (if managed' = managed ∧ w' = w then v :: L managed w else L managed' w')
  split
  · next hsame =>
    obtain ⟨rfl, rfl⟩ := hsame
    exact DLinks.IsRing.insert hl (fun hmem => hv _ _ hw (ListIs.mem_node.mp hmem)) hx
  · next hsame =>
    have hl' := h managed' w' hw'
    have hdisj := hl.disjoint hl' hsame
    exact hl'.insert_of_notMem (hdisj _ List.mem_cons_self)
      (fun hmem => hv _ _ hw' (ListIs.mem_node.mp hmem))
      (hdisj x (hl.exists_next List.mem_cons_self hx))

/-- The head of a list is moved behind one of its views, which changes the order of
this list only. -/
theorem ListsAre.moveHead (h : V.ListsAre W L) (hw : W w) (hv : v ∈ L managed w)
    (h₁ : V.wlListRemove (.head managed w) = .ok V₁)
    (h₂ : V₁.wlListInsert (.view v) (.head managed w) = .ok V₂) :
    ∃ L', V₂.ListsAre W L' ∧ ∀ managed w, (L' managed w).Perm (L managed w) := by
  have hl := h managed w hw
  obtain ⟨a, b, hab⟩ := List.append_of_mem hv
  have hmoved : V₂.ListIs managed w (b ++ a ++ [v]) := (hab ▸ hl).moveHead h₁ h₂
  refine ⟨fun managed' w' => if managed' = managed ∧ w' = w then b ++ a ++ [v] else L managed' w',
    fun managed' w' hw' => ?_, fun managed' w' => ?_⟩
  · show ListIs _ managed' w' (if managed' = managed ∧ w' = w then b ++ a ++ [v] else L managed' w')
    split
    · next hsame =>
      obtain ⟨rfl, rfl⟩ := hsame
      exact hmoved
    · next hsame =>
      have hl' := h managed' w' hw'
      have hdisj := hl.disjoint hl' hsame
      obtain ⟨x, y, hx, hy, rfl⟩ := Server.wlListRemove_spec _ h₁
      obtain ⟨z, hz, rfl⟩ := Server.wlListInsert_spec _ h₂
      have hyA := hl.exists_next List.mem_cons_self hy
      have hvA : Node.view v ∈ Node.head managed w :: (L managed w).map Node.view :=
        ListIs.mem_node.mpr hv
      -- behind the view comes what has come behind it, or behind the head
      have hzA : z ∈ Node.head managed w :: (L managed w).map Node.view := by
        rcases (DLinks.unlink_next_eq_some.mp hz).2 with ⟨-, rfl⟩ | ⟨-, hz⟩
        · exact hyA
        · exact hl.exists_next hvA hz
      have hout := hl'.unlink_of_notMem (hdisj x (hl.exists_prev List.mem_cons_self hx))
        (hdisj _ List.mem_cons_self) (hdisj y hyA)
      exact hout.insert_of_notMem (hdisj _ hvA) (hdisj _ List.mem_cons_self) (hdisj z hzA)
  · show (if managed' = managed ∧ w' = w then b ++ a ++ [v] else L managed' w').Perm (L managed' w')
    split
    · next hsame =>
      obtain ⟨rfl, rfl⟩ := hsame
      rw [hab]
      refine List.Perm.trans ?_ List.perm_middle.symm
      exact (List.perm_append_singleton v (b ++ a)).trans (List.perm_append_comm.cons v)
    · exact .refl _

end Views

namespace Server

open Views

variable {s s' : Server} {managed : Bool} {w : WsPtr} {t f : TilePtr} {u v : ViewPtr}
  {l a b : List ViewPtr} {p : ViewPtr → Exec Bool}

/-! ### Searching a list -/

theorem findM?_views {test : Node → Exec Bool} (htest : ∀ v ∈ l, test (.view v) = p v) : (do
      let found ← (l.map Node.view).findM? test
      ifSome found none fun n => do
        let v ← n.toView
        .ok (some v)) = l.findM? p := by
  induction l with
  | nil => rfl
  | cons v l ih =>
    rw [List.map_cons, List.findM?, List.findM?, htest v List.mem_cons_self]
    cases p v with
    | error e => rfl
    | ok r =>
      cases r with
      | true => rfl
      | false => exact ih fun u hu => htest u (List.mem_cons_of_mem _ hu)

/-- A loop that follows the pointers of a ring from its head searches the ring. -/
theorem findView_ring {L : DLinks Node} (h : L.IsRing (.head managed w :: l.map .view))
    (hlen : l.length < s.views.fuel s.tiles) :
    s.findView L.next (.head managed w) p = l.findM? p := by
  rw [findView]
  show (DLinks.findNode L.next _ _ _ (L.next _) >>= _) = _
  rw [h.findNode (by simpa using hlen) fun _ _ => rfl]
  exact findM?_views fun v _ => rfl

theorem findView_next (h : s.views.ListIs managed w l) (hl : s.views.ListsInv) :
    s.findView s.views.links.next (.head managed w) p = l.findM? p :=
  findView_ring h (h.length_lt hl)

theorem findView_prev (h : s.views.ListIs managed w l) (hl : s.views.ListsInv) :
    s.findView s.views.links.prev (.head managed w) p = l.reverse.findM? p := by
  have hswap := DLinks.IsRing.swap h
  rw [← List.map_reverse] at hswap
  refine findView_ring hswap ?_
  rw [List.length_reverse]
  exact h.length_lt hl

/-- `!view_is_visible`, the test of every search for a hidden view. -/
def isHidden (s : Server) (v : ViewPtr) : Exec Bool := do
  let vis ← s.viewIsVisible v
  .ok !vis

/-- **`view_get_prev_view`** searches the views before the given one, and from the end
of the list those behind it. -/
theorem viewGetPrevView_list (h : s.views.ListIs true w (a ++ v :: b)) (hl : s.views.ListsInv)
    (hv : s.views.workspaceOf v = .ok w) :
    s.viewGetPrevView v = (a.reverse ++ b.reverse).findM? s.isHidden := by
  have hring : s.views.links.swap.IsRing
      (.view v :: (a.reverse.map .view ++ .head true w :: b.reverse.map .view)) := by
    have hrot : s.views.links.IsRing
        (.view v :: (b.map .view ++ .head true w :: a.map .view)) := by
      simpa using @DLinks.IsRing.append_comm _ s.views.links (Node.head true w :: a.map Node.view)
        (Node.view v :: b.map Node.view) (by simpa [ListIs] using h)
    simpa using hrot.swap
  have hlen := h.length_lt hl (T := s.tiles)
  rw [List.length_append, List.length_cons] at hlen
  rw [viewGetPrevView, hv, ok_bind]
  show (DLinks.findNode s.views.links.swap.next _ _ _ (s.views.links.swap.next _) >>= _) = _
  rw [hring.findNode (by simp; omega) fun _ _ => rfl]
  have hhead := @findM?_skip Node (fun n => if n = .head true w then .ok false else do
    let u ← n.toView
    let vis ← s.viewIsVisible u
    .ok !vis) (a.reverse.map .view) (b.reverse.map .view) (.head true w) (if_pos rfl)
  rw [hhead, ← List.map_append]
  exact findM?_views fun u _ => if_neg nofun

/-! ### Focusing a view of the list -/

/-- `f` shows `v`, which has got the focus and is the last view of the list now. -/
structure FocusMoved (s : Server) (w : WsPtr) (f : TilePtr) (v : ViewPtr) (a b : List ViewPtr)
    (s' : Server) : Prop where
  stays : StaysValid s s'
  kept : s'.ViewsInv
  same : SameLayout s s'
  disp : s'.disp = { s.disp.assign f (some v) with focusedView := some v }
  list : s'.views.ListIs true w (b ++ a ++ [v])

/-- **`seat_set_focus`** on a view of the current list. -/
theorem seatSetFocus_list (h : s.Valid) (hvi : s.ViewsInv) (hw : s.outs.curWs = .ok w)
    (hf : s.tiles.focusedTile w = .ok f) (hl : s.views.ListIs true w (a ++ v :: b))
    (hv : s.Usable v) : Gives (s.seatSetFocus (some v)) (FocusMoved s w f v a b) := by
  have hman := (hl.alike hvi.lists (List.mem_append_right a List.mem_cons_self)).manages
  have husable : ∀ u, some v = some u → s.Usable u := by
    rintro u ⟨⟩
    exact hv
  have hknown : ∀ u : ℕ, some v = some u → u < s.views.viewTop := by
    rintro u ⟨⟩
    exact hman.known
  refine ((seatSetFocus_gives h husable).and ((seatSetFocus_kept hvi hknown).and
    (seatSetFocus_sameLayout.and (seatSetFocus_managed_assigned hman.managed)))).mono ?_
  rintro s' ⟨hstays, hkept, hsame, w', f', s₁, V₁, V₂, c, e, hw', hf', ha, hV₁, hV₂, rfl⟩
  obtain rfl := Except.ok.inj (hw.symm.trans hw')
  obtain rfl := Except.ok.inj (hf.symm.trans hf')
  refine ⟨hstays, hkept.inv, hsame, ?_, hl.moveHead hV₁ hV₂⟩
  rw [ha.eq]

/-! ### Hidden views -/

/-- The tile the view points at shows it. -/
def sees (s : Server) (v : ViewPtr) : Bool :=
  (s.disp.viewTile v).any fun t => s.disp.tileView t == some v

/-- The tile the view points at, if there is one, has not been freed. -/
def Anchored (s : Server) (v : ViewPtr) : Prop :=
  ∀ t, s.disp.viewTile v = some t → s.tiles.tileLive t = true

theorem anchored_iff : s.Anchored v ↔ (s.disp.viewTile v).all s.tiles.tileLive = true := by
  rw [Option.all_eq_true]
  exact Iff.rfl

theorem not_anchored : ¬ s.Anchored v ↔
    ∃ t, s.disp.viewTile v = some t ∧ s.tiles.tileLive t = false := by
  simp [Anchored]

theorem sees_eq_true : s.sees v = true ↔
    ∃ t, s.disp.viewTile v = some t ∧ s.disp.tileView t = some v := by
  rw [sees, Option.any_eq_true]
  simp only [beq_iff_eq]

/-- A managed view is hidden unless its tile shows it. -/
theorem isHidden_eq (hlive : s.views.viewLive v = true) (hm : s.views.managed v = true)
    (ha : s.Anchored v) : s.isHidden v = .ok (!s.sees v) := by
  rw [isHidden, viewIsVisible, viewGetTile, deref_eq_ok.mpr hlive, ok_bind, if_pos hm,
    ok_bind, sees]
  cases ht : s.disp.viewTile v with
  | none => rfl
  | some t =>
    rw [ifSome_some, deref_eq_ok.mpr (ha t ht), ok_bind]
    by_cases hv : s.disp.tileView t = some v
    · simp [hv]
    · simp [hv]

/-- Asking whether a view is visible that points at a freed tile is undefined. -/
theorem isHidden_undefined (hlive : s.views.viewLive v = true) (hm : s.views.managed v = true)
    (ha : ¬ s.Anchored v) : s.isHidden v = .error .undefined := by
  obtain ⟨t, ht, hdead⟩ := not_anchored.mp ha
  rw [isHidden, viewIsVisible, viewGetTile, deref_eq_ok.mpr hlive, ok_bind, if_pos hm, ok_bind, ht,
    ifSome_some, hdead]
  rfl

/-- What a search for a hidden view passes over. -/
theorem isHidden_eq_false (hlive : s.views.viewLive v = true) (hm : s.views.managed v = true) :
    s.isHidden v = .ok false ↔ s.Anchored v ∧ s.sees v = true := by
  by_cases ha : s.Anchored v
  · rw [isHidden_eq hlive hm ha]
    simp [ha]
  · rw [isHidden_undefined hlive hm ha]
    simp [ha]

/-- The full screen layout points three views at its tile, which is split. -/
def fullscreenSplit : List Input :=
  [.outputNew "HDMI-A-1" eightBySix none,
    .viewNew ⟨false, false, false, 0⟩, .viewNew ⟨false, false, false, 0⟩,
    .viewNew ⟨false, false, false, 0⟩, .viewMap 0 0 0, .viewMap 1 0 0, .viewMap 2 0 0,
    .command (.layoutFullscreen 0 0), .command (.splitVertical half),
    .command (.cycleTiles false 0)]

/-- The tile is absorbed by the new one while one of the views still is hidden. -/
def absorbedFullscreen : List Input := fullscreenSplit ++ [.command (.merge .left 0)]

end Server

end Cagebreak
