/-
Workspaces that go away.

`keybinding_set_nws` drains the two lists of each workspace that goes into those of the
last one that stays, and frees the workspace with its tiles.  The views keep the tile
pointers they have had.

* `moveViews_gives` — one list is emptied into another;
* `Dropped.step` — a workspace is drained and freed;
* `Shrunk.step` — an output loses its last workspaces.
-/
import Cagebreak.MoveView

namespace Cagebreak

open Exec

namespace Views

variable {V V₁ : Views} {managed : Bool} {w w' : WsPtr} {v : ViewPtr} {l : List ViewPtr}
  {W : WsPtr → Prop} {L L' : Bool → WsPtr → List ViewPtr}

theorem ListsAre.congr (h : V.ListsAre W L) (hL : ∀ managed w, W w → L' managed w = L managed w) :
    V.ListsAre W L' := by
  intro managed w hw
  rw [hL managed w hw]
  exact h managed w hw

theorem ListIs.next_head (h : V.ListIs managed w l) :
    V.links.next (.head managed w) = some ((l.map Node.view).headD (.head managed w)) := by
  have hchain := (DLinks.isRing_cons.mp h).2
  cases l with
  | nil => exact (List.isChain_cons_cons.mp hchain).1.1
  | cons v l => exact (List.isChain_cons_cons.mp hchain).1.1

theorem ListIs.next_first (h : V.ListIs managed w (v :: l)) :
    V.links.next (.view v) = some ((l.map Node.view).headD (.head managed w)) := by
  have hchain := (List.isChain_cons_cons.mp (DLinks.isRing_cons.mp h).2).2
  cases l with
  | nil => exact (List.isChain_cons_cons.mp hchain).1.1
  | cons u l => exact (List.isChain_cons_cons.mp hchain).1.1

/-- One list is emptied into the front of another, view by view. -/
def poured (L : Bool → WsPtr → List ViewPtr) (managed : Bool) (w w' : WsPtr) :
    Bool → WsPtr → List ViewPtr := fun managed' x =>
  if managed' = managed ∧ x = w then []
  else if managed' = managed ∧ x = w' then (L managed w).reverse ++ L managed w'
  else L managed' x

theorem mem_poured {managed' : Bool} {x : WsPtr} (hx : x ≠ w) :
    v ∈ poured L managed w w' managed' x ↔
      v ∈ L managed' x ∨ managed' = managed ∧ x = w' ∧ v ∈ L managed w := by
  rw [poured, if_neg fun h => hx h.2]
  split
  · next hto =>
    obtain ⟨rfl, rfl⟩ := hto
    simp [or_comm]
  · next hto =>
    refine (or_iff_left ?_).symm
    rintro ⟨hm, hxw, -⟩
    exact hto ⟨hm, hxw⟩

/-- The other list of the workspace is as it was. -/
theorem poured_not : poured L managed w w' (!managed) w = L (!managed) w := by
  rw [poured, if_neg (by simp), if_neg (by simp)]

/-- The first view of a list goes over to the other list. -/
theorem ListsAre.pourOne (h : V.ListsAre W L) (hw : W w) (hw' : W w') (hne : w ≠ w')
    (hl : L managed w = v :: l) : ∃ V₁ K, V.wlListRemove (.view v) = .ok V₁ ∧
      V₁.wlListInsert (.head managed w') (.view v) = .ok { V with links := K } ∧
      ListsAre { V with links := K } W fun managed' x => if managed' = managed ∧ x = w then l
        else if managed' = managed ∧ x = w' then v :: L managed w' else L managed' x := by
  have hlist := h managed w hw
  rw [hl] at hlist
  have hv : v ∈ L managed w := by simp [hl]
  obtain ⟨⟨x, hx⟩, y, hy⟩ := hlist.chained List.mem_cons_self
  have hremove : V.wlListRemove (.view v) =
      .ok { V with links := V.links.unlink x (.view v) y } := by
    rw [wlListRemove, hx, hy]
    rfl
  have h₁ := h.unlink hw hv hremove
  have hfree : ∀ managed' w', W w' → v ∉ (L managed' w').filter (· ≠ v) := by
    intro managed' w' _ hmem
    simp at hmem
  obtain ⟨z, hz⟩ := (DLinks.IsRing.chained (h₁ managed w' hw') List.mem_cons_self).next
  have hinsert : wlListInsert { V with links := V.links.unlink x (.view v) y }
      (.head managed w') (.view v) = .ok { V with
        links := (V.links.unlink x (.view v) y).insert (.head managed w') (.view v) z } := by
    rw [wlListInsert, hz]
    rfl
  refine ⟨_, _, hremove, hinsert, (h₁.link hw' hfree hinsert).congr fun managed' u hu => ?_⟩
  have hnodup := hlist.nodup
  -- the view is in no other list
  have hothers : ¬ (managed' = managed ∧ u = w) → (L managed' u).filter (· ≠ v) = L managed' u := by
    intro hnot
    refine List.filter_eq_self.mpr fun u' hu' => decide_eq_true ?_
    rintro rfl
    exact hlist.notMem (h managed' u hu) hnot List.mem_cons_self hu'
  by_cases hsame : managed' = managed ∧ u = w
  · obtain ⟨rfl, rfl⟩ := hsame
    rw [if_pos ⟨rfl, rfl⟩, if_neg fun hc => hne hc.2, hl, List.filter_cons_of_neg (by simp)]
    refine (List.filter_eq_self.mpr fun u' hu' => decide_eq_true ?_).symm
    rintro rfl
    exact (List.nodup_cons.mp hnodup).1 hu'
  · rw [if_neg hsame]
    by_cases hto : managed' = managed ∧ u = w'
    · obtain ⟨rfl, rfl⟩ := hto
      rw [if_pos ⟨rfl, rfl⟩, if_pos ⟨rfl, rfl⟩, hothers hsame]
    · rw [if_neg hto, if_neg hto, hothers hsame]

end Views

namespace Server

open Views

variable {s s' : Server} {managed : Bool} {w w' : WsPtr} {v : ViewPtr} {l : List ViewPtr}
  {W : WsPtr → Prop} {L : Bool → WsPtr → List ViewPtr}

/-! ### Draining a list -/

/-- The views of one list have gone over to another, whose workspace they belong to. -/
structure Poured (W : WsPtr → Prop) (L : Bool → WsPtr → List ViewPtr) (managed : Bool)
    (w w' : WsPtr) (s s' : Server) : Prop where
  eq : s' = { s with views := { s.views with
    links := s'.views.links, viewWorkspace := s'.views.viewWorkspace } }
  lists : s'.views.ListsAre W (poured L managed w w')
  moved : ∀ v ∈ L managed w, s'.views.viewWorkspace v = some w'
  stays : ∀ v, v ∉ L managed w → s'.views.viewWorkspace v = s.views.viewWorkspace v

theorem pour_gives {n : ℕ} (h : s.views.ListsAre W L) (hw : W w) (hw' : W w') (hne : w ≠ w')
    (hl : L managed w = l) (hn : l.length < n) :
    Gives (forEachViewSafe (.head managed w) (fun s v => do
      let s ← s.unlinkView v
      let s ← s.linkView managed w' v
      .ok (s.setViewWorkspace v w')) n (s.views.links.next (.head managed w)) s)
      (Poured W L managed w w' s) := by
  induction l generalizing s L n with
  | nil =>
    obtain ⟨n, rfl⟩ := Nat.exists_eq_succ_of_ne_zero (Nat.ne_of_gt hn)
    have hlist := h managed w hw
    rw [hl] at hlist
    rw [hlist.next_head, forEachViewSafe]
    refine Gives.ite (fun _ => Gives.ok ⟨rfl, h.congr fun managed' x hx => ?_, ?_, fun _ _ => rfl⟩)
      fun hnot => absurd rfl hnot
    · rw [poured]
      split
      · next hsame => rw [hsame.1, hsame.2, hl]
      · split
        · next hto => rw [hl, hto.1, hto.2, List.reverse_nil, List.nil_append]
        · rfl
    · rw [hl]
      nofun
  | cons v l ih =>
    obtain ⟨n, rfl⟩ := Nat.exists_eq_succ_of_ne_zero (Nat.ne_of_gt (Nat.zero_lt_of_lt hn))
    have hlist := h managed w hw
    rw [hl] at hlist
    obtain ⟨V₁, K, hremove, hinsert, h₂⟩ := h.pourOne hw hw' hne hl
    set L₂ : Bool → WsPtr → List ViewPtr := fun managed' x =>
      if managed' = managed ∧ x = w then l
      else if managed' = managed ∧ x = w' then v :: L managed w' else L managed' x with hL₂
    have hl₂ : L₂ managed w = l := if_pos ⟨rfl, rfl⟩
    set s₂ : Server := ({ s with views.links := K } : Server).setViewWorkspace v w' with hs₂
    have hbody : (do
        let s ← s.unlinkView v
        let s ← s.linkView managed w' v
        Except.ok (s.setViewWorkspace v w') : Exec Server) = .ok s₂ := by
      rw [unlinkView, hremove]
      show (linkView { s with views := V₁ } managed w' v >>= fun _ => _) = _
      rw [linkView]
      show ((V₁.wlListInsert (.head managed w') (.view v) >>= fun _ => _) >>= fun _ => _) = _
      rw [hinsert]
      rfl
    -- the next iteration is at the front of what is left
    have hnext : s.views.links.next (.view v) = s₂.views.links.next (.head managed w) := by
      have hrest : s₂.views.ListIs managed w l := hl₂ ▸ h₂ managed w hw
      rw [hlist.next_first, hrest.next_head]
    have hlen : l.length < n := by
      rw [List.length_cons] at hn
      omega
    rw [hlist.next_head]
    show Gives (do
      let s' ← (do
        let s ← s.unlinkView v
        let s ← s.linkView managed w' v
        Except.ok (s.setViewWorkspace v w') : Exec Server)
      forEachViewSafe (.head managed w) _ n (s.views.links.next (.view v)) s') _
    rw [hbody, ok_bind, hnext]
    refine (ih (s := s₂) h₂ hl₂ hlen).mono fun s' h' => ?_
    have hpoured : ∀ managed' x,
        poured L managed w w' managed' x = poured L₂ managed w w' managed' x := by
      intro managed' x
      rw [poured, poured, hl₂, hl]
      split
      · rfl
      · next hsame =>
        split
        · next hto =>
          have hL : L₂ managed w' = v :: L managed w' := by
            rw [hL₂]
            show (if managed = managed ∧ w' = w then l else _) = _
            rw [if_neg fun hc => hne hc.2.symm, if_pos ⟨rfl, rfl⟩]
          rw [hL, List.reverse_cons, List.append_assoc, List.singleton_append]
        · next hto => exact ((if_neg hsame).trans (if_neg hto)).symm
    refine ⟨h'.eq, h'.lists.congr fun managed' x _ => hpoured managed' x, fun u hu => ?_,
      fun u hu => ?_⟩
    · rw [hl] at hu
      by_cases hul : u ∈ l
      · exact h'.moved u (hl₂.symm ▸ hul)
      · obtain rfl := (List.mem_cons.mp hu).resolve_right hul
        rw [h'.stays u (hl₂.symm ▸ hul)]
        exact Function.update_self _ _ _
    · rw [hl] at hu
      rw [List.mem_cons, not_or] at hu
      rw [h'.stays u (hl₂.symm ▸ hu.2)]
      exact Function.update_of_ne hu.1 _ _

/-- **One list is emptied into another.** -/
theorem moveViews_gives (hl : s.views.ListsInv) (h : s.views.ListsAre W L) (hw : W w) (hw' : W w')
    (hne : w ≠ w') : Gives (s.moveViews managed w w') (Poured W L managed w w' s) :=
  pour_gives h hw hw' hne rfl ((h managed w hw).length_lt hl)

/-! ### Freeing a workspace -/

theorem freeTilesLoop_gives {n : ℕ} {l : List TilePtr}
    (hl : DLinks.Path s.tiles.tileLinks.next (s.tiles.wsFocused w) l)
    (hlive : ∀ t ∈ l, s.tiles.tileLive t = true) (hnd : l.Nodup) (hn : l.length < n) :
    Gives (freeTilesLoop w n s) fun _ => True := by
  induction l generalizing s n with
  | nil =>
    obtain ⟨n, rfl⟩ := Nat.exists_eq_succ_of_ne_zero (Nat.ne_of_gt hn)
    rw [freeTilesLoop, show s.tiles.wsFocused w = none from hl]
    exact Gives.ok trivial
  | cons t l ih =>
    obtain ⟨n, rfl⟩ := Nat.exists_eq_succ_of_ne_zero (Nat.ne_of_gt (Nat.zero_lt_of_lt hn))
    obtain ⟨ht, hl⟩ := hl
    obtain ⟨htl, hnd⟩ := List.nodup_cons.mp hnd
    rw [freeTilesLoop, ht]
    refine Gives.deref (hlive t List.mem_cons_self) (ih ?_ (fun u hu => ?_) hnd ?_)
    · simpa using hl
    · have hut : u ≠ t := fun e => htl (e ▸ hu)
      show Function.update s.tiles.tileLive t false u = true
      rw [Function.update_of_ne hut]
      exact hlive u (List.mem_cons_of_mem _ hu)
    · rw [List.length_cons] at hn
      omega

/-- **`workspace_free`** returns. -/
theorem workspaceFree_gives (h : s.tiles.TilesInv False none) (hw : s.tiles.wsLive w = true) :
    Gives (s.workspaceFree w) fun s' => ∃ c T', s.tiles.Freed w T' ∧ s' = { s with
      cursorTile := c, tiles := { T' with wsLive := Function.update T'.wsLive w false } } := by
  suffices hret : Gives (s.workspaceFreeTiles w) fun _ => True by
    refine Gives.bind (hret.and (workspaceFreeTiles_spec h)) ?_
    rintro s₁ ⟨-, -, c, T', rfl, hT, -⟩
    exact Gives.ok ⟨c, T', hT, rfl⟩
  obtain ⟨f, l, hf, hl, -, hmem⟩ := h.exists_ring hw
  have hlive : ∀ u ∈ f :: l, s.tiles.tileLive u = true := fun u hu => ((hmem u).mp hu).1
  obtain ⟨⟨p, hp⟩, -⟩ := hl.chained List.mem_cons_self
  obtain ⟨-, hpath⟩ := hl.cut hp
  have hfoc : s.tiles.wsFocused w = some f := by
    obtain ⟨_, -, hfoc⟩ := bind_eq_ok.mp hf
    exact nonNull_eq_ok.mp hfoc
  rw [workspaceFreeTiles, hf, ok_bind, deref_eq_ok.mpr (hlive f List.mem_cons_self), ok_bind, hp]
  refine freeTilesLoop_gives (l := f :: l) ?_ hlive hl.nodup ?_
  · show DLinks.Path _ (s.tiles.wsFocused w) _
    rw [hfoc]
    exact hpath
  · exact Nat.lt_succ_of_le (h.length_le hl.nodup hlive)

/-! ### Dropping workspaces -/

/-- The workspaces of `P` are gone, and the views of each of them are in the lists of
the workspace that `into` names. -/
structure Dropped (L : Bool → WsPtr → List ViewPtr) (into : WsPtr → WsPtr) (P : List WsPtr)
    (s s' : Server) : Prop where
  kept : Kept s s'
  disp : s'.disp = s.disp
  cursorAt : s'.cursorAt = s.cursorAt
  wsLive : ∀ w, s'.tiles.wsLive w = true ↔ s.tiles.wsLive w = true ∧ w ∉ P
  tileLive : ∀ t, s'.tiles.tileLive t = true ↔
    s.tiles.tileLive t = true ∧ s.tiles.tileWorkspace t ∉ P
  tileWorkspace : s'.tiles.tileWorkspace = s.tiles.tileWorkspace
  tileBox : s'.tiles.tileBox = s.tiles.tileBox
  wsOutput : s'.tiles.wsOutput = s.tiles.wsOutput
  wsNum : s'.tiles.wsNum = s.tiles.wsNum
  views : s'.views = { s.views with
    links := s'.views.links, viewWorkspace := s'.views.viewWorkspace }
  land : ∀ w ∈ P, s'.tiles.wsLive (into w) = true
  lists : ∃ L', s'.views.ListsAre (fun w => s'.tiles.wsLive w = true) L' ∧
    ∀ managed x, s'.tiles.wsLive x = true → ∀ v, v ∈ L' managed x ↔
      v ∈ L managed x ∨ ∃ w ∈ P, into w = x ∧ v ∈ L managed w
  moved : ∀ w ∈ P, ∀ managed, ∀ v ∈ L managed w, s'.views.viewWorkspace v = some (into w)
  stays : ∀ w, s.tiles.wsLive w = true → w ∉ P → ∀ managed, ∀ v ∈ L managed w,
    s'.views.viewWorkspace v = s.views.viewWorkspace v

theorem Dropped.nil (h : s.views.ListsAre (fun w => s.tiles.wsLive w = true) L)
    (hvi : s.ViewsInv) {into : WsPtr → WsPtr} : Dropped L into [] s s := by
  refine ⟨hvi.kept, rfl, rfl, by simp, by simp, rfl, rfl, rfl, rfl, rfl, by simp, ⟨L, h, by simp⟩,
    by simp, fun _ _ _ _ _ _ => rfl⟩

/-- Both lists of a workspace go over. -/
theorem moveBoth_gives (hvi : s.ViewsInv) (h : s.views.ListsAre W L) (hw : W w) (hw' : W w')
    (hne : w ≠ w') : Gives (do
      let s ← s.moveViews true w w'
      s.moveViews false w w') fun s' =>
        Kept s s' ∧ s' = { s with views := { s.views with
          links := s'.views.links, viewWorkspace := s'.views.viewWorkspace } } ∧
        (∃ L', s'.views.ListsAre W L' ∧ ∀ managed x, x ≠ w → ∀ v, v ∈ L' managed x ↔
          v ∈ L managed x ∨ x = w' ∧ v ∈ L managed w) ∧
        (∀ managed, ∀ v ∈ L managed w, s'.views.viewWorkspace v = some w') ∧
        ∀ v, (∀ managed, v ∉ L managed w) → s'.views.viewWorkspace v = s.views.viewWorkspace v := by
  refine Gives.bind ((moveViews_gives hvi.lists h hw hw' hne).and (moveViews_kept hvi)) ?_
  rintro s₁ ⟨h₁, hk₁⟩
  refine ((moveViews_gives hk₁.inv.lists h₁.lists hw hw' hne).and (moveViews_kept hk₁.inv)).mono ?_
  rintro s₂ ⟨h₂, hk₂⟩
  have hfalse : poured L true w w' false w = L false w := poured_not
  refine ⟨hk₁.trans hk₂, ?_, ⟨_, h₂.lists, fun managed x hx v => ?_⟩, fun managed v hv => ?_,
    fun v hv => ?_⟩
  · rw [h₂.eq, h₁.eq]
  · rw [mem_poured hx, mem_poured hx, hfalse]
    cases managed with
    | true => simp
    | false => simp
  · cases managed with
    | true =>
      -- the view is not in the other list
      have hnot : v ∉ L false w := (h true w hw).notMem (h false w hw) (by simp) hv
      rw [h₂.stays v (hfalse ▸ hnot), h₁.moved v hv]
    | false => exact h₂.moved v (hfalse.symm ▸ hv)
  · rw [h₂.stays v (hfalse ▸ hv false), h₁.stays v (hv true)]

/-- **One more workspace is dropped.** -/
theorem Dropped.step {into : WsPtr → WsPtr} {P : List WsPtr} (h : Dropped L into P s s')
    (htiles : s'.tiles.TilesInv False none) (hw : s'.tiles.wsLive w = true)
    (hlast : s'.tiles.wsLive (into w) = true) (hne : w ≠ into w) (hinto : ∀ p ∈ P, into p ≠ w) :
    Gives (do
      let s ← s'.moveViews true w (into w)
      let s ← s.moveViews false w (into w)
      s.workspaceFree w) fun s'' => Dropped L into (P ++ [w]) s s'' := by
  obtain ⟨L', hL', hmem⟩ := h.lists
  have hsub : ∀ managed x, s'.tiles.wsLive x = true → ∀ v ∈ L managed x, v ∈ L' managed x :=
    fun managed x hx v hv => (hmem managed x hx v).mpr (.inl hv)
  have hfrom : ∀ managed v, v ∈ L' managed w → v ∈ L managed w := by
    intro managed v hv
    rcases (hmem managed w hw v).mp hv with hv | ⟨p, hp, he, -⟩
    · exact hv
    · exact absurd he (hinto p hp)
  -- what is in the list of another workspace stays there
  have hstay : ∀ managed x, s'.tiles.wsLive x = true → x ≠ w → ∀ v ∈ L' managed x,
      ∀ managed', v ∉ L' managed' w := fun managed x hx hxw v hv managed' hv' =>
    (hL' managed' w hw).notMem (hL' managed x hx) (fun e => hxw e.2) hv' hv
  show Gives (s'.moveViews true w (into w) >>= fun s => s.moveViews false w (into w) >>=
    fun s => s.workspaceFree w) _
  rw [← bind_assoc]
  refine Gives.bind (moveBoth_gives h.kept.inv hL' hw hlast hne) ?_
  rintro s₁ ⟨hk₁, heq₁, ⟨L₁, hL₁, hmem₁⟩, hmoved₁, hstays₁⟩
  have htiles₁ : s₁.tiles = s'.tiles := by rw [heq₁]
  refine ((workspaceFree_gives (htiles₁ ▸ htiles) (htiles₁ ▸ hw)).and
    (workspaceFree_kept hk₁.inv)).mono ?_
  rintro s₂ ⟨⟨c, T', hT, rfl⟩, hk₂⟩
  have hlive : ∀ x, Function.update T'.wsLive w false x = true ↔
      s.tiles.wsLive x = true ∧ x ∉ P ++ [w] := by
    intro x
    rw [List.mem_append, List.mem_singleton, not_or, ← and_assoc, ← h.wsLive, hT.wsLive, htiles₁]
    by_cases hxw : x = w
    · simp [hxw]
    · simp [hxw]
  have hsome : ∀ x, Function.update T'.wsLive w false x = true →
      s'.tiles.wsLive x = true ∧ x ≠ w := by
    intro x hx
    obtain ⟨hx, hxP⟩ := (hlive x).mp hx
    rw [List.mem_append, List.mem_singleton, not_or] at hxP
    exact ⟨(h.wsLive x).mpr ⟨hx, hxP.1⟩, hxP.2⟩
  have hkeep : ∀ x, s'.tiles.wsLive x = true → x ≠ w →
      Function.update T'.wsLive w false x = true := by
    intro x hx hxw
    rw [Function.update_of_ne hxw, hT.wsLive, htiles₁]
    exact hx
  refine ⟨h.kept.trans (hk₁.trans hk₂), ?_, ?_, hlive, fun t => ?_, ?_, ?_, ?_, ?_, ?_,
    fun p hp => ?_, ⟨L₁, fun managed x hx => ?_, fun managed x hx v => ?_⟩,
    fun p hp managed v hv => ?_,
    fun x hx hxP managed v hv => ?_⟩
  · show s₁.disp = s.disp
    rw [heq₁]
    exact h.disp
  · show s₁.cursorAt = s.cursorAt
    rw [heq₁]
    exact h.cursorAt
  · rw [List.mem_append, List.mem_singleton, not_or, ← and_assoc, ← h.tileLive, ← h.tileWorkspace,
      ← htiles₁]
    exact hT.tileLive t
  · show T'.tileWorkspace = s.tiles.tileWorkspace
    rw [hT.tileWorkspace, htiles₁, h.tileWorkspace]
  · show T'.tileBox = s.tiles.tileBox
    rw [hT.tileBox, htiles₁, h.tileBox]
  · show T'.wsOutput = s.tiles.wsOutput
    rw [hT.wsOutput, htiles₁, h.wsOutput]
  · show T'.wsNum = s.tiles.wsNum
    rw [hT.wsNum, htiles₁, h.wsNum]
  · show s₁.views = { s.views with
      links := s₁.views.links, viewWorkspace := s₁.views.viewWorkspace }
    rw [heq₁, h.views]
  · rcases List.mem_append.mp hp with hp | hp
    · exact hkeep _ (h.land p hp) (hinto p hp)
    · obtain rfl := List.mem_singleton.mp hp
      exact hkeep _ hlast hne.symm
  · exact hL₁ managed x (hsome x hx).1
  · obtain ⟨hx, hxw⟩ := hsome x hx
    rw [hmem₁ managed x hxw, hmem managed x hx]
    constructor
    · rintro ((hv | ⟨p, hp, he, hv⟩) | ⟨rfl, hv⟩)
      · exact .inl hv
      · exact .inr ⟨p, List.mem_append_left _ hp, he, hv⟩
      · exact .inr ⟨w, by simp, rfl, hfrom managed v hv⟩
    · rintro (hv | ⟨p, hp, rfl, hv⟩)
      · exact .inl (.inl hv)
      · rcases List.mem_append.mp hp with hp | hp
        · exact .inl (.inr ⟨p, hp, rfl, hv⟩)
        · obtain rfl := List.mem_singleton.mp hp
          exact .inr ⟨rfl, hsub managed p hw v hv⟩
  · show s₁.views.viewWorkspace v = some (into p)
    rcases List.mem_append.mp hp with hp | hp
    · have hv' := (hmem managed _ (h.land p hp) v).mpr (.inr ⟨p, hp, rfl, hv⟩)
      rw [hstays₁ v (hstay managed _ (h.land p hp) (hinto p hp) v hv')]
      exact h.moved p hp managed v hv
    · obtain rfl := List.mem_singleton.mp hp
      exact hmoved₁ managed v (hsub managed p hw v hv)
  · show s₁.views.viewWorkspace v = s.views.viewWorkspace v
    rw [List.mem_append, List.mem_singleton, not_or] at hxP
    have hx' := (h.wsLive x).mpr ⟨hx, hxP.1⟩
    rw [hstays₁ v (hstay managed x hx' hxP.2 v (hsub managed x hx' v hv))]
    exact h.stays x hx hxP.1 managed v hv

/-- What `keybinding_set_nws` does with one workspace that is dropped. -/
def dropAt (nws : ℕ) (o : OutPtr) (s : Server) (i : ℕ) : Exec Server := do
  let w ← s.outs.wsAt o i
  let last ← s.outs.wsAt o (nws - 1)
  deref (s.tiles.wsLive w && s.tiles.wsLive last)
  let s ← s.moveViews true w last
  let s ← s.moveViews false w last
  s.workspaceFree w

theorem dropAt_inv {len : OutPtr → ℕ} {o : OutPtr} {i nws : ℕ} (h : LayoutInv False none len s)
    (hi : s.outs.nws ≤ i) : Ensures (s.dropAt nws o i) fun s' =>
      LayoutInv False none len s' ∧ s'.outs = s.outs := by
  refine Ensures.bind_any fun w hw => Ensures.bind_any fun last _ => Ensures.deref fun _ => ?_
  refine Ensures.bind moveViews_keeps fun s₁ h₁ => Ensures.bind moveViews_keeps fun s₂ h₂ => ?_
  have h₂' := h₁.trans h₂
  refine (workspaceFree_last (h₂'.inv h) (o := o) (i := i) ?_ ?_).mono
    fun s₃ ⟨h₃, ho₃⟩ => ⟨h₃, ho₃.trans h₂'.outs⟩
  · rw [h₂'.outs]
    exact hw
  · rw [h₂'.outs]
    exact hi

/-- A workspace of a connected output that goes when there are `nws` workspaces. -/
def Dropping (s : Server) (nws : ℕ) (w : WsPtr) : Prop :=
  ∃ o ∈ s.outs.outputs, ∃ i, nws ≤ i ∧ (s.outs.outWorkspaces o)[i]? = some w

/-- The last of the first `nws` workspaces of the output that the workspace is on. -/
def lastWs (s : Server) (nws : ℕ) (w : WsPtr) : WsPtr :=
  ((s.outs.outWorkspaces (s.tiles.wsOutput w))[nws - 1]?).getD w

section Base

variable {len : OutPtr → ℕ} {o : OutPtr} {i nws : ℕ} {last : WsPtr} {P : List WsPtr}

theorem lastWs_eq (hwf : WellFormed False s) (hw : (s.outs.outWorkspaces o)[i]? = some w)
    (hlast : (s.outs.outWorkspaces o)[nws - 1]? = some last) : s.lastWs nws w = last := by
  rw [lastWs, (hwf.outs.place o i w hw).2.1, hlast]
  rfl

/-- There is a last workspace. -/
theorem exists_last (hn : 1 ≤ nws) (hi : nws ≤ i) (hw : (s.outs.outWorkspaces o)[i]? = some w) :
    ∃ last, (s.outs.outWorkspaces o)[nws - 1]? = some last := by
  obtain ⟨hlt, -⟩ := List.getElem?_eq_some_iff.mp hw
  exact ⟨_, List.getElem?_eq_getElem (by omega)⟩

theorem Dropping.lastWs_num (hwf : WellFormed False s) (hn : 1 ≤ nws) (hw : s.Dropping nws w) :
    s.tiles.wsNum (s.lastWs nws w) = nws - 1 := by
  obtain ⟨o, -, i, hi, hw⟩ := hw
  obtain ⟨last, hlast⟩ := exists_last hn hi hw
  rw [lastWs_eq hwf hw hlast]
  exact (hwf.outs.place o _ last hlast).2.2

theorem dropAt_gives (hwf : WellFormed False s) (hn : 1 ≤ nws)
    (h : Dropped L (s.lastWs nws) P s s') (hlay : LayoutInv False none len s')
    (ho : o ∈ s.outs.outputs) (hws : s'.outs.outWorkspaces o = s.outs.outWorkspaces o)
    (hlive : s'.outs.outLive = s.outs.outLive) (hnws : s'.outs.nws = nws) (hi : nws ≤ i)
    (hw : (s.outs.outWorkspaces o)[i]? = some w) (hwP : w ∉ P) (hP : ∀ p ∈ P, s.Dropping nws p) :
    Gives (s'.dropAt nws o i) fun s'' => Dropped L (s.lastWs nws) (P ++ [w]) s s'' ∧
      LayoutInv False none len s'' ∧ s''.outs = s'.outs := by
  obtain ⟨last, hlast⟩ := exists_last hn hi hw
  obtain ⟨-, -, hnum⟩ := hwf.outs.place o i w hw
  obtain ⟨-, -, hnumlast⟩ := hwf.outs.place o _ last hlast
  have hlen : i < s.outs.nws := by
    rw [← hwf.outs.len o ho]
    exact (List.getElem?_eq_some_iff.mp hw).1
  have hwlive : s'.tiles.wsLive w = true := (h.wsLive w).mpr ⟨hwf.outs.wsLive o ho i w hlen hw, hwP⟩
  have hlastlive : s'.tiles.wsLive last = true := by
    refine (h.wsLive last).mpr ⟨hwf.outs.wsLive o ho _ last (by omega) hlast, fun hmem => ?_⟩
    obtain ⟨o', -, j, hj, hlast'⟩ := hP last hmem
    have := (hwf.outs.place o' j last hlast').2.2
    omega
  have hat : ∀ j x, (s.outs.outWorkspaces o)[j]? = some x → s'.outs.wsAt o j = .ok x := by
    intro j x hx
    rw [Outputs.wsAt, hlive, deref_eq_ok.mpr (hwf.outs.outLive o ho), ok_bind, nonNull_eq_ok, hws]
    exact hx
  have hinto := lastWs_eq hwf hw hlast
  have hne : w ≠ last := by
    rintro rfl
    omega
  have hother : ∀ p ∈ P, s.lastWs nws p ≠ w := by
    rintro p hp rfl
    have := (hP p hp).lastWs_num hwf hn
    omega
  have hstep := h.step hlay.tiles hwlive (hinto.symm ▸ hlastlive) (hinto.symm ▸ hne) hother
  rw [hinto] at hstep
  refine Gives.and ?_ (dropAt_inv hlay (hnws.symm ▸ hi))
  rw [dropAt, hat i w hw, ok_bind, hat _ last hlast, ok_bind, hwlive, hlastlive]
  exact hstep

/-- **An output loses its last workspaces.** -/
theorem dropRange_gives {k a : ℕ} (hwf : WellFormed False s) (hn : 1 ≤ nws)
    (h : Dropped L (s.lastWs nws) P s s') (hlay : LayoutInv False none len s')
    (ho : o ∈ s.outs.outputs) (hws : s'.outs.outWorkspaces o = s.outs.outWorkspaces o)
    (hlive : s'.outs.outLive = s.outs.outLive) (hnws : s'.outs.nws = nws) (ha : nws ≤ a)
    (hk : a + k ≤ s.outs.nws) (hP : ∀ p ∈ P, s.Dropping nws p)
    (hfresh : ∀ i w, a ≤ i → (s.outs.outWorkspaces o)[i]? = some w → w ∉ P) :
    Gives ((List.range' a k).foldlM (dropAt nws o) s') fun s'' => ∃ P',
      Dropped L (s.lastWs nws) P' s s'' ∧ LayoutInv False none len s'' ∧ s''.outs = s'.outs ∧
      ∀ x, x ∈ P' ↔ x ∈ P ∨ ∃ i, a ≤ i ∧ i < a + k ∧ (s.outs.outWorkspaces o)[i]? = some x := by
  -- induction on the number of workspaces that are dropped
  induction k generalizing a P s' with
  | zero =>
    refine Gives.ok ⟨P, h, hlay, rfl, fun x => (or_iff_left ?_).symm⟩
    rintro ⟨i, hai, hi, -⟩
    omega
  | succ k ih =>
    have hlt : a < (s.outs.outWorkspaces o).length := by
      rw [hwf.outs.len o ho]
      omega
    obtain ⟨w, hw⟩ : ∃ w, (s.outs.outWorkspaces o)[a]? = some w := ⟨_, List.getElem?_eq_getElem hlt⟩
    rw [List.range'_succ, List.foldlM_cons]
    refine Gives.bind (dropAt_gives hwf hn h hlay ho hws hlive hnws ha hw
      (hfresh a w le_rfl hw) hP) ?_
    rintro s₁ ⟨h₁, hlay₁, houts₁⟩
    refine (ih h₁ hlay₁ (houts₁ ▸ hws) (houts₁ ▸ hlive) (houts₁ ▸ hnws) (by omega) (by omega)
      (fun p hp => ?_) fun i x hi hx hmem => ?_).mono ?_
    · rcases List.mem_append.mp hp with hp | hp
      · exact hP p hp
      · obtain rfl := List.mem_singleton.mp hp
        exact ⟨o, ho, a, ha, hw⟩
    · rcases List.mem_append.mp hmem with hmem | hmem
      · exact hfresh i x (by omega) hx hmem
      · obtain rfl := List.mem_singleton.mp hmem
        have hnumi := (hwf.outs.place o i x hx).2.2
        have hnuma := (hwf.outs.place o a x hw).2.2
        omega
    · rintro s₂ ⟨P', h₂, hlay₂, houts₂, hP'⟩
      refine ⟨P', h₂, hlay₂, houts₂.trans houts₁, fun x => ?_⟩
      rw [hP', List.mem_append, List.mem_singleton]
      constructor
      · rintro ((hx | rfl) | ⟨i, hai, hi, hx⟩)
        · exact .inl hx
        · exact .inr ⟨a, le_rfl, by omega, hw⟩
        · exact .inr ⟨i, by omega, by omega, hx⟩
      · rintro (hx | ⟨i, hai, hi, hx⟩)
        · exact .inl (.inl hx)
        · rcases Nat.eq_or_lt_of_le hai with rfl | hlt
          · exact .inl (.inr (Option.some.inj (hx.symm.trans hw)))
          · exact .inr ⟨i, by omega, by omega, hx⟩

/-! ### Fewer workspaces -/

/-- The outputs of `done` have been cut down to `nws` workspaces. -/
def trimmed (O : Outputs) (nws : ℕ) (done : List OutPtr) : Outputs :=
  { O with
    nws := nws
    outWorkspaces := fun o => if o ∈ done then (O.outWorkspaces o).take nws else O.outWorkspaces o
    outCurr := fun o => if o ∈ done ∧ nws ≤ O.outCurr o then nws - 1 else O.outCurr o }

/-- What the loop over the outputs leaves when there are to be fewer workspaces. -/
structure Shrunk (L : Bool → WsPtr → List ViewPtr) (nws : ℕ) (done : List OutPtr) (s s' : Server) :
    Prop where
  outs : s'.outs = trimmed s.outs nws done
  dropped : ∃ P, Dropped L (s.lastWs nws) P s s' ∧
    ∀ w, w ∈ P ↔ ∃ o ∈ done, ∃ i, nws ≤ i ∧ (s.outs.outWorkspaces o)[i]? = some w

variable {done : List OutPtr}

/-- The first workspaces of the outputs are still there. -/
theorem Shrunk.wsLive (h : Shrunk L nws done s s') (hwf : WellFormed False s)
    (hn : nws ≤ s.outs.nws)
    (ho : o ∈ s.outs.outputs) (hi : i < nws) (hw : (s.outs.outWorkspaces o)[i]? = some w) :
    s'.tiles.wsLive w = true := by
  obtain ⟨P, hP, hmem⟩ := h.dropped
  refine (hP.wsLive w).mpr ⟨hwf.outs.wsLive o ho i w (by omega) hw, fun hwP => ?_⟩
  obtain ⟨o', -, j, hj, hw'⟩ := (hmem w).mp hwP
  have hnumi := (hwf.outs.place o i w hw).2.2
  have hnumj := (hwf.outs.place o' j w hw').2.2
  omega

theorem Shrunk.nil (h : s.views.ListsAre (fun w => s.tiles.wsLive w = true) L)
    (hvi : s.ViewsInv) : Shrunk L nws [] s { s with outs.nws := nws } := by
  refine ⟨?_, [], ?_, by simp⟩
  · simp [trimmed]
  · have hkept : Kept s { s with outs.nws := nws } := hvi.unchanged rfl rfl rfl
    have hnil : Dropped L (s.lastWs nws) [] s s := .nil h hvi
    exact { hnil with kept := hkept }

theorem trimmed_cons (ho : o ∉ done) {O : Outputs} : trimmed O nws (o :: done) =
    { trimmed O nws done with
      outWorkspaces := Function.update (trimmed O nws done).outWorkspaces o
        (((trimmed O nws done).outWorkspaces o).take nws)
      outCurr := Function.update (trimmed O nws done).outCurr o
        (if nws ≤ O.outCurr o then nws - 1 else O.outCurr o) } := by
  have hws : (trimmed O nws (o :: done)).outWorkspaces =
      Function.update (trimmed O nws done).outWorkspaces o
        (((trimmed O nws done).outWorkspaces o).take nws) := by
    funext x
    by_cases hx : x = o
    · simp [trimmed, hx, ho]
    · simp [trimmed, hx]
  have hcur : (trimmed O nws (o :: done)).outCurr = Function.update (trimmed O nws done).outCurr o
      (if nws ≤ O.outCurr o then nws - 1 else O.outCurr o) := by
    funext x
    by_cases hx : x = o
    · simp [trimmed, hx]
    · simp [trimmed, hx]
  rw [← hws, ← hcur]
  rfl

/-- The last workspace is shown instead of one that is gone. -/
theorem showLast_gives (hlive : s.outs.outLive o = true) (hnws : s.outs.nws = nws) (hn : 1 ≤ nws)
    (hthere : ∀ i < nws, ∃ w, (s.outs.outWorkspaces o)[i]? = some w ∧ s.tiles.wsLive w = true) :
    Gives (if nws ≤ s.outs.outCurr o then do
        let s := { s with outs.outCurr := Function.update s.outs.outCurr o 0 }
        s.workspaceFocus o (nws - 1)
      else .ok s) fun s' => s' = { s with
        outs.outCurr := Function.update s.outs.outCurr o
          (if nws ≤ s.outs.outCurr o then nws - 1 else s.outs.outCurr o) } := by
  have hat : ∀ i < nws, ∃ w, (∀ c, Outputs.wsAt { s.outs with outCurr := c } o i = .ok w) ∧
      s.tiles.wsLive w = true := by
    intro i hi
    obtain ⟨w, hw, hwlive⟩ := hthere i hi
    refine ⟨w, fun c => ?_, hwlive⟩
    rw [Outputs.wsAt, deref_eq_ok.mpr hlive, ok_bind, nonNull_eq_ok]
    exact hw
  refine Gives.ite (fun hcross => ?_) fun hlt => Gives.ok ?_
  · obtain ⟨first, hfirst, hfirstLive⟩ := hat 0 (by omega)
    obtain ⟨last, hlast, hlastLive⟩ := hat (nws - 1) (by omega)
    have hlt : ¬ s.outs.nws ≤ nws - 1 := by omega
    rw [workspaceFocus]
    refine Gives.ite (fun hc => absurd hc hlt) fun _ => ?_
    show Gives (Outputs.wsAt _ o (Function.update s.outs.outCurr o 0 o) >>= fun _ => _) _
    rw [Function.update_self]
    refine Gives.bind ⟨first, hfirst _, rfl⟩ ?_
    rintro _ rfl
    refine Gives.bind ⟨last, hlast _, rfl⟩ ?_
    rintro _ rfl
    refine Gives.deref ?_ (Gives.ok ?_)
    · show (s.tiles.wsLive first && s.tiles.wsLive last) = true
      rw [hfirstLive, hlastLive]
      rfl
    · rw [if_pos hcross, Function.update_idem]
  · rw [if_neg hlt, Function.update_eq_self]

theorem Shrunk.step (h : Shrunk L nws done s s') (hwf : WellFormed False s) (hn : 1 ≤ nws)
    (hle : nws ≤ s.outs.nws) (hlay : LayoutInv False none len s') (ho : o ∈ s.outs.outputs)
    (hod : o ∉ done) (hdone : ∀ o ∈ done, o ∈ s.outs.outputs) :
    Gives (outputSetNws s.outs.nws nws s' o) (Shrunk L nws (o :: done) s) := by
  obtain ⟨P, hP, hmem⟩ := h.dropped
  have hws : s'.outs.outWorkspaces o = s.outs.outWorkspaces o := by
    rw [h.outs]
    exact if_neg hod
  have hlive : s'.outs.outLive = s.outs.outLive := by rw [h.outs, trimmed]
  have hnws : s'.outs.nws = nws := by rw [h.outs, trimmed]
  have hcurr : s'.outs.outCurr o = s.outs.outCurr o := by
    rw [h.outs]
    exact if_neg fun hc => hod hc.1
  have hfresh : ∀ i w, nws ≤ i → (s.outs.outWorkspaces o)[i]? = some w → w ∉ P := by
    intro i w _ hw hwP
    obtain ⟨o', ho', j, -, hw'⟩ := (hmem w).mp hwP
    have hout := (hwf.outs.place o i w hw).2.1
    have hout' := (hwf.outs.place o' j w hw').2.1
    exact hod (hout ▸ hout' ▸ ho')
  show Gives ((List.range' nws (s.outs.nws - nws)).foldlM (dropAt nws o) s' >>= fun _ => _) _
  refine Gives.bind (dropRange_gives hwf hn hP hlay ho hws hlive hnws le_rfl (by omega)
    (fun p hp => ?_) hfresh) ?_
  · obtain ⟨o', ho', i, hi, hw⟩ := (hmem p).mp hp
    exact ⟨o', hdone o' ho', i, hi, hw⟩
  rintro s₁ ⟨P', hP', -, houts₁, hmem'⟩
  -- nothing is added
  rw [Nat.sub_eq_zero_of_le hle]
  show Gives (if nws ≤ (s₁.setWorkspaces o _).outs.outCurr o then _ else _) _
  have houts₁' : s₁.outs = trimmed s.outs nws done := houts₁.trans h.outs
  have hall : ∀ w, w ∈ P' ↔
      ∃ o' ∈ o :: done, ∃ i, nws ≤ i ∧ (s.outs.outWorkspaces o')[i]? = some w := by
    intro w
    rw [hmem', hmem]
    constructor
    · rintro (⟨o', ho', hi⟩ | ⟨i, hi, -, hw⟩)
      · exact ⟨o', List.mem_cons_of_mem _ ho', hi⟩
      · exact ⟨o, List.mem_cons_self, i, hi, hw⟩
    · rintro ⟨o', ho', i, hi, hw⟩
      rcases List.mem_cons.mp ho' with rfl | ho'
      · refine .inr ⟨i, hi, ?_, hw⟩
        have hlt := (List.getElem?_eq_some_iff.mp hw).1
        rw [hwf.outs.len _ ho] at hlt
        omega
      · exact .inl ⟨o', ho', i, hi, hw⟩
  have hcurr₁ : s₁.outs.outCurr o = s.outs.outCurr o := by rw [houts₁, hcurr]
  have hshrunk : Shrunk L nws (o :: done) s
      { s₁ with outs := trimmed s.outs nws (o :: done) } := by
    have hkept : Kept s₁ { s₁ with outs := trimmed s.outs nws (o :: done) } :=
      hP'.kept.inv.unchanged rfl rfl rfl
    exact ⟨rfl, P', { hP' with kept := hP'.kept.trans hkept }, hall⟩
  refine (showLast_gives ?_ ?_ hn fun i hi => ?_).mono ?_
  · show s₁.outs.outLive o = true
    rw [houts₁, hlive]
    exact hwf.outs.outLive o ho
  · show s₁.outs.nws = nws
    rw [houts₁, hnws]
  · obtain ⟨w, hw⟩ : ∃ w, (s.outs.outWorkspaces o)[i]? = some w :=
      ⟨_, List.getElem?_eq_getElem (hwf.outs.len o ho ▸ by omega)⟩
    refine ⟨w, ?_, hshrunk.wsLive hwf hle ho hi hw⟩
    show (Function.update s₁.outs.outWorkspaces o _ o)[i]? = some w
    rw [Function.update_self, List.getElem?_take_of_lt hi, houts₁, hws]
    exact hw
  · rintro s₂ rfl
    rw [trimmed_cons hod, ← houts₁', ← hcurr₁] at hshrunk
    exact hshrunk

end Base

end Server

end Cagebreak
