/-
Changing the number of workspaces.

Each output loses its last workspaces, or gets new ones behind those it has.  Either way
the first workspaces stay as they are, and the views of those that go are in the last one
that stays; what they point at is another matter.

* `keybindingSetNws_gives` — the command regroups the workspaces and their views;
* `keybindingSetNws_iff` — when the pointers of the views that have moved are in order.
-/
import Cagebreak.CurrentRuns
import Cagebreak.DropWorkspaces

namespace Cagebreak

open Exec

namespace Views

variable {V : Views} {managed managed' : Bool} {w w' : WsPtr} {l : List ViewPtr}

theorem listIs_wlListInit : (V.wlListInit (.head managed w)).ListIs managed w [] :=
  DLinks.isRing_singleton (Function.update_self _ _ _) (Function.update_self _ _ _)

/-- Another list is started. -/
theorem ListIs.wlListInit (h : V.ListIs managed w l) (hne : ¬ (managed' = managed ∧ w' = w)) :
    (V.wlListInit (.head managed' w')).ListIs managed w l := by
  have hother : ∀ x ∈ Node.head managed w :: l.map Node.view, x ≠ .head managed' w' := by
    intro x hx
    rcases List.mem_cons.mp hx with rfl | hx
    · rintro ⟨⟩
      exact hne ⟨rfl, rfl⟩
    · obtain ⟨v, -, rfl⟩ := List.mem_map.mp hx
      nofun
  exact DLinks.IsRing.congr h (fun x hx => Function.update_of_ne (hother x hx) _ _)
    fun x hx => Function.update_of_ne (hother x hx) _ _

end Views

namespace Server

open Views

variable {s s' : Server} {managed : Bool} {w : WsPtr} {v : ViewPtr} {t : TilePtr} {o : OutPtr}
  {L : Bool → WsPtr → List ViewPtr} {len : OutPtr → ℕ} {i n nws : ℕ}

/-! ### More workspaces -/

/-- What `full_screen_workspace_tiles` leaves: a tile that shows nothing. -/
def withTile (s : Server) (w : WsPtr) : Server :=
  let t := s.tiles.tileTop
  let frame := (s.outs.outBox (s.tiles.wsOutput w)).frame
  { s with
    tiles := { s.tiles with
      tileTop := t + 1
      tileLive := Function.update s.tiles.tileLive t true
      tileWorkspace := Function.update s.tiles.tileWorkspace t w
      tileBox := Function.update s.tiles.tileBox t frame
      tileLinks := ⟨Function.update s.tiles.tileLinks.next t (some t),
        Function.update s.tiles.tileLinks.prev t (some t)⟩
      tileId := Function.update s.tiles.tileId t s.tiles.tilesCurrId
      tilesCurrId := (s.tiles.tilesCurrId + 1) % uint32Size
      wsFocused := Function.update s.tiles.wsFocused w (some t)
      wsFrame := Function.update s.tiles.wsFrame w frame }
    disp.tileView := Function.update s.disp.tileView t none }

theorem fullScreenWorkspaceTiles_eq (ho : s.outs.outLive (s.tiles.wsOutput w) = true) :
    s.fullScreenWorkspaceTiles w = .ok (s.withTile w) := by
  rw [fullScreenWorkspaceTiles]
  show (deref (s.outs.outLive (s.tiles.wsOutput w)) >>= fun _ => _) = _
  rw [deref_eq_ok.mpr ho, ok_bind, workspaceTileUpdateView]
  show (deref (Function.update s.tiles.tileLive s.tiles.tileTop true s.tiles.tileTop) >>=
    fun _ => _) = _
  rw [Function.update_self, deref_eq_ok.mpr rfl, ok_bind]
  show (ifSome (Function.update s.disp.tileView s.tiles.tileTop none s.tiles.tileTop) _ _ >>=
    fun _ => _) = _
  rw [Function.update_self, ifSome_none, ok_bind, ifSome_none]
  exact congrArg (fun T : TilePtr → Option ViewPtr =>
    Except.ok { s.withTile w with disp.tileView := T })
    (Function.update_idem (f := s.disp.tileView) (a := s.tiles.tileTop) none none)

/-- What `full_screen_workspace` leaves: a workspace with one tile and two empty lists. -/
def withWorkspace (s : Server) (o : OutPtr) (num : ℕ) : Server :=
  let w := s.tiles.wsTop
  let s' := withTile { s with
    tiles := { s.tiles with
      wsTop := w + 1
      wsLive := Function.update s.tiles.wsLive w true
      wsOutput := Function.update s.tiles.wsOutput w o
      wsNum := Function.update s.tiles.wsNum w num } } w
  { s' with views := (s.views.wlListInit (.head true w)).wlListInit (.head false w) }

theorem newWorkspace_eq (ho : s.outs.outLive o = true) :
    s.newWorkspace o i = .ok (s.tiles.wsTop, s.withWorkspace o i) := by
  rw [newWorkspace]
  show (fullScreenWorkspaceTiles _ s.tiles.wsTop >>= fun _ => _) = _
  rw [fullScreenWorkspaceTiles_eq]
  · rfl
  · show s.outs.outLive (Function.update s.tiles.wsOutput s.tiles.wsTop o s.tiles.wsTop) = true
    rw [Function.update_self]
    exact ho

/-- **A workspace is added** exactly if there is a scene output for its tree. -/
theorem addWorkspace_eq_ok : addWorkspace o s i = .ok s' ↔
    s.outs.outLive o = true ∧ s.outs.sceneOutput o = true ∧
      (s.withWorkspace o i).setWorkspaces o
        ((s.withWorkspace o i).outs.outWorkspaces o ++ [s.tiles.wsTop]) = s' := by
  have hmade : s.outs.outLive o = true → s.outs.sceneOutput o = true →
      addWorkspace o s i = .ok ((s.withWorkspace o i).setWorkspaces o
        ((s.withWorkspace o i).outs.outWorkspaces o ++ [s.tiles.wsTop])) := by
    intro ho hscene
    rw [addWorkspace, fullScreenWorkspace, deref_eq_ok.mpr ho, ok_bind, if_pos hscene,
      newWorkspace_eq ho]
    rfl
  constructor
  · intro h
    obtain ⟨p, hp, hs'⟩ := bind_eq_ok.mp h
    obtain ⟨_, ho, hp⟩ := bind_eq_ok.mp hp
    replace ho := deref_eq_ok.mp ho
    by_cases hscene : s.outs.sceneOutput o = true
    · exact ⟨ho, hscene, Except.ok.inj ((hmade ho hscene).symm.trans h)⟩
    · -- the answer is `NULL`
      rw [if_neg hscene] at hp
      obtain rfl := Except.ok.inj hp
      obtain ⟨w, hw, -⟩ := bind_eq_ok.mp hs'
      exact nomatch nonNull_eq_ok.mp hw
  · rintro ⟨ho, hscene, rfl⟩
    exact hmade ho hscene

/-- The outputs have got new workspaces, which show nothing and have empty lists; what
there was before is as it was. -/
structure Grown (L : Bool → WsPtr → List ViewPtr) (nws : ℕ) (s s' : Server) : Prop where
  kept : Kept s s'
  outs : s'.outs = { s.outs with nws := nws, outWorkspaces := s'.outs.outWorkspaces }
  arrays : ∀ o, s.outs.outWorkspaces o <+: s'.outs.outWorkspaces o
  cursorAt : s'.cursorAt = s.cursorAt
  views : s'.views = { s.views with links := s'.views.links }
  viewTile : s'.disp.viewTile = s.disp.viewTile
  focusedView : s'.disp.focusedView = s.disp.focusedView
  wsTop : s.tiles.wsTop ≤ s'.tiles.wsTop
  tileTop : s.tiles.tileTop ≤ s'.tiles.tileTop
  ws : ∀ w : ℕ, w < s.tiles.wsTop → s'.tiles.wsLive w = s.tiles.wsLive w ∧
    s'.tiles.wsOutput w = s.tiles.wsOutput w
  tile : ∀ t : ℕ, t < s.tiles.tileTop → s'.tiles.tileLive t = s.tiles.tileLive t ∧
    s'.tiles.tileWorkspace t = s.tiles.tileWorkspace t ∧
    s'.tiles.tileBox t = s.tiles.tileBox t ∧ s'.disp.tileView t = s.disp.tileView t
  newWs : ∀ w : ℕ, s.tiles.wsTop ≤ w → s'.tiles.wsLive w = true →
    s'.tiles.wsOutput w ∈ s.outs.outputs
  newTile : ∀ t : ℕ, s.tiles.tileTop ≤ t → s'.tiles.tileLive t = true →
    (s.tiles.wsTop : ℕ) ≤ s'.tiles.tileWorkspace t ∧ s'.disp.tileView t = none
  lists : s'.views.ListsAre (fun w => s'.tiles.wsLive w = true) fun managed w =>
    if (w : ℕ) < s.tiles.wsTop then L managed w else []

theorem Grown.nil (hwf : WellFormed False s) (hvi : s.ViewsInv)
    (h : s.views.ListsAre (fun w => s.tiles.wsLive w = true) L) :
    Grown L nws s { s with outs.nws := nws } := by
  refine ⟨hvi.unchanged rfl rfl rfl, rfl, fun o => List.prefix_rfl, rfl, rfl, rfl, rfl, le_rfl,
    le_rfl, fun w _ => ⟨rfl, rfl⟩, fun t _ => ⟨rfl, rfl, rfl, rfl⟩, fun w hw hlive => ?_,
    fun t ht hlive => ?_, h.congr fun managed w hw => if_pos (hwf.tiles.ws_lt w hw)⟩
  · exact absurd (hwf.tiles.ws_lt w hlive) (Nat.not_lt.mpr hw)
  · exact absurd (hwf.tiles.tile_lt t hlive) (Nat.not_lt.mpr ht)

/-- One more workspace. -/
theorem Grown.append (h : Grown L nws s s') (hwf : WellFormed False s) (ho : o ∈ s.outs.outputs)
    (hscene : s.outs.sceneOutput o = true) :
    Gives (addWorkspace o s' i) (Grown L nws s) := by
  have hlive : s'.outs.outLive o = true := by
    rw [h.outs]
    exact hwf.outs.outLive o ho
  have hscene' : s'.outs.sceneOutput o = true := by
    rw [h.outs]
    exact hscene
  have hkept := addWorkspace_kept h.kept.inv (o := o) (i := i)
  rw [addWorkspace_eq_ok.mpr ⟨hlive, hscene', rfl⟩] at hkept ⊢
  set w₀ : ℕ := s'.tiles.wsTop with hw₀
  set t₀ : ℕ := s'.tiles.tileTop with ht₀
  have hw₀' : s.tiles.wsTop ≤ w₀ := h.wsTop
  have ht₀' : s.tiles.tileTop ≤ t₀ := h.tileTop
  refine Gives.ok ⟨h.kept.trans (hkept _ rfl), ?_, fun o' => ?_, h.cursorAt, ?_, h.viewTile,
    h.focusedView, Nat.le_succ_of_le hw₀', Nat.le_succ_of_le ht₀', fun w hw => ?_, fun t ht => ?_,
    fun w hw hwlive => ?_, fun t ht htlive => ?_, fun managed w hwlive => ?_⟩
  · exact congrArg (fun O : Outputs => { O with
      outWorkspaces := Function.update s'.outs.outWorkspaces o (s'.outs.outWorkspaces o ++ [w₀]) })
      h.outs
  · show _ <+: Function.update s'.outs.outWorkspaces o (s'.outs.outWorkspaces o ++ [w₀]) o'
    by_cases ho' : o' = o
    · rw [ho', Function.update_self]
      exact (h.arrays o).trans (List.prefix_append _ _)
    · rw [Function.update_of_ne ho']
      exact h.arrays o'
  · exact congrArg (fun V : Views => { V with
      links := ((s'.views.wlListInit (.head true w₀)).wlListInit (.head false w₀)).links })
      h.views
  · have hne : w ≠ w₀ := by omega
    rw [← (h.ws w hw).1, ← (h.ws w hw).2]
    exact ⟨Function.update_of_ne hne _ _, Function.update_of_ne hne _ _⟩
  · have hne : t ≠ t₀ := by omega
    obtain ⟨h1, h2, h3, h4⟩ := h.tile t ht
    rw [← h1, ← h2, ← h3, ← h4]
    exact ⟨Function.update_of_ne hne _ _, Function.update_of_ne hne _ _,
      Function.update_of_ne hne _ _, Function.update_of_ne hne _ _⟩
  · show Function.update s'.tiles.wsOutput w₀ o w ∈ _
    replace hwlive : Function.update s'.tiles.wsLive w₀ true w = true := hwlive
    by_cases hne : w = w₀
    · rw [hne, Function.update_self]
      exact ho
    · rw [Function.update_of_ne hne] at hwlive ⊢
      exact h.newWs w hw hwlive
  · show (s.tiles.wsTop : ℕ) ≤ Function.update s'.tiles.tileWorkspace t₀ w₀ t ∧
      Function.update s'.disp.tileView t₀ none t = none
    replace htlive : Function.update s'.tiles.tileLive t₀ true t = true := htlive
    by_cases hne : t = t₀
    · rw [hne, Function.update_self, Function.update_self]
      exact ⟨hw₀', rfl⟩
    · rw [Function.update_of_ne hne] at htlive ⊢
      rw [Function.update_of_ne hne]
      exact h.newTile t ht htlive
  · -- the other lists are out of the way of the two new ones
    show ((s'.views.wlListInit (.head true w₀)).wlListInit (.head false w₀)).ListIs managed w _
    replace hwlive : Function.update s'.tiles.wsLive w₀ true w = true := hwlive
    by_cases hne : w = w₀
    · have hnew : ¬ w < s.tiles.wsTop := by
        rw [hne]
        exact Nat.not_lt.mpr hw₀'
      show ListIs _ managed w (if (w : ℕ) < s.tiles.wsTop then L managed w else [])
      rw [if_neg hnew, hne]
      cases managed with
      | true => exact listIs_wlListInit.wlListInit (by simp)
      | false => exact listIs_wlListInit
    · rw [Function.update_of_ne hne] at hwlive
      have hother : ∀ m m' : Bool, ¬ (m' = m ∧ w₀ = w) := fun _ _ hc => hne hc.2.symm
      exact ((h.lists managed w hwlive).wlListInit (hother _ _)).wlListInit (hother _ _)

/-- **An output gets new workspaces.** -/
theorem Grown.step (h : Grown L nws s s') (hwf : WellFormed False s) (hc : CurrentInv s.outs)
    (hle : s.outs.nws ≤ nws) (ho : o ∈ s.outs.outputs)
    (hscene : s.outs.nws < nws → s.outs.sceneOutput o = true)
    (hlen : (s'.outs.outWorkspaces o).length = s.outs.nws) :
    Gives (outputSetNws s.outs.nws nws s' o) (Grown L nws s) := by
  rw [outputSetNws, Nat.sub_eq_zero_of_le hle]
  have htake : s'.setWorkspaces o ((s'.outs.outWorkspaces o).take nws) = s' := by
    rw [List.take_of_length_le (hlen ▸ hle), setWorkspaces, Function.update_eq_self]
  show Gives ((List.range' s.outs.nws (nws - s.outs.nws)).foldlM _
    (s'.setWorkspaces o ((s'.outs.outWorkspaces o).take nws)) >>= fun _ => _) _
  rw [htake]
  have hlt : ∀ i ∈ List.range' s.outs.nws (nws - s.outs.nws), s.outs.nws < nws := by
    intro i hi
    have := List.mem_range'_1.mp hi
    omega
  refine Gives.bind (Gives.foldlM (fun s₁ i hi h₁ => h₁.append hwf ho (hscene (hlt i hi))) h)
    fun s₁ h₁ => ?_
  refine Gives.ite (fun hcross => absurd hcross ?_) fun _ => Gives.ok h₁
  rw [h₁.outs]
  have := hc.workspace o ho
  show ¬ nws ≤ s.outs.outCurr o
  omega

/-- Where workspaces are to be added, the scene has a scene output for every output. -/
def HasScenes (s : Server) (n : ℕ) : Prop :=
  s.outs.nws < n → ∀ o ∈ s.outs.outputs, s.outs.sceneOutput o = true

/-- Without a scene output there is no new workspace whose number can be set. -/
theorem outputSetNws_hasScene (hlt : n < nws) (hs : outputSetNws n nws s o = .ok s') :
    s.outs.sceneOutput o = true := by
  rw [outputSetNws, Nat.sub_eq_zero_of_le hlt.le] at hs
  obtain ⟨s₁, hs₁, hs⟩ := bind_eq_ok.mp hs
  obtain rfl := Except.ok.inj hs₁
  obtain ⟨s₂, hs₂, -⟩ := bind_eq_ok.mp hs
  obtain ⟨k, hk⟩ : ∃ k, nws - n = k + 1 := ⟨nws - n - 1, by omega⟩
  rw [hk, List.range'_succ, List.foldlM_cons] at hs₂
  obtain ⟨s₃, hs₃, -⟩ := bind_eq_ok.mp hs₂
  exact (addWorkspace_eq_ok.mp hs₃).2.1

/-- **A new number of workspaces** is not reached without scene outputs. -/
theorem keybindingSetNws_hasScenes (hn : 1 ≤ n) (hs : s.keybindingSetNws n = .ok s') :
    s.HasScenes n := by
  intro hlt
  have hloop : ∀ (l : List OutPtr) (s₁ s₂ : Server),
      l.foldlM (outputSetNws s.outs.nws n) s₁ = .ok s₂ → ∀ o ∈ l, s₁.outs.sceneOutput o = true := by
    intro l
    induction l with
    | nil => exact fun _ _ _ => nofun
    | cons o l ih =>
      intro s₁ s₂ h
      rw [List.foldlM_cons] at h
      obtain ⟨s₃, hs₃, h⟩ := bind_eq_ok.mp h
      have hsame : s₃.outs.sceneOutput = s₁.outs.sceneOutput := by
        rw [(outputSetNws_outs hn s₃ hs₃).1]
      refine List.forall_mem_cons.mpr ⟨outputSetNws_hasScene hlt hs₃, fun o' ho' => ?_⟩
      rw [← hsame]
      exact ih s₃ s₂ h o' ho'
  obtain ⟨s₁, hs₁, -⟩ := bind_eq_ok.mp hs
  exact hloop _ { s with outs.nws := n } _ hs₁

/-! ### What is left of the workspaces -/

/-- A view in the list of a workspace is a view of that workspace. -/
def Belongs (s : Server) (L : Bool → WsPtr → List ViewPtr) : Prop :=
  ∀ w, s.tiles.wsLive w = true → ∀ v ∈ L true w, s.views.viewWorkspace v = some w

/-- The workspace has the tiles it has had, where they were and with what they showed. -/
def SameTiles (s s' : Server) (w : WsPtr) : Prop :=
  ∀ t, (s'.tiles.tileLive t = true ∧ s'.tiles.tileWorkspace t = w ↔
      s.tiles.tileLive t = true ∧ s.tiles.tileWorkspace t = w) ∧
    (s.tiles.tileLive t = true → s.tiles.tileWorkspace t = w →
      s'.tiles.tileBox t = s.tiles.tileBox t ∧ s'.disp.tileView t = s.disp.tileView t)

/-- In these lists every view of a workspace that goes is in the last one, once and in
no other list, and the other views are where they were. -/
structure Gathered (s : Server) (L : Bool → WsPtr → List ViewPtr) (n : ℕ) (s' : Server)
    (L' : Bool → WsPtr → List ViewPtr) : Prop where
  homed : s'.Homed L'
  mem : ∀ managed x, s'.tiles.wsLive x = true → ∀ v, v ∈ L' managed x ↔
    (s.tiles.wsLive x = true ∧ v ∈ L managed x) ∨
      ∃ w, s.Dropping n w ∧ s.lastWs n w = x ∧ v ∈ L managed w
  once : ∀ w, s.Dropping n w → ∀ managed, ∀ v ∈ L managed w,
    (L' managed (s.lastWs n w)).count v = 1
  only : ∀ w, s.Dropping n w → ∀ managed, ∀ v ∈ L managed w, ∀ managed' x,
    s'.tiles.wsLive x = true → v ∈ L' managed' x → managed' = managed ∧ x = s.lastWs n w

/-- Each output has the workspaces with the numbers below `n`. -/
structure Regrouped (s : Server) (L : Bool → WsPtr → List ViewPtr) (n : ℕ) (s' : Server) :
    Prop where
  outputs : s'.outs.outputs = s.outs.outputs
  nws : s'.outs.nws = n
  numbered : ∀ o ∈ s.outs.outputs, (s'.outs.outWorkspaces o).length = n ∧
    ∀ (i w : ℕ), (s'.outs.outWorkspaces o)[i]? = some w →
      s'.tiles.wsLive w = true ∧ s'.tiles.wsOutput w = o ∧ s'.tiles.wsNum w = i
  stays : ∀ o ∈ s.outs.outputs, ∀ (i w : ℕ), i < n → (s.outs.outWorkspaces o)[i]? = some w →
    (s'.outs.outWorkspaces o)[i]? = some w ∧ s.SameTiles s' w
  last : ∀ w, s.Dropping n w →
    (s'.outs.outWorkspaces (s.tiles.wsOutput w))[n - 1]? = some (s.lastWs n w)
  moved : ∀ w, s.Dropping n w → ∀ managed, ∀ v ∈ L managed w,
    s'.views.viewWorkspace v = some (s.lastWs n w)
  gathered : ∃ L', Gathered s L n s' L'

theorem Gathered.of_mem {L' : Bool → WsPtr → List ViewPtr} (h : s'.Homed L')
    (hmem : ∀ managed x, s'.tiles.wsLive x = true → ∀ v, v ∈ L' managed x ↔
      (s.tiles.wsLive x = true ∧ v ∈ L managed x) ∨
        ∃ w, s.Dropping n w ∧ s.lastWs n w = x ∧ v ∈ L managed w)
    (hlive : ∀ w, s.Dropping n w → s'.tiles.wsLive (s.lastWs n w) = true) :
    Gathered s L n s' L' := by
  have hin : ∀ w, s.Dropping n w → ∀ managed, ∀ v ∈ L managed w, v ∈ L' managed (s.lastWs n w) :=
    fun w hw managed v hv => (hmem managed _ (hlive w hw) v).mpr (.inr ⟨w, hw, rfl, hv⟩)
  refine ⟨h, hmem, fun w hw managed v hv => ?_, fun w hw managed v hv managed' x hx hv' => ?_⟩
  · exact List.count_eq_one_of_mem (h.lists managed _ (hlive w hw)).nodup (hin w hw managed v hv)
  · by_contra hne
    exact (h.lists managed _ (hlive w hw)).notMem (h.lists managed' x hx) hne
      (hin w hw managed v hv) hv'

theorem SameTiles.congr {s₁ s₂ : Server} (h : s.SameTiles s₁ w) (htiles : s₂.tiles = s₁.tiles)
    (hview : s₂.disp.tileView = s₁.disp.tileView) : s.SameTiles s₂ w := by
  rw [SameTiles, htiles, hview]
  exact h

theorem Regrouped.lastLive (h : Regrouped s L n s') (hwf : WellFormed False s)
    (hw : s.Dropping n w) : s'.tiles.wsLive (s.lastWs n w) = true := by
  have hlast := h.last w hw
  obtain ⟨o, ho, i, -, hget⟩ := hw
  rw [(hwf.outs.place o i w hget).2.1] at hlast
  exact ((h.numbered o ho).2 _ _ hlast).1

/-- What has the focus does not matter. -/
theorem Regrouped.refiled {s₁ s₂ : Server} (h : Regrouped s L n s₁) (hwf : WellFormed False s)
    (hre : Refiled s₁ s₂) (hk : KeepsLayout s₁ s₂) : Regrouped s L n s₂ := by
  obtain ⟨L₁, h₁⟩ := h.gathered
  obtain ⟨L₂, hL₂, hperm⟩ := hre.homed L₁ h₁.homed
  refine ⟨hk.outs ▸ h.outputs, hk.outs ▸ h.nws, ?_, fun o ho i w hi hw => ?_, hk.outs ▸ h.last, ?_,
    L₂, .of_mem hL₂ ?_ fun w hw => ?_⟩
  · rw [hk.outs, hk.tiles]
    exact h.numbered
  · obtain ⟨hget, hsame⟩ := h.stays o ho i w hi hw
    exact ⟨hk.outs ▸ hget, hsame.congr hk.tiles hre.showing.tileView⟩
  · rw [hre.views]
    exact h.moved
  · intro managed x hx v
    rw [(hperm managed x).mem_iff]
    rw [hk.tiles] at hx
    exact h₁.mem managed x hx v
  · rw [hk.tiles]
    exact h.lastLive hwf hw

/-- Between the loop over the outputs and the new focus. -/
structure Resettled (s : Server) (L : Bool → WsPtr → List ViewPtr) (n : ℕ) (s' : Server) :
    Prop where
  regrouped : Regrouped s L n s'
  valid : s'.Valid
  backed : s'.Backed
  viewTile : s'.disp.viewTile = s.disp.viewTile

/-- The lists tell that the pointers are in order. -/
theorem valid_of_homed (h : s.Valid) (hwf : WellFormed False s') (hcur : CurrentInv s'.outs)
    (houtputs : s'.outs.outputs = s.outs.outputs) (hoc : s'.outs.currOutput = s.outs.currOutput)
    (hhomes : ∀ w, s'.tiles.wsLive w = true → s'.outs.outLive (s'.tiles.wsOutput w) = true)
    (hcursor : s'.cursorAt = s.cursorAt) (hfocus : s'.disp.focusedView = s.disp.focusedView)
    (hviewLive : s'.views.viewLive = s.views.viewLive) (hL : s'.Homed L)
    (hshown : ∀ t v, s'.Shows t v → s.Shows t v ∧
      s'.views.viewWorkspace v = some (s'.tiles.tileWorkspace t)) : s'.Valid := by
  refine ⟨hwf, hcur, ?_, hhomes, ?_, fun w hw => ?_, fun t v hv => ?_, ?_⟩
  · rw [hoc]
    exact h.output
  · rw [hcursor, houtputs]
    exact h.cursorAt
  · exact DLinks.IsRing.chained (hL.lists true w hw) List.mem_cons_self
  · obtain ⟨hold, hws⟩ := hshown t v hv
    have hw := (hwf.tiles.tile_ws t hv.1).1
    refine ⟨?_, ⟨_, hws, hw⟩, (hL.lists true _ hw).chained (hL.shown t v hv)⟩
    rw [hviewLive]
    exact (h.shown t v hold).live
  · rw [hfocus, hviewLive]
    exact h.focused

theorem numbered_of_wellFormed (hwf : WellFormed False s') (hnws : s'.outs.nws = n)
    (ho : o ∈ s'.outs.outputs) : (s'.outs.outWorkspaces o).length = n ∧
      ∀ (i w : ℕ), (s'.outs.outWorkspaces o)[i]? = some w →
        s'.tiles.wsLive w = true ∧ s'.tiles.wsOutput w = o ∧ s'.tiles.wsNum w = i := by
  have hlen := hwf.outs.len o ho
  refine ⟨hlen.trans hnws, fun i w hw => ?_⟩
  obtain ⟨-, hout, hnum⟩ := hwf.outs.place o i w hw
  refine ⟨hwf.outs.wsLive o ho i w ?_ hw, hout, hnum⟩
  rw [← hlen]
  exact (List.getElem?_eq_some_iff.mp hw).1

/-- **Fewer workspaces.** -/
theorem Shrunk.resettled {done : List OutPtr} (h : Shrunk L n done s s') (hin : s.InOrder L)
    (hb : s.Belongs L) (hn : 1 ≤ n) (hwf' : WellFormed False s')
    (hdone : ∀ o, o ∈ done ↔ o ∈ s.outs.outputs) : Resettled s L n s' := by
  have hwf := hin.valid.layout
  obtain ⟨P, hP, hmem⟩ := h.dropped
  have hdropping : ∀ w, w ∈ P ↔ s.Dropping n w := by
    intro w
    rw [hmem]
    exact exists_congr fun o => and_congr_left fun _ => hdone o
  obtain ⟨L', hL', hmemL⟩ := hP.lists
  have houtputs : s'.outs.outputs = s.outs.outputs := by rw [h.outs, trimmed]
  have hnws : s'.outs.nws = n := by rw [h.outs, trimmed]
  have harray : ∀ o ∈ s.outs.outputs, ∀ i < n,
      (s'.outs.outWorkspaces o)[i]? = (s.outs.outWorkspaces o)[i]? := by
    intro o ho i hi
    rw [h.outs]
    show (if o ∈ done then (s.outs.outWorkspaces o).take n else _)[i]? = _
    rw [if_pos ((hdone o).mpr ho), List.getElem?_take_of_lt hi]
  -- a tile that is left has been there, in a workspace that is kept
  have hshows : ∀ t v, s'.Shows t v → s.Shows t v ∧ s.tiles.tileWorkspace t ∉ P := by
    intro t v hv
    obtain ⟨hlive, hnot⟩ := (hP.tileLive t).mp hv.1
    exact ⟨⟨hlive, hP.disp ▸ hv.2⟩, hnot⟩
  have hhomed : s'.Homed L' := by
    refine ⟨hL', fun t v hv => ?_⟩
    have hw := (hwf'.tiles.tile_ws t hv.1).1
    refine (hmemL true _ hw v).mpr (.inl ?_)
    rw [hP.tileWorkspace]
    exact hin.homed.shown t v (hshows t v hv).1
  have hmem' : ∀ managed x, s'.tiles.wsLive x = true → ∀ v, v ∈ L' managed x ↔
      (s.tiles.wsLive x = true ∧ v ∈ L managed x) ∨
        ∃ w, s.Dropping n w ∧ s.lastWs n w = x ∧ v ∈ L managed w := by
    intro managed x hx v
    rw [hmemL managed x hx, and_iff_right ((hP.wsLive x).mp hx).1]
    exact or_congr_right (exists_congr fun w => and_congr_left fun _ => hdropping w)
  -- the last workspace of the same output takes the views over
  have hlast : ∀ w, s.Dropping n w →
      (s'.outs.outWorkspaces (s.tiles.wsOutput w))[n - 1]? = some (s.lastWs n w) := by
    rintro w ⟨o, ho, i, hi, hw⟩
    obtain ⟨last, hlast⟩ := exists_last hn hi hw
    rw [(hwf.outs.place o i w hw).2.1, harray o ho _ (by omega), lastWs_eq hwf hw hlast]
    exact hlast
  have hland : ∀ w, s.Dropping n w → s'.tiles.wsLive (s.lastWs n w) = true :=
    fun w hw => hP.land w ((hdropping w).mpr hw)
  refine ⟨⟨houtputs, hnws, fun o ho => numbered_of_wellFormed hwf' hnws (houtputs.symm ▸ ho),
    fun o ho i w hi hw => ⟨?_, ?_⟩, hlast, fun w hw => hP.moved w ((hdropping w).mpr hw),
    L', .of_mem hhomed hmem' hland⟩, ?_, ⟨fun t v hv => ?_, fun t v hv => ?_⟩, ?_⟩
  · rw [harray o ho i hi]
    exact hw
  · -- none of its tiles has been freed
    have hwP : w ∉ P := by
      intro hwP
      obtain ⟨o', -, j, hj, hw'⟩ := (hdropping w).mp hwP
      have hnumi := (hwf.outs.place o i w hw).2.2
      have hnumj := (hwf.outs.place o' j w hw').2.2
      omega
    refine fun t => ⟨?_, fun _ _ => ⟨by rw [hP.tileBox], by rw [hP.disp]⟩⟩
    rw [hP.tileLive, hP.tileWorkspace]
    constructor
    · rintro ⟨⟨hlive, -⟩, hw⟩
      exact ⟨hlive, hw⟩
    · rintro ⟨hlive, rfl⟩
      exact ⟨⟨hlive, hwP⟩, rfl⟩
  -- a current workspace that is dropped is replaced by the last one that is kept
  · have hcur : CurrentInv s'.outs := by
      refine ⟨fun o ho => ?_, fun o ho => ?_⟩
      · rw [houtputs]
        rw [h.outs] at ho
        exact hin.valid.current.output o ho
      · rw [hnws, h.outs]
        show (if o ∈ done ∧ n ≤ s.outs.outCurr o then n - 1 else s.outs.outCurr o) < n
        rw [houtputs] at ho
        split
        · omega
        · next hnot => exact Nat.not_le.mp fun hc => hnot ⟨(hdone o).mpr ho, hc⟩
    refine valid_of_homed hin.valid hwf' hcur houtputs (by rw [h.outs, trimmed]) (fun w hw => ?_)
      hP.cursorAt (by rw [hP.disp]) (by rw [hP.views]) hhomed fun t v hv => ?_
    · rw [h.outs, hP.wsOutput]
      exact hin.valid.homes w ((hP.wsLive w).mp hw).1
    · obtain ⟨hold, hnot⟩ := hshows t v hv
      have hlive := (hwf.tiles.tile_ws t hold.1).1
      have hv' := hin.homed.shown t v hold
      refine ⟨hold, ?_⟩
      rw [hP.stays _ hlive hnot true v hv', hP.tileWorkspace]
      exact hb _ hlive v hv'
  · rw [hP.disp]
    exact hin.agree.tile t v (hshows t v hv).1
  · rw [hP.views]
    rw [hP.disp] at hv
    exact hin.backed.managed t v hv
  · rw [hP.disp]

/-- **More workspaces.** -/
theorem Grown.resettled (h : Grown L n s s') (hin : s.InOrder L) (hb : s.Belongs L)
    (hle : s.outs.nws ≤ n) (hwf' : WellFormed False s') : Resettled s L n s' := by
  have hwf := hin.valid.layout
  -- nothing is dropped
  have hnone : ∀ w, ¬ s.Dropping n w := by
    rintro w ⟨o, ho, i, hi, hw⟩
    have hlt := (List.getElem?_eq_some_iff.mp hw).1
    rw [hwf.outs.len o ho] at hlt
    omega
  have houtputs : s'.outs.outputs = s.outs.outputs := by rw [h.outs]
  have hnws : s'.outs.nws = n := by rw [h.outs]
  -- new tiles are empty
  have hshows : ∀ (t : ℕ) v, s'.Shows t v → t < s.tiles.tileTop ∧ s.Shows t v := by
    intro t v hv
    by_cases ht : t < s.tiles.tileTop
    · obtain ⟨hlive, -, -, hview⟩ := h.tile t ht
      exact ⟨ht, hlive ▸ hv.1, hview ▸ hv.2⟩
    · have hempty := (h.newTile t (Nat.not_lt.mp ht) hv.1).2
      exact nomatch hempty.symm.trans hv.2
  have hold : ∀ t v, s'.Shows t v → s.Shows t v ∧
      s'.tiles.tileWorkspace t = s.tiles.tileWorkspace t := by
    intro t v hv
    obtain ⟨ht, hv'⟩ := hshows t v hv
    exact ⟨hv', (h.tile t ht).2.1⟩
  have hhomed : s'.Homed fun managed w => if (w : ℕ) < s.tiles.wsTop then L managed w else [] := by
    refine ⟨h.lists, fun t v hv => ?_⟩
    obtain ⟨hv', hws⟩ := hold t v hv
    have hlt := hwf.tiles.ws_lt _ (hwf.tiles.tile_ws t hv'.1).1
    rw [hws, if_pos hlt]
    exact hin.homed.shown t v hv'
  have hmem : ∀ managed (x : ℕ), s'.tiles.wsLive x = true → ∀ v,
      v ∈ (if x < s.tiles.wsTop then L managed x else []) ↔
        (s.tiles.wsLive x = true ∧ v ∈ L managed x) ∨
          ∃ w, s.Dropping n w ∧ s.lastWs n w = x ∧ v ∈ L managed w := by
    intro managed x hx v
    rw [or_iff_left fun ⟨w, hw, _⟩ => hnone w hw]
    by_cases hlt : x < s.tiles.wsTop
    · rw [if_pos hlt, and_iff_right ((h.ws x hlt).1.symm.trans hx)]
    · rw [if_neg hlt]
      constructor
      · nofun
      · rintro ⟨hlive, -⟩
        exact absurd (hwf.tiles.ws_lt x hlive) hlt
  refine ⟨⟨houtputs, hnws, fun o ho => numbered_of_wellFormed hwf' hnws (houtputs.symm ▸ ho),
    fun o ho i w hi hw => ⟨?_, fun t => ⟨⟨?_, ?_⟩, fun hlive _ => ?_⟩⟩,
    fun w hw => absurd hw (hnone w), fun w hw => absurd hw (hnone w), _,
    .of_mem hhomed hmem fun w hw => absurd hw (hnone w)⟩, ?_, ⟨fun t v hv => ?_, ?_⟩, h.viewTile⟩
  · obtain ⟨l, hl⟩ := h.arrays o
    rw [← hl, List.getElem?_append_left (List.getElem?_eq_some_iff.mp hw).1]
    exact hw
  · rintro ⟨hlive, hws⟩
    by_cases ht : (t : ℕ) < s.tiles.tileTop
    · obtain ⟨hlive', hws', -, -⟩ := h.tile t ht
      exact ⟨hlive' ▸ hlive, hws' ▸ hws⟩
    · -- a new tile is in a new workspace
      have hnew := (h.newTile t (Nat.not_lt.mp ht) hlive).1
      have hlt := (hwf.outs.place o i w hw).1
      rw [hws] at hnew
      exact absurd hlt (Nat.not_lt.mpr hnew)
  · rintro ⟨hlive, hws⟩
    obtain ⟨hlive', hws', -, -⟩ := h.tile t (hwf.tiles.tile_lt t hlive)
    exact ⟨hlive'.trans hlive, hws'.trans hws⟩
  · exact (h.tile t (hwf.tiles.tile_lt t hlive)).2.2
  · have hcur : CurrentInv s'.outs := by
      refine ⟨fun o ho => ?_, fun o ho => ?_⟩
      · rw [houtputs]
        rw [h.outs] at ho
        exact hin.valid.current.output o ho
      · rw [houtputs] at ho
        rw [hnws, h.outs]
        exact lt_of_lt_of_le (hin.valid.current.workspace o ho) hle
    refine valid_of_homed hin.valid hwf' hcur houtputs (by rw [h.outs]) (fun w hw => ?_)
      h.cursorAt h.focusedView (by rw [h.views]) hhomed fun t v hv => ?_
    · rw [h.outs]
      by_cases hlt : (w : ℕ) < s.tiles.wsTop
      · obtain ⟨hlive, hout⟩ := h.ws w hlt
        rw [hout]
        exact hin.valid.homes w (hlive ▸ hw)
      · exact hwf.outs.outLive _ (h.newWs w (Nat.not_lt.mp hlt) hw)
    · obtain ⟨hv', hws⟩ := hold t v hv
      refine ⟨hv', ?_⟩
      rw [h.views, hws]
      exact hb _ (hwf.tiles.tile_ws t hv'.1).1 v (hin.homed.shown t v hv')
  · rw [h.viewTile]
    exact hin.agree.tile t v (hold t v hv).1
  · intro t v hv
    exact (h.kept.inv.shown t v hv).managed

/-! ### The command -/

/-- A loop over the outputs that have the old number of workspaces. -/
theorem setNws_gives {oldNws : ℕ} {I : List OutPtr → Server → Prop}
    (hstep : ∀ (o : OutPtr) (l : List OutPtr) (s : Server), o ∉ l → s.outs.nws = n →
      LayoutInv False none (fun o' => if o' ∈ o :: l then oldNws else n) s → I (o :: l) s →
      Gives (outputSetNws oldNws n s o) (I l)) {l : List OutPtr} (hnd : l.Nodup)
    (hmem : ∀ o ∈ l, o ∈ s.outs.outputs)
    (h : LayoutInv False none (fun o => if o ∈ l then oldNws else n) s) (hn : s.outs.nws = n)
    (hI : I l s) : Gives (l.foldlM (outputSetNws oldNws n) s) fun s' =>
      WellFormed False s' ∧ I [] s' := by
  suffices hret : ∀ (l : List OutPtr) (s : Server), l.Nodup → (∀ o ∈ l, o ∈ s.outs.outputs) →
      LayoutInv False none (fun o => if o ∈ l then oldNws else n) s → s.outs.nws = n → I l s →
      Gives (l.foldlM (outputSetNws oldNws n) s) fun _ => True by
    refine ((hret l s hnd hmem h hn hI).and (setNws_loop (fun o l s hol hn h hI =>
      (hstep o l s hol hn h hI).ensures) l s hnd hmem h hn hI)).mono ?_
    rintro s' ⟨-, h', hn', hI'⟩
    refine ⟨?_, hI'⟩
    rw [WellFormed, hn']
    exact h'
  intro l
  induction l with
  | nil => exact fun s _ _ _ _ _ => Gives.ok trivial
  | cons o l ih =>
    intro s hnd hmem h hn hI
    obtain ⟨hol, hnd⟩ := List.nodup_cons.mp hnd
    rw [List.foldlM_cons]
    refine Gives.bind ((hstep o l s hol hn h hI).and
      (outputSetNws_inv (o := o) (by simp) hn h (hmem o List.mem_cons_self))) ?_
    rintro s₁ ⟨hI₁, h₁, ho₁, hn₁⟩
    refine ih s₁ hnd (fun o' ho' => ho₁ ▸ hmem o' (List.mem_cons_of_mem _ ho')) ?_
      (hn₁.trans hn) hI₁
    refine ⟨h₁.tiles, h₁.cursor, { h₁.outs with len := fun o' ho' => ?_ }⟩
    rw [h₁.outs.len o' ho']
    by_cases e : o' = o
    · simp [e, hol]
    · simp [e]

/-- The loop over the outputs. -/
theorem setNws_resettled (hin : s.InOrder L) (hb : s.Belongs L) (hn : 1 ≤ n)
    (hscenes : s.HasScenes n) :
    Gives (s.outs.outputs.foldlM (outputSetNws s.outs.nws n) { s with outs.nws := n })
      (Resettled s L n) := by
  have hwf := hin.valid.layout
  have hstart := WellFormed.setNws hwf n
  rcases le_total n s.outs.nws with hle | hle
  · refine (setNws_gives (s := { s with outs.nws := n }) (I := fun l s' =>
      (∀ o ∈ l, o ∈ s.outs.outputs) ∧ ∃ done, (∀ o, o ∈ done ↔ o ∈ s.outs.outputs ∧ o ∉ l) ∧
        Shrunk L n done s s')
      (fun o l s' hol hn' hlay hI => ?_) hwf.outs.nodup (fun _ ho => ho) hstart rfl ?_).mono ?_
    · obtain ⟨hl, done, hdone, h'⟩ := hI
      have ho := hl o List.mem_cons_self
      have hod : o ∉ done := fun hod => ((hdone o).mp hod).2 List.mem_cons_self
      refine (h'.step hwf hn hle hlay ho hod fun x hx => ((hdone x).mp hx).1).mono fun s'' h'' =>
        ⟨fun x hx => hl x (List.mem_cons_of_mem _ hx), _, fun x => ?_, h''⟩
      rw [List.mem_cons, hdone, List.mem_cons, not_or]
      constructor
      · rintro (rfl | ⟨hx, -, hxl⟩)
        · exact ⟨ho, hol⟩
        · exact ⟨hx, hxl⟩
      · rintro ⟨hx, hxl⟩
        exact or_iff_not_imp_left.mpr fun hxo => ⟨hx, hxo, hxl⟩
    · exact ⟨fun _ ho => ho, [], by simp, .nil hin.homed.lists hin.views⟩
    · rintro s' ⟨hwf', -, done, hdone, h'⟩
      exact h'.resettled hin hb hn hwf' fun o => (hdone o).trans (and_iff_left List.not_mem_nil)
  · refine (setNws_gives (s := { s with outs.nws := n })
      (I := fun l s' => (∀ o ∈ l, o ∈ s.outs.outputs) ∧ Grown L n s s')
      (fun o l s' hol hn' hlay hI => ?_) hwf.outs.nodup (fun _ ho => ho) hstart rfl
      ⟨fun _ ho => ho, .nil hwf hin.views hin.homed.lists⟩).mono ?_
    · obtain ⟨hl, h'⟩ := hI
      have ho := hl o List.mem_cons_self
      have hlen : (s'.outs.outWorkspaces o).length = s.outs.nws := by
        rw [hlay.outs.len o]
        · simp
        · rw [h'.outs]
          exact ho
      exact (h'.step hwf hin.valid.current hle ho (hscenes · o ho) hlen).mono fun s'' h'' =>
        ⟨fun x hx => hl x (List.mem_cons_of_mem _ hx), h''⟩
    · rintro s' ⟨hwf', -, h'⟩
      exact h'.resettled hin hb hle hwf'

/-- **`keybinding_set_nws`** returns, and regroups the workspaces.  No view is told to
leave its tile. -/
theorem keybindingSetNws_gives (hin : s.InOrder L) (hb : s.Belongs L) (hn : 1 ≤ n)
    (hscenes : s.HasScenes n) : Gives (s.keybindingSetNws n) fun s' =>
      Regrouped s L n s' ∧ s'.disp.viewTile = s.disp.viewTile := by
  show Gives (s.outs.outputs.foldlM (outputSetNws s.outs.nws n) { s with outs.nws := n } >>=
    fun _ => _) _
  refine Gives.bind (setNws_resettled hin hb hn hscenes) fun s₁ h₁ => ?_
  have hrefiled : Ensures s₁.refocus (Refiled s₁) :=
    Ensures.bind_any fun f hf => focusShown_refiled h₁.valid.layout h₁.backed hf
  refine Gives.bind ((refocus_gives h₁.valid).and (hrefiled.and refocus_sameLayout)) ?_
  rintro s₂ ⟨-, hre, hk⟩
  have hemit : Refiled s₂ (s₂.emit (.setNws s.outs.nws s₂.outs.nws)) :=
    .of_views ⟨rfl, rfl, rfl⟩ rfl
  have hre' := hre.trans hemit
  refine Gives.ok ⟨h₁.regrouped.refiled hin.valid.layout hre'
    (hk.trans emit_sameLayout).toKeepsLayout, ?_⟩
  rw [hre'.showing.disp, ← h₁.viewTile]

/-! ### Looking at a state -/

/-- The views of the lists belong to their workspaces, decided. -/
def isBelongs (s : Server) (L : Bool → WsPtr → List ViewPtr) : Bool :=
  (List.range s.tiles.wsTop).all fun w => (L true w).all (s.views.viewWorkspace · = some w)

theorem belongs_of_isBelongs (h : WellFormed False s) (hs : s.isBelongs L = true) :
    s.Belongs L := by
  simp only [isBelongs, List.all_eq_true, List.mem_range, decide_eq_true_eq] at hs
  intro w hw
  exact hs w (h.tiles.ws_lt w hw)

/-- Views on two workspaces. -/
def twoLists (l l' : List ViewPtr) (managed : Bool) : Bool → WsPtr → List ViewPtr
  | true, 0 => l
  | m, 1 => if m = managed then l' else []
  | _, _ => []

/-- Of two workspaces the second one goes. -/
theorem dropping_second {w₁ w₂ : WsPtr} (houtputs : s.outs.outputs = [o])
    (hws : s.outs.outWorkspaces o = [w₁, w₂]) : s.Dropping 1 w ↔ w = w₂ := by
  rw [Dropping, houtputs]
  constructor
  · rintro ⟨o', ho', i, hi, hw⟩
    obtain rfl := List.mem_singleton.mp ho'
    rw [hws] at hw
    have hlt := (List.getElem?_eq_some_iff.mp hw).1
    have hi1 : i = 1 := by
      simp only [List.length_cons, List.length_nil] at hlt
      omega
    subst hi1
    exact (Option.some.inj hw).symm
  · rintro rfl
    refine ⟨o, List.mem_singleton_self o, 1, le_rfl, ?_⟩
    rw [hws]
    rfl

end Server

open Server

variable {s : Server} {L : Bool → WsPtr → List ViewPtr} {n : ℕ}

/-- What is to be true once there are `n` workspaces: a view that has changed its workspace
points at no tile or at one of that workspace. -/
structure Server.WorkspacesSet (s : Server) (L : Bool → WsPtr → List ViewPtr) (n : ℕ)
    (s' : Server) : Prop extends Regrouped s L n s' where
  pointers : ∀ w, s.Dropping n w → ∀ managed, ∀ v ∈ L managed w, ∀ t, s'.disp.viewTile v = some t →
    s'.tiles.tileLive t = true ∧ s'.tiles.tileWorkspace t = s.lastWs n w

/-- No view of a workspace that goes points at a tile, unless it is one of the workspace
that the view will be on. -/
def Server.Untiled (s : Server) (L : Bool → WsPtr → List ViewPtr) (n : ℕ) : Prop :=
  ∀ w, s.Dropping n w → ∀ managed, ∀ v ∈ L managed w, ∀ t, s.disp.viewTile v = some t →
    s.tiles.tileLive t = true ∧ s.tiles.tileWorkspace t = s.lastWs n w

/-- **The number of workspaces is set** as it should be, in a state whose pointers are in
order, exactly if the views that have to move point at no tile that is freed and the
workspaces that are new have a scene output to be on. -/
theorem keybindingSetNws_iff (hin : s.InOrder L) (hb : s.Belongs L) (hn : 1 ≤ n) :
    (∃ s', s.keybindingSetNws n = .ok s' ∧ s.WorkspacesSet L n s') ↔
      s.Untiled L n ∧ s.HasScenes n := by
  by_cases hscenes : s.HasScenes n
  swap
  · constructor
    · rintro ⟨s', hs', -⟩
      exact absurd (keybindingSetNws_hasScenes hn hs') hscenes
    · rintro ⟨-, h⟩
      exact absurd h hscenes
  rw [and_iff_left hscenes]
  obtain ⟨s', hs', hre, hview⟩ := keybindingSetNws_gives hin hb hn hscenes
  have hsame : ∀ w, s.Dropping n w → s.SameTiles s' (s.lastWs n w) := by
    rintro w ⟨o, ho, i, hi, hw⟩
    obtain ⟨last, hlast⟩ := exists_last hn hi hw
    rw [lastWs_eq hin.valid.layout hw hlast]
    exact (hre.stays o ho _ last (by omega) hlast).2
  constructor
  · rintro ⟨s'', hs'', hset⟩ w hw managed v hv t ht
    obtain rfl := Except.ok.inj (hs'.symm.trans hs'')
    exact (hsame w hw t).1.mp (hset.pointers w hw managed v hv t (hview ▸ ht))
  · intro h
    refine ⟨s', hs', hre, fun w hw managed v hv t ht => ?_⟩
    exact (hsame w hw t).1.mpr (h w hw managed v hv t (hview ▸ ht))

/-- A menu goes over to the workspace that is left. -/
theorem keybindingSetNws_iff_menu : ∃ s : Server, s.InOrder (twoLists [1] [0] false) ∧
    s.Dropping 1 1 ∧ ∃ s', s.keybindingSetNws 1 = .ok s' ∧
      s.WorkspacesSet (twoLists [1] [0] false) 1 s' := by
  obtain ⟨s, hs, htest⟩ := exists_of_returns (p := fun s : Server =>
      s.isInOrder (twoLists [1] [0] false) && s.isBelongs (twoLists [1] [0] false) &&
        decide (s.outs.outputs = [0]) && decide (s.outs.outWorkspaces 0 = [0, 1]) &&
        decide (s.disp.viewTile 0 = none) && decide (s.outs.nws = 2))
    (m := run step Server.init
      [.outputNew "HDMI-A-1" ⟨0, 0, 8, 6, by decide, by decide⟩ none,
        .command (.workspaces ⟨2, by decide⟩), .viewNew ⟨true, true, false, 0⟩,
        .viewNew ⟨false, false, false, 0⟩, .viewMap 1 0 0, .command (.switchWorkspace 1),
        .viewMap 0 0 0]) (by decide +kernel)
  simp only [Bool.and_eq_true, decide_eq_true_eq] at htest
  obtain ⟨⟨⟨⟨⟨horder, hbelongs⟩, houtputs⟩, hws⟩, hnone⟩, hnws⟩ := htest
  have hin := inOrder_of_isInOrder (Steps.of_run hs fun _ _ _ => trivial) horder
  have hdrop : ∀ w, s.Dropping 1 w ↔ w = 1 := fun w => dropping_second houtputs hws
  refine ⟨s, hin, (hdrop 1).mpr rfl, (keybindingSetNws_iff hin
    (belongs_of_isBelongs hin.valid.layout hbelongs) le_rfl).mpr ⟨?_, fun hlt => ?_⟩⟩
  swap
  · rw [hnws] at hlt
    omega
  intro w hw managed v hv t ht
  obtain rfl := (hdrop w).mp hw
  -- the menu is in no tile
  have hv0 : v = 0 := by
    revert hv
    cases managed with
    | true => simp [twoLists]
    | false => simp [twoLists]
  rw [hv0, hnone] at ht
  cases ht

/-- A view that is displayed on a workspace that goes still points at its tile, which has
been freed with the workspace. -/
theorem setNws_dangles : ¬ ∀ (s : Server) L n, Reachable s → s.InOrder L → s.Belongs L → 1 ≤ n →
    n ≤ 30 → ∃ s', s.keybindingSetNws n = .ok s' ∧ s.WorkspacesSet L n s' := by
  intro hall
  obtain ⟨s, hs, htest⟩ := exists_of_returns (p := fun s : Server =>
      s.isInOrder (twoLists [] [0] true) && s.isBelongs (twoLists [] [0] true) &&
        decide (s.outs.outputs = [0]) && decide (s.outs.outWorkspaces 0 = [0, 1]) &&
        returns (s.keybindingSetNws 1) fun s' =>
          decide (s'.disp.viewTile 0 = some 1) && !s'.tiles.tileLive 1)
    (m := run step Server.init
      [.outputNew "HDMI-A-1" ⟨0, 0, 8, 6, by decide, by decide⟩ none,
        .command (.workspaces ⟨2, by decide⟩), .command (.switchWorkspace 1),
        .viewNew ⟨false, false, false, 0⟩, .viewMap 0 0 0]) (by decide +kernel)
  simp only [Bool.and_eq_true, decide_eq_true_eq] at htest
  obtain ⟨⟨⟨⟨horder, hbelongs⟩, houtputs⟩, hws⟩, hreturns⟩ := htest
  have hr : Reachable s := Steps.of_run hs fun _ _ _ => trivial
  have hin := inOrder_of_isInOrder hr horder
  obtain ⟨s', hs', hset⟩ := hall s _ 1 hr hin (belongs_of_isBelongs hin.valid.layout hbelongs)
    le_rfl (by omega)
  obtain ⟨s'', hs'', hdangling⟩ := exists_of_returns hreturns
  obtain rfl := Except.ok.inj (hs'.symm.trans hs'')
  simp only [Bool.and_eq_true, decide_eq_true_eq, Bool.not_eq_true'] at hdangling
  have hlive := (hset.pointers 1 ((dropping_second houtputs hws).mpr rfl) true 0
    (by simp [twoLists])
    1 hdangling.1).1
  rw [hdangling.2] at hlive
  cases hlive

end Cagebreak
