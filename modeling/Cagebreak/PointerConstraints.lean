/-
Pointer constraints.

A client may ask for the pointer to be locked, or confined to a region of one of its
surfaces.  At most one constraint is active.  The seat activates it when its surface
gets the keyboard focus, recomputes its region at each commit of the surface and
deactivates it when another surface gets the focus.

`seat_set_constraint` takes the listener for commits off its list before it deactivates
the active constraint.  Deactivating a constraint that is for one use destroys it, and
`handle_constraint_destroy` takes the listener off its list once more.

* `seatSetConstraint_exactly` — setting a constraint is undefined exactly if it retires
  one for a single use;
* `constraints_attended` — the states and the faults of all runs;
* `active_follows_focus` — the runs in which the active constraint is the one of the
  surface with the keyboard focus;
* `locked_still` — a locked pointer stays where it is.
-/
import Cagebreak.Lib.Exec
import Mathlib.Logic.Function.Basic
import Mathlib.Algebra.Group.Prod
import Mathlib.Data.Finset.Basic

namespace Cagebreak

open Exec

/-- The link of a listener: `wl_list_remove` leaves its pointers `NULL`, and
`wl_list_init` makes them point to the link itself. -/
inductive ListenerLink
  | null
  | self
  /-- on the list of the listeners for the commits of a surface -/
  | commits (u : ℕ)
  deriving DecidableEq

/-- `wl_list_remove`, which follows both pointers. -/
def ListenerLink.remove : ListenerLink → Exec ListenerLink
  | .null => .error .undefined
  | .self => .ok .null
  | .commits _ => .ok .null

/-- The pixels of a `pixman_region32_t`. -/
abbrev Region := Finset (ℤ × ℤ)

/-- `enum wlr_pointer_constraint_v1_type`. -/
inductive ConstraintType
  | locked
  | confined
  deriving DecidableEq, Repr

/-- `struct wlr_pointer_constraint_v1`. -/
structure PointerConstraint (K : Type) where
  surface : ℕ
  type : ConstraintType
  /-- its lifetime is `ZWP_POINTER_CONSTRAINTS_V1_LIFETIME_ONESHOT` -/
  oneshot : Bool
  /-- `current.region`: the region the client has asked for -/
  currentRegion : Region
  /-- `current.cursor_hint`, if it is enabled -/
  cursorHint : Option (K × K)
  region : Region

/-- What the client of a constraint is told. -/
inductive ConstraintNotice
  | activated (c : ℕ)
  | deactivated (c : ℕ)
  /-- the constraint is destroyed -/
  | destroyed (c : ℕ)
  deriving DecidableEq

/-- The pointer of the seat, and what its clients ask for. -/
structure PointerSeat (K : Type) where
  constraint : ℕ → PointerConstraint K
  /-- `pointer_constraints->constraints`, the last one first -/
  constraints : List ℕ
  /-- the constraints with a `struct cg_pointer_constraint` -/
  attended : ℕ → Bool
  next : ℕ
  /-- `surface->input_region` -/
  inputRegion : ℕ → Region
  /-- `keyboard_state.focused_surface` -/
  focusedSurface : Option ℕ
  activeConstraint : Option ℕ
  constraintCommit : ListenerLink
  confine : Region
  cursor : K × K
  /-- `wlr_scene_node_at`: the surface of the node at a position, and the coordinates,
  which are not written if there is no node -/
  sceneNodeAt : K × K → Option ℕ × (K × K)
  /-- what the clients have been told, the last first -/
  notices : List ConstraintNotice

/-- The functions of wlroots that move the pointer and look for a constraint. -/
structure PointerHost (K : Type) where
  /-- `wlr_cursor_move` -/
  cursorMove : K × K → K × K → K × K
  /-- `wlr_region_confine` -/
  regionConfine : Region → K × K → K × K → Option (K × K)
  /-- `wlr_pointer_constraints_v1_constraint_for_surface`, for constraints of the surfaces
  that the first argument says -/
  constraintForSurface : (ℕ → ℕ) → List ℕ → ℕ → Option ℕ
  /-- what is found is a constraint of the surface -/
  found : ∀ {f l u c}, constraintForSurface f l u = some c → c ∈ l ∧ f c = u
  /-- it is found if there is one -/
  missed : ∀ {f l u}, constraintForSurface f l u = none → ∀ c ∈ l, f c ≠ u

/-- What happens to the pointer, its constraints and the keyboard focus. -/
inductive PointerEvent (K : Type)
  /-- a client asks for a constraint of a surface; `alloc` says if there is memory for
  the `struct cg_pointer_constraint` -/
  | create (u : ℕ) (type : ConstraintType) (oneshot : Bool) (region : Region) (alloc : Bool)
  | destroy (c : ℕ)
  /-- a surface is committed, with the state of its constraint -/
  | commit (u : ℕ) (input region : Region) (hint : Option (K × K))
  | surfaceDestroy (u : ℕ)
  /-- `seat_set_focus` of a view with the surface `u` -/
  | focus (u : ℕ)
  /-- `seat_set_focus` of the background -/
  | focusBackground
  /-- `handle_layer_surface_map` of a surface that wants the keyboard -/
  | layerMap (u : ℕ)
  /-- `handle_layer_surface_unmap`, if the surface has the keyboard focus -/
  | layerUnmap
  | motion (d : K × K)
  | motionAbsolute (p : K × K)
  /-- the surfaces are moved, or others are shown -/
  | sceneChange (at' : K × K → Option ℕ × (K × K))

/-- There is memory for what the event allocates. -/
def PointerEvent.Allocated {K : Type} : PointerEvent K → Prop
  | .create _ _ _ _ alloc => alloc = true
  | _ => True

namespace PointerSeat

variable {K : Type}

section Functions

variable [Add K] [Sub K]

/-! ### The functions of the seat -/

/-- The constraint of a surface, if wlroots finds one. -/
def constraintForSurface (s : PointerSeat K) (W : PointerHost K) (u : ℕ) : Option ℕ :=
  W.constraintForSurface (fun c => (s.constraint c).surface) s.constraints u

/-- The region of a constraint, as it is computed from the last commit of its surface. -/
def effectiveRegion (s : PointerSeat K) (c : ℕ) : Region :=
  if (s.constraint c).currentRegion ≠ ∅ then
    s.inputRegion (s.constraint c).surface ∩ (s.constraint c).currentRegion
  else s.inputRegion (s.constraint c).surface

/-- `constraint->region` is set. -/
def updateRegion (s : PointerSeat K) (c : ℕ) : PointerSeat K :=
  { s with constraint := Function.update s.constraint c
             { s.constraint c with region := s.effectiveRegion c } }

/-- `check_constraint_region`. -/
def checkConstraintRegion (s : PointerSeat K) : Exec (PointerSeat K) := do
  let c ← nonNull s.activeConstraint
  deref (c ∈ s.constraints)
  match (s.constraint c).type with
  | .confined => .ok { s with confine := (s.constraint c).region }
  | .locked => .ok { s with confine := ∅ }

/-- `handle_constraint_commit`. -/
def handleConstraintCommit (s : PointerSeat K) : Exec (PointerSeat K) := do
  let c ← nonNull s.activeConstraint
  deref (c ∈ s.constraints)
  (s.updateRegion c).checkConstraintRegion

/-- `warp_to_constraint_cursor_hint`. -/
def warpToConstraintCursorHint (s : PointerSeat K) : Exec (PointerSeat K) := do
  let c ← nonNull s.activeConstraint
  deref (c ∈ s.constraints)
  match (s.constraint c).cursorHint with
  | none => .ok s
  | some hint => .ok { s with cursor := s.cursor - (s.sceneNodeAt s.cursor).2 + hint }

/-- `handle_constraint_destroy`. -/
def handleConstraintDestroy (s : PointerSeat K) (c : ℕ) : Exec (PointerSeat K) := do
  let s ←
    if s.activeConstraint = some c then do
      let s ← s.warpToConstraintCursorHint
      let _ ← s.constraintCommit.remove
      .ok { s with constraintCommit := .self, activeConstraint := none }
    else .ok s
  .ok { s with attended := Function.update s.attended c false }

/-! ### The ends of constraints, in wlroots -/

/-- What wlroots does when a constraint is destroyed: its listener is notified, if there is
one, before the constraint is freed. -/
def constraintDestroy (s : PointerSeat K) (c : ℕ) : Exec (PointerSeat K) := do
  let s ← if s.attended c then s.handleConstraintDestroy c else .ok s
  .ok { s with
    constraints := s.constraints.filter (· ≠ c)
    notices := .destroyed c :: s.notices }

/-- `wlr_pointer_constraint_v1_send_deactivated` of wlroots: the client is told, and a
constraint that is for one use is destroyed. -/
def sendDeactivated (s : PointerSeat K) (c : ℕ) : Exec (PointerSeat K) := do
  deref (c ∈ s.constraints)
  let s := { s with notices := .deactivated c :: s.notices }
  if (s.constraint c).oneshot then s.constraintDestroy c else .ok s

/-! ### Setting a constraint -/

/-- The part of `seat_set_constraint` that deactivates the active constraint. -/
def retire (s : PointerSeat K) (d : Option ℕ) : Exec (PointerSeat K) :=
  ifSome s.activeConstraint s fun c => do
    let s ← if d = none then s.warpToConstraintCursorHint else .ok s
    s.sendDeactivated c

/-- The part of `seat_set_constraint` that activates the new constraint. -/
def activate (s : PointerSeat K) : Exec (PointerSeat K) :=
  ifSome s.activeConstraint { s with constraintCommit := .self } fun c => do
    deref (c ∈ s.constraints)
    let s ← (s.updateRegion c).checkConstraintRegion
    .ok { s with
      notices := .activated c :: s.notices
      constraintCommit := .commits (s.constraint c).surface }

/-- `seat_set_constraint`. -/
def seatSetConstraint (s : PointerSeat K) (d : Option ℕ) : Exec (PointerSeat K) :=
  if s.activeConstraint = d then .ok s
  else do
    let link ← s.constraintCommit.remove
    let s ← { s with constraintCommit := link }.retire d
    { s with activeConstraint := d }.activate

/-- `seat_maybe_set_constraint`. -/
def seatMaybeSetConstraint (W : PointerHost K) (s : PointerSeat K) (u : Option ℕ) :
    Exec (PointerSeat K) :=
  s.seatSetConstraint (u.bind (s.constraintForSurface W))

/-- `c` gets its `struct cg_pointer_constraint`. -/
def attend (s : PointerSeat K) (c : ℕ) : PointerSeat K :=
  { s with attended := Function.update s.attended c true }

/-- `handle_new_pointer_constraint`. -/
def handleNewPointerConstraint (s : PointerSeat K) (c : ℕ) (alloc : Bool) :
    Exec (PointerSeat K) :=
  if alloc = false then .ok s
  else if s.focusedSurface = some (s.constraint c).surface then
    (s.attend c).seatSetConstraint (some c)
  else .ok (s.attend c)

/-- `handle_cursor_motion`, up to `process_cursor_motion`. -/
def handleCursorMotion (W : PointerHost K) (s : PointerSeat K) (d : K × K) :
    Exec (PointerSeat K) :=
  ifSome s.activeConstraint { s with cursor := W.cursorMove s.cursor d } fun c => do
    deref (c ∈ s.constraints)
    let (surface, p) := s.sceneNodeAt s.cursor
    if surface = some (s.constraint c).surface then
      match (s.constraint c).type with
      | .locked => .ok s
      | .confined =>
        match W.regionConfine s.confine p (p + d) with
        | none => .ok s
        | some q => .ok { s with cursor := W.cursorMove s.cursor (q - p) }
    else .ok { s with cursor := W.cursorMove s.cursor d }

/-- A constraint that a client has asked for. -/
def withConstraint (s : PointerSeat K) (u : ℕ) (type : ConstraintType) (oneshot : Bool)
    (region : Region) : PointerSeat K :=
  { s with
    constraint := Function.update s.constraint s.next ⟨u, type, oneshot, region, none, ∅⟩
    constraints := s.next :: s.constraints
    attended := Function.update s.attended s.next false
    next := s.next + 1 }

/-- The state of a surface and its constraint after a commit. -/
def committed (s : PointerSeat K) (u : ℕ) (input region : Region) (hint : Option (K × K)) :
    PointerSeat K :=
  { s with
    inputRegion := Function.update s.inputRegion u input
    constraint := fun c =>
      if (s.constraint c).surface = u then
        { s.constraint c with currentRegion := region, cursorHint := hint }
      else s.constraint c }

/-- Handle one event. -/
def step (W : PointerHost K) (s : PointerSeat K) :
    PointerEvent K → Exec (PointerSeat K)
  | .create u type oneshot region alloc =>
    -- a second constraint of the surface is a protocol error
    if (s.constraintForSurface W u).isSome then .ok s
    else (s.withConstraint u type oneshot region).handleNewPointerConstraint s.next alloc
  | .destroy c => if c ∈ s.constraints then s.constraintDestroy c else .ok s
  | .commit u input region hint =>
    let s := s.committed u input region hint
    if s.constraintCommit = .commits u then s.handleConstraintCommit else .ok s
  | .surfaceDestroy u => do
    let s ← ifSome (s.constraintForSurface W u) s s.constraintDestroy
    if s.focusedSurface = some u then .ok { s with focusedSurface := none } else .ok s
  | .focus u => { s with focusedSurface := some u }.seatMaybeSetConstraint W (some u)
  | .focusBackground => { s with focusedSurface := none }.seatMaybeSetConstraint W none
  | .layerMap u => .ok { s with focusedSurface := some u }
  | .layerUnmap => .ok { s with focusedSurface := none }
  | .motion d => s.handleCursorMotion W d
  | .motionAbsolute p => .ok { s with cursor := p }
  | .sceneChange f => .ok { s with sceneNodeAt := f }

/-- `seat_create`. -/
def init (cursor : K × K) (scene : K × K → Option ℕ × (K × K)) : PointerSeat K where
  constraint _ := ⟨0, .locked, false, ∅, none, ∅⟩
  constraints := []
  attended _ := false
  next := 0
  inputRegion _ := ∅
  focusedSurface := none
  activeConstraint := none
  constraintCommit := .self
  confine := ∅
  cursor := cursor
  sceneNodeAt := scene
  notices := []

end Functions

variable {s s' s'' : PointerSeat K} {W : PointerHost K} {c : ℕ} {d : Option ℕ}
  {e : PointerEvent K}

/-! ### What holds in all runs -/

/-- The clients have been told of one activated constraint after the other; `a` is the
one whose client still takes it for active. -/
inductive Told : List ConstraintNotice → Option ℕ → Prop
  | nil : Told [] none
  | activated {l : List ConstraintNotice} {c : ℕ} : Told l none → Told (.activated c :: l) (some c)
  | deactivated {l : List ConstraintNotice} {c : ℕ} :
    Told l (some c) → Told (.deactivated c :: l) none
  | lost {l : List ConstraintNotice} {c : ℕ} : Told l (some c) → Told (.destroyed c :: l) none
  | destroyed {l : List ConstraintNotice} {c : ℕ} {a : Option ℕ} :
    Told l a → a ≠ some c → Told (.destroyed c :: l) a

/-- The active constraint exists, the seat hears of the commits of its surface, and its
region is the one of the last commit. -/
structure Holds (s : PointerSeat K) (c : ℕ) : Prop where
  mem : c ∈ s.constraints
  commits : s.constraintCommit = .commits (s.constraint c).surface
  region : (s.constraint c).region = s.effectiveRegion c
  confine : s.confine = match (s.constraint c).type with
    | .confined => s.effectiveRegion c
    | .locked => ∅

/-- The seat and the clients agree on the constraints and on the active one. -/
structure Attended (s : PointerSeat K) : Prop where
  fresh : ∀ c ∈ s.constraints, c < s.next
  single : ∀ c ∈ s.constraints, ∀ d ∈ s.constraints,
    (s.constraint c).surface = (s.constraint d).surface → c = d
  attended : ∀ c ∈ s.constraints, s.attended c = true
  idle : s.activeConstraint = none → s.constraintCommit = .self
  active : ∀ c, s.activeConstraint = some c → s.Holds c
  told : Told s.notices s.activeConstraint

/-- The same surfaces have constraints. -/
structure SameSurfaces (s s' : PointerSeat K) : Prop where
  constraints : s'.constraints = s.constraints
  surface : ∀ c, (s'.constraint c).surface = (s.constraint c).surface
  attended : s'.attended = s.attended
  next : s'.next = s.next

/-- The constraints are the same, but for the regions that are computed from them. -/
structure SameClients (s s' : PointerSeat K) : Prop extends SameSurfaces s s' where
  type : ∀ c, (s'.constraint c).type = (s.constraint c).type
  oneshot : ∀ c, (s'.constraint c).oneshot = (s.constraint c).oneshot
  currentRegion : ∀ c, (s'.constraint c).currentRegion = (s.constraint c).currentRegion
  inputRegion : s'.inputRegion = s.inputRegion
  focusedSurface : s'.focusedSurface = s.focusedSurface
  sceneNodeAt : s'.sceneNodeAt = s.sceneNodeAt

theorem SameClients.refl : SameClients s s where
  constraints := rfl
  surface _ := rfl
  type _ := rfl
  oneshot _ := rfl
  currentRegion _ := rfl
  attended := rfl
  next := rfl
  inputRegion := rfl
  focusedSurface := rfl
  sceneNodeAt := rfl

theorem SameClients.trans (h : SameClients s s') (h' : SameClients s' s'') :
    SameClients s s'' where
  constraints := h'.constraints.trans h.constraints
  surface c := (h'.surface c).trans (h.surface c)
  type c := (h'.type c).trans (h.type c)
  oneshot c := (h'.oneshot c).trans (h.oneshot c)
  currentRegion c := (h'.currentRegion c).trans (h.currentRegion c)
  attended := h'.attended.trans h.attended
  next := h'.next.trans h.next
  inputRegion := h'.inputRegion.trans h.inputRegion
  focusedSurface := h'.focusedSurface.trans h.focusedSurface
  sceneNodeAt := h'.sceneNodeAt.trans h.sceneNodeAt

theorem SameClients.effectiveRegion (h : SameClients s s') :
    s'.effectiveRegion c = s.effectiveRegion c := by
  rw [PointerSeat.effectiveRegion, PointerSeat.effectiveRegion, h.currentRegion, h.inputRegion,
    h.surface]

theorem SameClients.constraintForSurface (h : SameClients s s') (u : ℕ) :
    s'.constraintForSurface W u = s.constraintForSurface W u := by
  rw [PointerSeat.constraintForSurface, PointerSeat.constraintForSurface, h.constraints]
  simp only [h.surface]

theorem updateRegion_same : SameClients s (s.updateRegion c) := by
  have h : ∀ e, (s.updateRegion c).constraint e = if e = c
      then { s.constraint c with region := s.effectiveRegion c } else s.constraint e := by
    intro e
    exact Function.update_apply ..
  refine ⟨⟨rfl, ?_, rfl, rfl⟩, ?_, ?_, ?_, rfl, rfl, rfl⟩ <;>
  · intro e
    rw [h]
    split
    · subst e
      rfl
    · rfl

/-- The region of the active constraint is computed anew. -/
theorem checked_gives (hc : s.activeConstraint = some c) (hmem : c ∈ s.constraints) :
    Gives (s.updateRegion c).checkConstraintRegion fun s' => SameClients s s' ∧
      s'.activeConstraint = some c ∧ s'.notices = s.notices ∧ s'.cursor = s.cursor ∧
      s'.constraintCommit = s.constraintCommit ∧
      (s'.constraint c).region = s.effectiveRegion c ∧
      s'.confine = match (s.constraint c).type with
        | .confined => s.effectiveRegion c
        | .locked => ∅ := by
  have hsame : SameClients s (s.updateRegion c) := updateRegion_same
  have hregion : ((s.updateRegion c).constraint c).region = s.effectiveRegion c := by
    show (Function.update s.constraint c _ c).region = _
    rw [Function.update_self]
  have hlive : decide (c ∈ (s.updateRegion c).constraints) = true := decide_eq_true hmem
  refine Gives.nonNull hc (Gives.deref hlive ?_)
  rw [hsame.type c]
  cases (s.constraint c).type with
  | locked => exact Gives.ok ⟨{ hsame with }, hc, rfl, rfl, rfl, hregion, rfl⟩
  | confined => exact Gives.ok ⟨{ hsame with }, hc, rfl, rfl, rfl, hregion, hregion⟩

/-- The listener of the seat can be removed. -/
theorem Attended.remove (h : Attended s) : s.constraintCommit.remove = .ok .null := by
  cases ha : s.activeConstraint with
  | none =>
    rw [h.idle ha]
    rfl
  | some c =>
    rw [(h.active c ha).commits]
    rfl

/-- The clients that are not told keep what they have been told. -/
theorem Attended.of_same {a : Option ℕ} {l : List ConstraintNotice} (h : Attended s)
    (hs : SameSurfaces s s') (hidle : s'.activeConstraint = none → s'.constraintCommit = .self)
    (hactive : ∀ c, s'.activeConstraint = some c → s'.Holds c) (hn : s'.notices = l)
    (ha : s'.activeConstraint = a) (ht : Told l a) : Attended s' where
  fresh c hc := by
    rw [hs.constraints] at hc
    rw [hs.next]
    exact h.fresh c hc
  single c hc d hd hcd := by
    rw [hs.constraints] at hc hd
    rw [hs.surface, hs.surface] at hcd
    exact h.single c hc d hd hcd
  attended c hc := by
    rw [hs.constraints] at hc
    rw [hs.attended]
    exact h.attended c hc
  idle := hidle
  active := hactive
  told := by
    rw [hn, ha]
    exact ht

/-- The new constraint is told, and its surface is listened to. -/
theorem activate_gives (h : Attended s) (hs : SameClients s s')
    (hmem : ∀ c, s'.activeConstraint = some c → c ∈ s.constraints) (ht : Told s'.notices none) :
    Gives s'.activate fun t => Attended t ∧ t.activeConstraint = s'.activeConstraint ∧
      SameClients s t := by
  refine Gives.ifSome ?_ ?_
  · intro hnone
    have hsame : SameClients s { s' with constraintCommit := .self } := { hs with }
    refine ⟨?_, rfl, hsame⟩
    refine h.of_same hsame.toSameSurfaces (fun _ => rfl) ?_ rfl hnone ht
    intro c hc
    rw [show s'.activeConstraint = some c from hc] at hnone
    cases hnone
  · intro c hc
    have hmem' : c ∈ s'.constraints := by
      rw [hs.constraints]
      exact hmem c hc
    refine Gives.deref (decide_eq_true hmem') ((checked_gives hc hmem').bind ?_)
    rintro t ⟨hst, hact, hnot, -, -, hregion, hconf⟩
    have hsame : SameClients s t := hs.trans hst
    refine Gives.ok ⟨?_, hact.trans hc.symm, { hsame with }⟩
    refine h.of_same { hsame.toSameSurfaces with } ?_ ?_ rfl hact (.activated (hnot ▸ ht))
    · intro hnone
      rw [show t.activeConstraint = none from hnone] at hact
      cases hact
    · intro e he
      obtain rfl : c = e := Option.some.inj (hact.symm.trans he)
      have heff : t.effectiveRegion c = s'.effectiveRegion c := hst.effectiveRegion
      refine ⟨?_, rfl, ?_, ?_⟩
      · show c ∈ t.constraints
        rw [hst.constraints]
        exact hmem'
      · exact hregion.trans heff.symm
      · show t.confine = match (t.constraint c).type with
          | .confined => t.effectiveRegion c
          | .locked => ∅
        rw [hconf, hst.type, heff]

section

variable [Add K] [Sub K]

/-- The pointer is moved to where the client wants it. -/
theorem warp_gives (hc : s.activeConstraint = some c) (hmem : c ∈ s.constraints) :
    ∃ p, s.warpToConstraintCursorHint = .ok { s with cursor := p } := by
  have hlive : decide (c ∈ s.constraints) = true := decide_eq_true hmem
  rw [warpToConstraintCursorHint, nonNull_eq_ok.mpr hc, ok_bind, deref_eq_ok.mpr hlive, ok_bind]
  cases (s.constraint c).cursorHint with
  | none => exact ⟨s.cursor, rfl⟩
  | some hint => exact ⟨_, rfl⟩

/-! ### Setting the active constraint -/

/-- A constraint for more than one use is told that it is not active any more. -/
theorem sendDeactivated_lasting (hmem : c ∈ s.constraints)
    (honce : (s.constraint c).oneshot = false) :
    s.sendDeactivated c = .ok { s with notices := .deactivated c :: s.notices } := by
  rw [sendDeactivated, deref_eq_ok.mpr (decide_eq_true hmem), ok_bind]
  show (if (s.constraint c).oneshot = true then _ else _) = _
  rw [honce, if_neg Bool.false_ne_true]

/-- The listener has been removed, and is removed again when the constraint is
destroyed. -/
theorem sendDeactivated_oneshot (hc : s.activeConstraint = some c) (hmem : c ∈ s.constraints)
    (honce : (s.constraint c).oneshot = true) (hatt : s.attended c = true)
    (hlink : s.constraintCommit = .null) : s.sendDeactivated c = .error .undefined := by
  rw [sendDeactivated, deref_eq_ok.mpr (decide_eq_true hmem), ok_bind]
  show (if (s.constraint c).oneshot = true then _ else _) = _
  rw [honce, if_pos rfl, constraintDestroy]
  dsimp only
  rw [hatt, if_pos rfl, handleConstraintDestroy]
  dsimp only
  rw [if_pos hc]
  obtain ⟨p, hp⟩ := warp_gives (s := { s with notices := .deactivated c :: s.notices }) hc hmem
  rw [hp, ok_bind]
  dsimp only
  rw [hlink]
  rfl

theorem retire_of_none (ha : s.activeConstraint = none) : s.retire d = .ok s := by
  rw [retire, ha]
  rfl

theorem retire_of_active (hc : s.activeConstraint = some c) :
    s.retire d = (if d = none then s.warpToConstraintCursorHint else .ok s) >>=
      fun s => s.sendDeactivated c := by
  rw [retire, hc, ifSome_some]
  by_cases hd : d = none
  · rw [if_pos hd, if_pos hd]
  · rw [if_neg hd, if_neg hd]

/-- The active constraint is told before another one takes its place. -/
theorem retire_gives (hc : s.activeConstraint = some c) (hmem : c ∈ s.constraints)
    (honce : (s.constraint c).oneshot = false) :
    ∃ p, s.retire d = .ok { s with cursor := p, notices := .deactivated c :: s.notices } := by
  rw [retire_of_active hc]
  by_cases hd : d = none
  · obtain ⟨p, hp⟩ := warp_gives hc hmem
    rw [if_pos hd, hp, ok_bind]
    exact ⟨p, sendDeactivated_lasting (s := { s with cursor := p }) hmem honce⟩
  · rw [if_neg hd, ok_bind]
    exact ⟨s.cursor, sendDeactivated_lasting hmem honce⟩

theorem retire_undefined (hc : s.activeConstraint = some c) (hmem : c ∈ s.constraints)
    (honce : (s.constraint c).oneshot = true) (hatt : s.attended c = true)
    (hlink : s.constraintCommit = .null) : s.retire d = .error .undefined := by
  rw [retire_of_active hc]
  by_cases hd : d = none
  · obtain ⟨p, hp⟩ := warp_gives hc hmem
    rw [if_pos hd, hp, ok_bind]
    exact sendDeactivated_oneshot hc hmem honce hatt hlink
  · rw [if_neg hd, ok_bind]
    exact sendDeactivated_oneshot hc hmem honce hatt hlink

/-- The constraint `d` takes the place of an active constraint for one use. -/
def Retires (s : PointerSeat K) (d : Option ℕ) : Prop :=
  ∃ c, s.activeConstraint = some c ∧ d ≠ some c ∧ (s.constraint c).oneshot = true

/-- **Setting the active constraint.** -/
theorem seatSetConstraint_exactly (h : Attended s) (hmem : ∀ c, d = some c → c ∈ s.constraints) :
    Exactly (¬ s.Retires d) (s.seatSetConstraint d) fun t =>
      Attended t ∧ t.activeConstraint = d ∧ SameClients s t := by
  rw [seatSetConstraint]
  by_cases hd : s.activeConstraint = d
  · rw [if_pos hd]
    refine (Exactly.ok ⟨h, hd, .refl⟩).congr ⟨fun _ => trivial, fun _ => ?_⟩
    rintro ⟨c, hc, hne, -⟩
    exact hne (hd.symm.trans hc)
  rw [if_neg hd, h.remove, ok_bind]
  have hs : SameClients s { s with constraintCommit := .null } := { SameClients.refl with }
  obtain ha | ⟨c, ha⟩ := Option.eq_none_or_eq_some s.activeConstraint
  · rw [retire_of_none (s := { s with constraintCommit := .null }) ha, ok_bind]
    refine (Exactly.of_gives ?_).congr ⟨fun _ => trivial, fun _ => ?_⟩
    · refine activate_gives h { hs with } hmem ?_
      have ht := h.told
      rwa [ha] at ht
    · rintro ⟨c, hc, -⟩
      rw [ha] at hc
      cases hc
  · have hact := h.active c ha
    by_cases honce : (s.constraint c).oneshot = true
    · rw [retire_undefined (s := { s with constraintCommit := .null }) ha hact.mem honce
        (h.attended c hact.mem) rfl, error_bind]
      refine .inr ⟨fun hn => hn ⟨c, ha, ?_, honce⟩, rfl⟩
      rintro rfl
      exact hd ha
    · rw [Bool.not_eq_true] at honce
      obtain ⟨p, hp⟩ := retire_gives (s := { s with constraintCommit := .null }) (d := d) ha
        hact.mem honce
      rw [hp, ok_bind]
      refine (Exactly.of_gives ?_).congr ⟨fun _ => trivial, fun _ => ?_⟩
      · refine activate_gives h { hs with } hmem ?_
        have ht := h.told
        rw [ha] at ht
        exact .deactivated ht
      · rintro ⟨e, he, -, honce'⟩
        obtain rfl : c = e := Option.some.inj (ha.symm.trans he)
        rw [honce] at honce'
        cases honce'

end

/-! ### Destroying a constraint -/

/-- The state once `c` is destroyed, with the pointer at `p`. -/
def without (s : PointerSeat K) (c : ℕ) (p : K × K) : PointerSeat K :=
  { s with
    constraints := s.constraints.filter (· ≠ c)
    attended := Function.update s.attended c false
    activeConstraint := if s.activeConstraint = some c then none else s.activeConstraint
    constraintCommit := if s.activeConstraint = some c then .self else s.constraintCommit
    cursor := p
    notices := .destroyed c :: s.notices }

theorem mem_without {p : K × K} {a : ℕ} :
    a ∈ (s.without c p).constraints ↔ a ∈ s.constraints ∧ a ≠ c := by
  show a ∈ s.constraints.filter (· ≠ c) ↔ _
  simp [List.mem_filter]

theorem Attended.without {p : K × K} (h : Attended s) : Attended (s.without c p) where
  fresh a ha := h.fresh a (mem_without.mp ha).1
  single a ha b hb hab := h.single a (mem_without.mp ha).1 b (mem_without.mp hb).1 hab
  attended a ha := by
    obtain ⟨hmem, hne⟩ := mem_without.mp ha
    show Function.update s.attended c false a = true
    rw [Function.update_of_ne hne]
    exact h.attended a hmem
  idle ha := by
    show (if s.activeConstraint = some c then ListenerLink.self else s.constraintCommit) = .self
    by_cases hc : s.activeConstraint = some c
    · rw [if_pos hc]
    · have hnone : (if s.activeConstraint = some c then none else s.activeConstraint) = none := ha
      rw [if_neg hc] at hnone ⊢
      exact h.idle hnone
  active a ha := by
    have hsome : (if s.activeConstraint = some c then none else s.activeConstraint) = some a := ha
    by_cases hc : s.activeConstraint = some c
    · rw [if_pos hc] at hsome
      cases hsome
    · rw [if_neg hc] at hsome
      have hold := h.active a hsome
      refine ⟨mem_without.mpr ⟨hold.mem, ?_⟩, ?_, hold.region, hold.confine⟩
      · rintro rfl
        exact hc hsome
      · show (if s.activeConstraint = some c then ListenerLink.self else s.constraintCommit) = _
        rw [if_neg hc]
        exact hold.commits
  told := by
    show Told (.destroyed c :: s.notices)
      (if s.activeConstraint = some c then none else s.activeConstraint)
    have ht := h.told
    by_cases hc : s.activeConstraint = some c
    · rw [if_pos hc]
      rw [hc] at ht
      exact .lost ht
    · rw [if_neg hc]
      exact .destroyed ht hc

/-! ### One event -/

/-- The constraint that the event sets, if it sets one. -/
def aims (s : PointerSeat K) (W : PointerHost K) : PointerEvent K → Option (Option ℕ)
  | .create u _ _ _ _ =>
    if s.constraintForSurface W u = none ∧ s.focusedSurface = some u then some (some s.next)
    else none
  | .focus u => some (s.constraintForSurface W u)
  | .focusBackground => some none
  | _ => none

/-- A constraint is active exactly if its surface has the keyboard focus. -/
def Follows (s : PointerSeat K) : Prop :=
  ∀ c ∈ s.constraints, s.activeConstraint = some c ↔
    s.focusedSurface = some (s.constraint c).surface

/-- The keyboard focus changes, and the active constraint would have to, but the seat is
not told. -/
def Overlooks (s : PointerSeat K) (W : PointerHost K) : PointerEvent K → Prop
  | .layerMap u => s.activeConstraint ≠ s.constraintForSurface W u
  | .layerUnmap => s.activeConstraint ≠ none
  | _ => False

theorem constraintForSurface_mem {u : ℕ} (h : s.constraintForSurface W u = some c) :
    c ∈ s.constraints ∧ (s.constraint c).surface = u :=
  W.found h

theorem constraintForSurface_none {u : ℕ} :
    s.constraintForSurface W u = none ↔ ∀ c ∈ s.constraints, (s.constraint c).surface ≠ u := by
  refine ⟨W.missed, fun hne => ?_⟩
  rw [Option.eq_none_iff_forall_ne_some]
  intro c hc
  obtain ⟨hmem, hu⟩ := constraintForSurface_mem hc
  exact hne c hmem hu

theorem Attended.constraintForSurface_iff {u : ℕ} (h : Attended s) :
    s.constraintForSurface W u = some c ↔ c ∈ s.constraints ∧ (s.constraint c).surface = u := by
  refine ⟨constraintForSurface_mem, ?_⟩
  rintro ⟨hmem, hu⟩
  cases hc : s.constraintForSurface W u with
  | none => exact absurd hu (constraintForSurface_none.mp hc c hmem)
  | some a =>
    obtain ⟨ha, hau⟩ := constraintForSurface_mem hc
    rw [h.single a ha c hmem (hau.trans hu.symm)]

/-- The seat has set the constraint of the surface with the keyboard focus. -/
theorem Attended.follows {u : ℕ} (h : Attended s) (hf : s.focusedSurface = some u)
    (ha : s.activeConstraint = s.constraintForSurface W u) : Follows s := by
  intro c hc
  rw [ha, h.constraintForSurface_iff, hf, Option.some_inj]
  exact ⟨fun hu => hu.2.symm, fun hu => ⟨hc, hu.symm⟩⟩

theorem Attended.follows_iff {u : ℕ} (h : Attended s) (hf : s.focusedSurface = some u) :
    Follows s ↔ s.activeConstraint = s.constraintForSurface W u := by
  refine ⟨fun hfol => Option.ext fun c => ?_, h.follows hf⟩
  rw [h.constraintForSurface_iff]
  constructor
  · intro hc
    have hmem := (h.active c hc).mem
    have hu := (hfol c hmem).mp hc
    rw [hf, Option.some_inj] at hu
    exact ⟨hmem, hu.symm⟩
  · rintro ⟨hmem, rfl⟩
    exact (hfol c hmem).mpr hf

theorem Attended.follows_none_iff (h : Attended s) (hf : s.focusedSurface = none) :
    Follows s ↔ s.activeConstraint = none := by
  constructor
  · intro hfol
    cases hc : s.activeConstraint with
    | none => rfl
    | some c =>
      have := (hfol c (h.active c hc).mem).mp hc
      rw [hf] at this
      cases this
  · intro ha c _
    rw [ha, hf]
    simp

theorem Follows.without {p : K × K} (h : Follows s) : Follows (s.without c p) := by
  intro a ha
  obtain ⟨hmem, hne⟩ := mem_without.mp ha
  show (if s.activeConstraint = some c then none else s.activeConstraint) = some a ↔ _
  by_cases hc : s.activeConstraint = some c
  · rw [if_pos hc]
    have hold := h a hmem
    rw [hc, Option.some_inj] at hold
    constructor
    · intro hn
      cases hn
    · intro hf
      exact absurd (hold.mpr hf).symm hne
  · rw [if_neg hc]
    exact h a hmem

/-- What happens at the surfaces and nodes does not change who has the focus. -/
theorem Attended.congr (h : Attended s) (hs : SameClients s s')
    (ha : s'.activeConstraint = s.activeConstraint) (hn : s'.notices = s.notices)
    (hlink : s'.constraintCommit = s.constraintCommit)
    (hregion : ∀ c, s.activeConstraint = some c →
      (s'.constraint c).region = (s.constraint c).region)
    (hconf : s'.confine = s.confine) : Attended s' := by
  refine h.of_same hs.toSameSurfaces ?_ ?_ hn ha h.told
  · intro hnone
    rw [hlink]
    exact h.idle (ha.symm.trans hnone)
  · intro c hc
    rw [ha] at hc
    have hold := h.active c hc
    refine ⟨?_, ?_, ?_, ?_⟩
    · rw [hs.constraints]
      exact hold.mem
    · rw [hlink, hs.surface]
      exact hold.commits
    · rw [hregion c hc, hs.effectiveRegion]
      exact hold.region
    · rw [hconf, hs.type, hs.effectiveRegion]
      exact hold.confine

theorem SameSurfaces.follows_iff (hs : SameSurfaces s s')
    (hf : s'.focusedSurface = s.focusedSurface)
    (ha : s'.activeConstraint = s.activeConstraint) : Follows s' ↔ Follows s := by
  rw [Follows, Follows, hs.constraints, ha, hf]
  simp only [hs.surface]

/-- A constraint of a surface that has none, once the seat listens to it. -/
theorem Attended.withConstraint {u : ℕ} (type : ConstraintType) (once : Bool) (region : Region)
    (h : Attended s) (hu : s.constraintForSurface W u = none) :
    Attended ((s.withConstraint u type once region).attend s.next) := by
  have hold : ∀ c ∈ s.constraints,
      Function.update s.constraint s.next ⟨u, type, once, region, none, ∅⟩ c = s.constraint c := by
    intro c hc
    exact Function.update_of_ne (h.fresh c hc).ne ..
  have hne := constraintForSurface_none.mp hu
  refine ⟨?_, ?_, ?_, h.idle, ?_, h.told⟩
  · intro c hc
    obtain rfl | hc := List.mem_cons.mp hc
    · exact Nat.lt_succ_self _
    · exact Nat.lt_succ_of_lt (h.fresh c hc)
  · intro c hc d hd
    show (Function.update s.constraint s.next _ c).surface =
      (Function.update s.constraint s.next _ d).surface → c = d
    -- the surface of the new constraint has no other one
    obtain rfl | hc := List.mem_cons.mp hc <;> obtain rfl | hd := List.mem_cons.mp hd
    · exact fun _ => rfl
    · rw [Function.update_self, hold d hd]
      intro hud
      exact absurd hud.symm (hne d hd)
    · rw [Function.update_self, hold c hc]
      intro hcu
      exact absurd hcu (hne c hc)
    · rw [hold c hc, hold d hd]
      exact h.single c hc d hd
  · intro c hc
    show Function.update (Function.update s.attended s.next false) s.next true c = true
    obtain rfl | hc := List.mem_cons.mp hc
    · exact Function.update_self ..
    · rw [Function.update_of_ne (h.fresh c hc).ne, Function.update_of_ne (h.fresh c hc).ne]
      exact h.attended c hc
  · intro c hc
    have hact := h.active c hc
    have hsame : ((s.withConstraint u type once region).attend s.next).constraint c =
        s.constraint c := hold c hact.mem
    refine ⟨List.mem_cons_of_mem _ hact.mem, ?_, ?_, ?_⟩
    · rw [hsame]
      exact hact.commits
    · rw [effectiveRegion, hsame]
      exact hact.region
    · rw [effectiveRegion, hsame]
      exact hact.confine

/-- A commit of a surface leaves the surfaces of the constraints as they are. -/
theorem committed_surfaces {u : ℕ} {input region : Region} {hint : Option (K × K)} :
    SameSurfaces s (s.committed u input region hint) := by
  refine ⟨rfl, fun c => ?_, rfl, rfl⟩
  show PointerConstraint.surface (if (s.constraint c).surface = u then _ else s.constraint c) = _
  split
  · rfl
  · rfl

/-- The outcome of an event: the seat stays attended, and keeps following the focus
unless it overlooks it. -/
def Result (s : PointerSeat K) (W : PointerHost K) (e : PointerEvent K) (s' : PointerSeat K) :
    Prop :=
  Attended s' ∧ (Follows s → (Follows s' ↔ ¬ s.Overlooks W e))

/-- An event that sets no constraint is always defined. -/
theorem exactly_of_aims {m : Exec (PointerSeat K)} {Q : PointerSeat K → Prop}
    (hn : s.aims W e = none) (h : Gives m Q) :
    Exactly (∀ d, s.aims W e = some d → ¬ s.Retires d) m Q := by
  refine (Exactly.of_gives h).congr ⟨fun _ => trivial, fun _ d hd => ?_⟩
  rw [hn] at hd
  cases hd

/-- The keyboard focus is somewhere else. -/
theorem Attended.focused {u : Option ℕ} (h : Attended s) :
    Attended { s with focusedSurface := u } :=
  ⟨h.fresh, h.single, h.attended, h.idle, fun c hc =>
    ⟨(h.active c hc).mem, (h.active c hc).commits, (h.active c hc).region, (h.active c hc).confine⟩,
    h.told⟩

theorem init_attended {p : K × K} {f : K × K → Option ℕ × (K × K)} :
    Attended (init p f : PointerSeat K) where
  fresh c hc := absurd hc List.not_mem_nil
  single c hc := absurd hc List.not_mem_nil
  attended c hc := absurd hc List.not_mem_nil
  idle _ := rfl
  active c hc := by
    cases hc
  told := .nil

/-- The pointer is over the surface of the active constraint, which locks it. -/
structure Locks (s : PointerSeat K) (c : ℕ) : Prop where
  active : s.activeConstraint = some c
  locked : (s.constraint c).type = .locked
  pointed : (s.sceneNodeAt s.cursor).1 = some (s.constraint c).surface

/-- What a lock depends on is the same. -/
theorem Locks.congr (h : s.Locks c) (ha : s'.activeConstraint = s.activeConstraint)
    (hcon : (s'.constraint c).type = (s.constraint c).type ∧
      (s'.constraint c).surface = (s.constraint c).surface)
    (hcur : s'.cursor = s.cursor) (hscene : s'.sceneNodeAt = s.sceneNodeAt) :
    s'.Locks c ∧ s'.cursor = s.cursor := by
  refine ⟨⟨ha.trans h.active, hcon.1.trans h.locked, ?_⟩, hcur⟩
  rw [hscene, hcur, hcon.2]
  exact h.pointed

section

variable [Add K] [Sub K]

/-- The handler of the seat runs before a constraint is freed. -/
theorem constraintDestroy_gives (h : Attended s) (hmem : c ∈ s.constraints) :
    ∃ p, s.constraintDestroy c = .ok (s.without c p) ∧
      (s.activeConstraint ≠ some c → p = s.cursor) := by
  by_cases hc : s.activeConstraint = some c
  · obtain ⟨p, hp⟩ := warp_gives hc hmem
    refine ⟨p, ?_, fun hn => absurd hc hn⟩
    rw [constraintDestroy, h.attended c hmem, if_pos rfl, handleConstraintDestroy, if_pos hc, hp,
      ok_bind, h.remove, without, if_pos hc, if_pos hc]
    rfl
  · refine ⟨s.cursor, ?_, fun _ => rfl⟩
    rw [constraintDestroy, h.attended c hmem, if_pos rfl, handleConstraintDestroy, if_neg hc,
      without, if_neg hc, if_neg hc]
    rfl

theorem create_exactly {u : ℕ} {type : ConstraintType} {once : Bool} {region : Region}
    (h : Attended s) :
    Exactly (∀ d, s.aims W (.create u type once region true) = some d → ¬ s.Retires d)
      (s.step W (.create u type once region true))
      (s.Result W (.create u type once region true)) := by
  rw [step]
  cases hu : s.constraintForSurface W u with
  | some c =>
    rw [Option.isSome_some, if_pos rfl]
    refine exactly_of_aims ?_ (Gives.ok ⟨h, fun hfol => ⟨fun _ => id, fun _ => hfol⟩⟩)
    rw [aims, hu]
    simp
  | none =>
    have hatt := h.withConstraint type once region hu
    set t := (s.withConstraint u type once region).attend s.next with ht
    have hnew : t.constraint s.next = ⟨u, type, once, region, none, ∅⟩ := Function.update_self ..
    have hmem : s.next ∈ t.constraints := List.mem_cons_self
    have hself : t.constraintForSurface W u = some s.next := by
      rw [hatt.constraintForSurface_iff, hnew]
      exact ⟨hmem, rfl⟩
    rw [if_neg (by simp), handleNewPointerConstraint, if_neg (by simp), ← ht,
      show (s.withConstraint u type once region).constraint s.next = _ from hnew]
    show Exactly _ (if s.focusedSurface = some u then _ else _) _
    by_cases hf : s.focusedSurface = some u
    · rw [if_pos hf]
      have haims : s.aims W (.create u type once region true) = some (some s.next) := by
        rw [aims, if_pos ⟨hu, hf⟩]
      refine ((seatSetConstraint_exactly hatt ?_).congr ?_).mono ?_
      · rintro c hc
        cases hc
        exact hmem
      · rw [haims]
        constructor
        · rintro hr ⟨c, hc, hne, honce⟩
          refine hr _ rfl ⟨c, hc, hne, ?_⟩
          have hlt := h.fresh c (h.active c hc).mem
          rwa [show t.constraint c = s.constraint c from Function.update_of_ne hlt.ne ..] at honce
        · rintro hr d hd ⟨c, hc, hne, honce⟩
          cases hd
          refine hr ⟨c, hc, hne, ?_⟩
          have hlt := h.fresh c (h.active c hc).mem
          rwa [show t.constraint c = s.constraint c from Function.update_of_ne hlt.ne ..]
      · rintro t' ⟨hatt', hact, hsame⟩
        refine ⟨hatt', fun _ => ⟨fun _ => id, fun _ => hatt'.follows (W := W) (u := u) ?_ ?_⟩⟩
        · rw [hsame.focusedSurface]
          exact hf
        · rw [hact, hsame.constraintForSurface, hself]
    -- without the keyboard focus the constraint waits
    · rw [if_neg hf]
      refine exactly_of_aims ?_ (Gives.ok ⟨hatt, fun hfol => ⟨fun _ => id, fun _ => ?_⟩⟩)
      · rw [aims, if_neg fun hn => hf hn.2]
      · intro c hc
        obtain rfl | hc := List.mem_cons.mp hc
        · rw [hnew]
          refine ⟨fun ha => ?_, fun ha => absurd ha hf⟩
          exact absurd (h.fresh _ (h.active _ ha).mem) (lt_irrefl _)
        · rw [show t.constraint c = s.constraint c from
            Function.update_of_ne (h.fresh c hc).ne ..]
          exact hfol c hc

theorem commit_gives {u : ℕ} {input region : Region} {hint : Option (K × K)} (h : Attended s) :
    Gives (s.step W (.commit u input region hint)) (s.Result W (.commit u input region hint)) := by
  rw [step]
  have hs : SameSurfaces s (s.committed u input region hint) := committed_surfaces
  generalize ht : s.committed u input region hint = t at hs ⊢
  have hfocus : t.focusedSurface = s.focusedSurface := by
    rw [← ht]
    rfl
  have hact : t.activeConstraint = s.activeConstraint := by
    rw [← ht]
    rfl
  have hlink : t.constraintCommit = s.constraintCommit := by
    rw [← ht]
    rfl
  have hnot : t.notices = s.notices := by
    rw [← ht]
    rfl
  by_cases hu : t.constraintCommit = .commits u
  · rw [if_pos hu]
    -- the surface is the one of the active constraint
    obtain ha | ⟨c, ha⟩ := Option.eq_none_or_eq_some s.activeConstraint
    · rw [hlink, h.idle ha] at hu
      cases hu
    have hold := h.active c ha
    have hc : t.activeConstraint = some c := hact.trans ha
    have hmem : c ∈ t.constraints := by
      rw [hs.constraints]
      exact hold.mem
    refine Gives.nonNull hc (Gives.deref (decide_eq_true hmem) ((checked_gives hc hmem).mono ?_))
    rintro t' ⟨hst, hact', hnot', -, hlink', hregion, hconf⟩
    have hsame : SameSurfaces s t' := ⟨hst.constraints.trans hs.constraints,
      fun c => (hst.surface c).trans (hs.surface c), hst.attended.trans hs.attended,
      hst.next.trans hs.next⟩
    refine ⟨?_, fun hfol => ⟨fun _ => id, fun _ => ?_⟩⟩
    · refine h.of_same hsame ?_ ?_ (hnot'.trans hnot) (hact'.trans ha.symm) h.told
      · intro hnone
        rw [hact'] at hnone
        cases hnone
      · intro e he
        obtain rfl : c = e := Option.some.inj (hact'.symm.trans he)
        refine ⟨?_, ?_, hregion.trans hst.effectiveRegion.symm, ?_⟩
        · rw [hst.constraints]
          exact hmem
        · rw [hlink', hlink, hsame.surface]
          exact hold.commits
        · rw [hconf, hst.type, hst.effectiveRegion]
    · rw [hsame.follows_iff (hst.focusedSurface.trans hfocus) (hact'.trans ha.symm)]
      exact hfol
  · rw [if_neg hu]
    refine Gives.ok ⟨?_, fun hfol => ⟨fun _ => id, fun _ => ?_⟩⟩
    · refine h.of_same hs ?_ ?_ hnot hact h.told
      · intro hnone
        rw [hlink]
        exact h.idle (hact.symm.trans hnone)
      · intro c hc
        have hold := h.active c (hact.symm.trans hc)
        -- the surface of the active constraint is another one
        have hne : (s.constraint c).surface ≠ u := by
          rintro rfl
          exact hu (hlink.trans hold.commits)
        have hcon : t.constraint c = s.constraint c := by
          rw [← ht]
          exact if_neg hne
        have hinput : t.inputRegion (s.constraint c).surface =
            s.inputRegion (s.constraint c).surface := by
          rw [← ht]
          exact Function.update_of_ne hne ..
        have heff : t.effectiveRegion c = s.effectiveRegion c := by
          rw [effectiveRegion, effectiveRegion, hcon, hinput]
        have hconf : t.confine = s.confine := by
          rw [← ht]
          rfl
        refine ⟨?_, ?_, ?_, ?_⟩
        · rw [hs.constraints]
          exact hold.mem
        · rw [hlink, hcon]
          exact hold.commits
        · rw [hcon, heff]
          exact hold.region
        · rw [hconf, hcon, heff]
          exact hold.confine
    · rw [hs.follows_iff hfocus hact]
      exact hfol

theorem destroy_gives (h : Attended s) :
    Gives (s.step W (.destroy c)) (s.Result W (.destroy c)) := by
  rw [step]
  by_cases hmem : c ∈ s.constraints
  · obtain ⟨p, hp, -⟩ := constraintDestroy_gives h hmem
    rw [if_pos hmem, hp]
    exact Gives.ok ⟨h.without, fun hfol => ⟨fun _ => id, fun _ => hfol.without⟩⟩
  · rw [if_neg hmem]
    exact Gives.ok ⟨h, fun hfol => ⟨fun _ => id, fun _ => hfol⟩⟩

theorem surfaceDestroy_gives {u : ℕ} (h : Attended s) :
    Gives (s.step W (.surfaceDestroy u)) (s.Result W (.surfaceDestroy u)) := by
  rw [step]
  have hfirst : Gives (ifSome (s.constraintForSurface W u) s s.constraintDestroy) fun t =>
      Attended t ∧ (Follows s → Follows t) ∧ t.focusedSurface = s.focusedSurface ∧
        t.constraintForSurface W u = none := by
    refine Gives.ifSome (fun hnone => ⟨h, id, rfl, hnone⟩) fun c hc => ?_
    obtain ⟨hmem, hu⟩ := constraintForSurface_mem hc
    obtain ⟨p, hp, -⟩ := constraintDestroy_gives h hmem
    rw [hp]
    refine Gives.ok ⟨h.without, Follows.without, rfl, constraintForSurface_none.mpr ?_⟩
    intro a ha hau
    obtain ⟨ha, hne⟩ := mem_without.mp ha
    exact hne (h.single a ha c hmem (hau.trans hu.symm))
  refine hfirst.bind fun t ⟨hatt, hfol, hfocus, hnone⟩ => ?_
  by_cases hf : t.focusedSurface = some u
  · rw [if_pos hf]
    refine Gives.ok ⟨hatt.focused, fun hs => ⟨fun _ => id, fun _ => ?_⟩⟩
    rw [hatt.focused.follows_none_iff rfl]
    show t.activeConstraint = none
    rw [(hatt.follows_iff hf).mp (hfol hs), hnone]
  · rw [if_neg hf]
    exact Gives.ok ⟨hatt, fun hs => ⟨fun _ => id, fun _ => hfol hs⟩⟩

/-- The view with the surface `u`, or the background, gets the focus. -/
theorem seatMaybeSetConstraint_exactly {u : Option ℕ} (h : Attended s)
    (he : s.aims W e = some (u.bind (s.constraintForSurface W))) (hno : ¬ s.Overlooks W e) :
    Exactly (∀ d, s.aims W e = some d → ¬ s.Retires d)
      ({ s with focusedSurface := u }.seatMaybeSetConstraint W u) (s.Result W e) := by
  have hd : ∀ c, u.bind (s.constraintForSurface W) = some c → c ∈ s.constraints := by
    intro c hc
    obtain ⟨v, rfl, hv⟩ := Option.bind_eq_some_iff.mp hc
    exact (constraintForSurface_mem hv).1
  refine ((seatSetConstraint_exactly (h.focused (u := u)) hd).congr ?_).mono ?_
  · rw [he]
    constructor
    · intro hr
      exact hr _ rfl
    · rintro hr d hd
      cases hd
      exact hr
  · rintro t ⟨hatt, hact, hsame⟩
    refine ⟨hatt, fun _ => ⟨fun _ => hno, fun _ => ?_⟩⟩
    have hfocus : t.focusedSurface = u := hsame.focusedSurface
    cases u with
    | none => exact (hatt.follows_none_iff hfocus).mpr hact
    | some v =>
      refine (hatt.follows_iff (W := W) hfocus).mpr ?_
      rw [hact, hsame.constraintForSurface]
      rfl

/-- A relative motion moves the pointer, or leaves it where it is. -/
theorem handleCursorMotion_gives {d : K × K} (h : Attended s) :
    Gives (s.handleCursorMotion W d) fun s' => ∃ p, s' = { s with cursor := p } ∧
      ∀ c, s.activeConstraint = some c → (s.constraint c).type = .locked →
        (s.sceneNodeAt s.cursor).1 = some (s.constraint c).surface → p = s.cursor := by
  refine Gives.ifSome ?_ ?_
  · intro ha
    refine ⟨_, rfl, ?_⟩
    rw [ha]
    simp
  · intro c hc
    refine Gives.deref (decide_eq_true (h.active c hc).mem) ?_
    by_cases hu : (s.sceneNodeAt s.cursor).1 = some (s.constraint c).surface
    · show Gives (if (s.sceneNodeAt s.cursor).1 = some (s.constraint c).surface then _ else _) _
      rw [if_pos hu]
      cases htype : (s.constraint c).type with
      | locked => exact Gives.ok ⟨s.cursor, rfl, fun _ _ _ _ => rfl⟩
      | confined =>
        have hother : ∀ (p : K × K) e, s.activeConstraint = some e →
            (s.constraint e).type = .locked →
            (s.sceneNodeAt s.cursor).1 = some (s.constraint e).surface → p = s.cursor := by
          intro p e he hlock
          obtain rfl : c = e := Option.some.inj (hc.symm.trans he)
          rw [htype] at hlock
          cases hlock
        dsimp only
        cases W.regionConfine s.confine (s.sceneNodeAt s.cursor).2
          ((s.sceneNodeAt s.cursor).2 + d) with
        | none => exact Gives.ok ⟨s.cursor, rfl, hother _⟩
        | some q => exact Gives.ok ⟨_, rfl, hother _⟩
    · show Gives (if (s.sceneNodeAt s.cursor).1 = some (s.constraint c).surface then _ else _) _
      rw [if_neg hu]
      refine Gives.ok ⟨_, rfl, fun e he _ hue => ?_⟩
      obtain rfl : c = e := Option.some.inj (hc.symm.trans he)
      exact absurd hue hu

/-- **One event.**  It is undefined exactly if it retires an active constraint that is
for one use. -/
theorem step_exactly (h : Attended s) (halloc : e.Allocated) :
    Exactly (∀ d, s.aims W e = some d → ¬ s.Retires d) (s.step W e) (s.Result W e) := by
  cases e with
  | create u type once region alloc =>
    obtain rfl : alloc = true := halloc
    exact create_exactly h
  | destroy c => exact exactly_of_aims rfl (destroy_gives h)
  | commit u input region hint => exact exactly_of_aims rfl (commit_gives h)
  | surfaceDestroy u => exact exactly_of_aims rfl (surfaceDestroy_gives h)
  | focus u => exact seatMaybeSetConstraint_exactly (u := some u) h rfl id
  | focusBackground => exact seatMaybeSetConstraint_exactly (u := none) h rfl id
  | layerMap u =>
    refine exactly_of_aims rfl (Gives.ok ⟨h.focused, fun _ => ?_⟩)
    rw [h.focused.follows_iff rfl]
    exact not_not.symm
  | layerUnmap =>
    refine exactly_of_aims rfl (Gives.ok ⟨h.focused, fun _ => ?_⟩)
    rw [h.focused.follows_none_iff rfl]
    exact not_not.symm
  | motion d =>
    refine exactly_of_aims rfl ((handleCursorMotion_gives h).mono ?_)
    rintro s' ⟨p, rfl, -⟩
    exact ⟨h.congr { SameClients.refl with } rfl rfl rfl (fun _ _ => rfl) rfl,
      fun hfol => ⟨fun _ => id, fun _ => hfol⟩⟩
  | motionAbsolute p =>
    refine exactly_of_aims rfl (Gives.ok ⟨?_, fun hfol => ⟨fun _ => id, fun _ => hfol⟩⟩)
    exact h.congr { SameClients.refl with } rfl rfl rfl (fun _ _ => rfl) rfl
  | sceneChange f =>
    refine exactly_of_aims rfl (Gives.ok ⟨?_, fun hfol => ⟨fun _ => id, fun _ => hfol⟩⟩)
    exact ⟨h.fresh, h.single, h.attended, h.idle, fun c hc =>
      ⟨(h.active c hc).mem, (h.active c hc).commits, (h.active c hc).region,
        (h.active c hc).confine⟩, h.told⟩

/-! ### Runs -/

theorem attended_of_steps {p : K × K} {f : K × K → Option ℕ × (K × K)}
    (hs : Steps (step W) (fun _ e => e.Allocated) (init p f) s) : Attended s :=
  hs.invariant init_attended fun _ _ h halloc => ((step_exactly h halloc).ends).2.mono
    fun _ hr => hr.2.1

/-- **Runs.**  In all runs in which there is memory for the constraints, the seat and its
clients agree on the active constraint and its region; and what happens next is
undefined exactly if it retires an active constraint for one use. -/
theorem constraints_attended {p : K × K} {f : K × K → Option ℕ × (K × K)}
    (hs : Steps (step W) (fun _ e => e.Allocated) (init p f) s) :
    Attended s ∧ ∀ e : PointerEvent K, e.Allocated →
      ((∃ s', s.step W e = .ok s') ↔ ∀ d, s.aims W e = some d → ¬ s.Retires d) := by
  have h := attended_of_steps hs
  refine ⟨h, fun e halloc => ?_⟩
  rcases step_exactly (W := W) h halloc with ⟨hd, s', hs', -⟩ | ⟨hd, herr⟩
  · exact ⟨fun _ => hd, fun _ => ⟨s', hs'⟩⟩
  · refine ⟨?_, fun hn => absurd hn hd⟩
    rintro ⟨s', hs'⟩
    rw [herr] at hs'
    cases hs'

/-- Whole pixels, and a search that begins with the last constraint. -/
def firstFound : PointerHost ℤ where
  cursorMove := (· + ·)
  regionConfine _ _ q := some q
  constraintForSurface f l u := l.find? fun c => f c = u
  found h := ⟨List.mem_of_find?_eq_some h, by simpa using List.find?_some h⟩
  missed h := by simpa using h

/-- A client locks the pointer of its surface once, and gets the focus.  It cannot lose
it. -/
theorem constraints_attended_oneshot :
    ∃ s : PointerSeat ℤ, Attended s ∧ s.activeConstraint = some 0 ∧
      ¬ ∃ s', s.step firstFound .focusBackground = .ok s' := by
  have hrun : run (step firstFound)
      (init (0, 0) fun p => (some 0, p)) [.create 0 .locked true ∅ true, .focus 0] = .ok _ := rfl
  have hs : Steps _ (fun _ (e : PointerEvent ℤ) => e.Allocated) _ _ :=
    Steps.of_run hrun (by simp [PointerEvent.Allocated])
  obtain ⟨hatt, hstep⟩ := constraints_attended hs
  refine ⟨_, hatt, rfl, fun hex => ?_⟩
  exact (hstep .focusBackground trivial).mp hex none rfl ⟨0, rfl, by simp, rfl⟩

/-- **The active constraint and the focus.**  Unless a layer surface takes or gives back
the keyboard focus where a constraint depends on it, a constraint is active exactly if
its surface has the keyboard focus. -/
theorem active_follows_focus {p : K × K} {f : K × K → Option ℕ × (K × K)}
    (hs : Steps (step W) (fun s e => e.Allocated ∧ ¬ s.Overlooks W e) (init p f) s) :
    Follows s ∧ ∀ (e : PointerEvent K) (s' : PointerSeat K), e.Allocated → s.step W e = .ok s' →
      (Follows s' ↔ ¬ s.Overlooks W e) := by
  have h : Attended s ∧ Follows s := by
    refine hs.invariant (I := fun s => Attended s ∧ Follows s)
      ⟨init_attended, fun c hc => absurd hc List.not_mem_nil⟩ ?_
    rintro t e ⟨hatt, hfol⟩ ⟨halloc, hno⟩
    refine ((step_exactly hatt halloc).ends).2.mono ?_
    rintro t' ⟨-, hatt', hfol'⟩
    exact ⟨hatt', (hfol' hfol).mpr hno⟩
  refine ⟨h.2, fun e s' halloc hs' => ?_⟩
  obtain ⟨-, -, hfol'⟩ := ((step_exactly h.1 halloc).ends).2 s' hs'
  exact hfol' h.2

/-- A layer surface takes the focus from a surface with a constraint. -/
theorem active_follows_focus_layer :
    ∃ s s' : PointerSeat ℤ, Follows s ∧
      s.step firstFound (.layerMap 1) = .ok s' ∧ ¬ Follows s' := by
  have hrun : run (step firstFound)
      (init (0, 0) fun p => (some 0, p)) [.create 0 .locked false ∅ true, .focus 0] = .ok _ := rfl
  have hs : Steps _ (fun (s : PointerSeat ℤ) e => e.Allocated ∧ ¬ s.Overlooks firstFound e) _ _ :=
    Steps.of_run hrun (by simp [PointerEvent.Allocated, Overlooks])
  obtain ⟨hfol, hnext⟩ := active_follows_focus hs
  refine ⟨_, _, hfol, rfl, ?_⟩
  rw [hnext (.layerMap 1) _ trivial rfl, not_not]
  intro hnone
  cases hnone

/-! ### Locked pointers -/

/-- The event neither ends the lock nor moves the pointer to a given position. -/
def Spares (s : PointerSeat K) (W : PointerHost K) : PointerEvent K → Prop
  | .destroy c => s.activeConstraint ≠ some c
  | .surfaceDestroy u => s.activeConstraint = none ∨ s.constraintForSurface W u ≠ s.activeConstraint
  | .motionAbsolute _ => False
  | .sceneChange f => (f s.cursor).1 = (s.sceneNodeAt s.cursor).1
  | e => ∀ d, s.aims W e = some d → d = s.activeConstraint

theorem seatSetConstraint_self : s.seatSetConstraint s.activeConstraint = .ok s := by
  rw [seatSetConstraint, if_pos rfl]

theorem Locks.without (h : Attended s) (hl : s.Locks c) {d : ℕ} (hd : s.activeConstraint ≠ some d)
    (hmem : d ∈ s.constraints) :
    Ensures (s.constraintDestroy d) fun s' => s'.Locks c ∧ s'.cursor = s.cursor := by
  obtain ⟨p, hp, hcur⟩ := constraintDestroy_gives h hmem
  rw [hp]
  refine Ensures.ok (hl.congr ?_ ⟨rfl, rfl⟩ (hcur hd) rfl)
  exact if_neg hd

theorem Locks.commit {u : ℕ} {input region : Region} {hint : Option (K × K)} (h : Attended s)
    (hl : s.Locks c) : Ensures (s.step W (.commit u input region hint)) fun s' =>
      s'.Locks c ∧ s'.cursor = s.cursor := by
  have hcon : ((s.committed u input region hint).constraint c).type = (s.constraint c).type ∧
      ((s.committed u input region hint).constraint c).surface = (s.constraint c).surface := by
    refine ⟨?_, committed_surfaces.surface c⟩
    show PointerConstraint.type (if (s.constraint c).surface = u then _ else s.constraint c) = _
    split
    · rfl
    · rfl
  refine Ensures.ite ?_ ?_
  · intro _
    have hmem := (h.active c hl.active).mem
    refine Ensures.nonNull fun e he => Ensures.deref fun _ => ?_
    obtain rfl : c = e := Option.some.inj (hl.active.symm.trans he)
    refine (checked_gives (s := s.committed u input region hint) hl.active hmem).ensures.mono ?_
    rintro t ⟨hsame, hact, -, hcur, -⟩
    exact hl.congr (hact.trans hl.active.symm) ⟨(hsame.type c).trans hcon.1,
      (hsame.surface c).trans hcon.2⟩ hcur hsame.sceneNodeAt
  · intro _
    exact Ensures.ok (hl.congr rfl hcon rfl rfl)

theorem step_locks (h : Attended s) (hl : s.Locks c) (halloc : e.Allocated) (hsp : s.Spares W e) :
    Ensures (s.step W e) fun s' => s'.Locks c ∧ s'.cursor = s.cursor := by
  have hmem := (h.active c hl.active).mem
  cases e with
  | create u type once region alloc =>
    obtain rfl : alloc = true := halloc
    refine Ensures.ite (fun _ => Ensures.ok ⟨hl, rfl⟩) fun hu => ?_
    rw [Bool.not_eq_true, Option.isSome_eq_false_iff, Option.isNone_iff_eq_none] at hu
    have hcon : (s.withConstraint u type once region).constraint c = s.constraint c :=
      Function.update_of_ne (h.fresh c hmem).ne ..
    have hnew : (s.withConstraint u type once region).constraint s.next =
        ⟨u, type, once, region, none, ∅⟩ := Function.update_self ..
    rw [handleNewPointerConstraint, if_neg (by simp), hnew]
    refine Ensures.ite (fun hf => ?_) fun _ => Ensures.ok (hl.congr rfl ?_ rfl rfl)
    · -- the new constraint would take the place of the active one
      have hnext : some s.next = s.activeConstraint := by
        refine hsp _ ?_
        rw [aims, if_pos ⟨hu, hf⟩]
      have hc : s.next = c := Option.some.inj (hnext.trans hl.active)
      exact absurd (h.fresh c hmem) (by omega)
    · show ((s.withConstraint u type once region).constraint c).type = _ ∧
        ((s.withConstraint u type once region).constraint c).surface = _
      rw [hcon]
      exact ⟨rfl, rfl⟩
  | destroy d => exact Ensures.ite (hl.without h hsp) fun _ => Ensures.ok ⟨hl, rfl⟩
  | commit u input region hint => exact hl.commit h
  | surfaceDestroy u =>
    have hfirst : Ensures (ifSome (s.constraintForSurface W u) s s.constraintDestroy) fun s' =>
        s'.Locks c ∧ s'.cursor = s.cursor := by
      refine Ensures.ifSome (fun _ => ⟨hl, rfl⟩) fun d hd => ?_
      refine hl.without h ?_ (constraintForSurface_mem hd).1
      rcases hsp with hnone | hne
      · rw [hnone]
        simp
      · rw [← hd]
        exact hne.symm
    refine hfirst.bind ?_
    rintro t ⟨ht, hcur⟩
    exact Ensures.ite (fun _ => Ensures.ok ⟨⟨ht.active, ht.locked, ht.pointed⟩, hcur⟩)
      fun _ => Ensures.ok ⟨ht, hcur⟩
  | focus u =>
    have hd : s.constraintForSurface W u = s.activeConstraint := hsp _ rfl
    have hset : ({ s with focusedSurface := some u } : PointerSeat K).seatSetConstraint
        s.activeConstraint = .ok { s with focusedSurface := some u } := seatSetConstraint_self
    show Ensures ({ s with focusedSurface := some u }.seatSetConstraint
      (s.constraintForSurface W u)) _
    rw [hd, hset]
    exact Ensures.ok (hl.congr rfl ⟨rfl, rfl⟩ rfl rfl)
  | focusBackground =>
    have hd : none = s.activeConstraint := hsp _ rfl
    rw [hl.active] at hd
    cases hd
  | layerMap u => exact Ensures.ok (hl.congr rfl ⟨rfl, rfl⟩ rfl rfl)
  | layerUnmap => exact Ensures.ok (hl.congr rfl ⟨rfl, rfl⟩ rfl rfl)
  | motion d =>
    refine (handleCursorMotion_gives h).ensures.mono ?_
    rintro s' ⟨p, rfl, hp⟩
    exact hl.congr rfl ⟨rfl, rfl⟩ (hp c hl.active hl.locked hl.pointed) rfl
  | motionAbsolute p => exact absurd hsp id
  | sceneChange f =>
    exact Ensures.ok ⟨⟨hl.active, hl.locked, hsp.trans hl.pointed⟩, rfl⟩

/-- **Locked pointers.**  While the pointer is over the surface that has locked it, it
stays where it is, whatever else happens. -/
theorem locked_still {p : K × K} {f : K × K → Option ℕ × (K × K)} {t : PointerSeat K}
    (hs : Steps (step W) (fun _ e => e.Allocated) (init p f) s) (hl : s.Locks c)
    (ht : Steps (step W) (fun s e => e.Allocated ∧ s.Spares W e) s t) :
    t.cursor = s.cursor ∧ t.activeConstraint = some c := by
  have h : Attended t ∧ t.Locks c ∧ t.cursor = s.cursor := by
    refine ht.invariant (I := fun t => Attended t ∧ t.Locks c ∧ t.cursor = s.cursor)
      ⟨attended_of_steps hs, hl, rfl⟩ ?_
    rintro t e ⟨hatt, hlt, hcur⟩ ⟨halloc, hsp⟩
    refine (((step_exactly hatt halloc).ends).2.and (step_locks hatt hlt halloc hsp)).mono ?_
    rintro t' ⟨⟨-, hatt', -⟩, hlt', hcur'⟩
    exact ⟨hatt', hlt', hcur'.trans hcur⟩
  exact ⟨h.2.2, h.2.1.active⟩

/-- A pointer that is locked is not moved by the mouse. -/
theorem locked_still_motion :
    ∃ s t : PointerSeat ℤ, s.step firstFound (.motion (3, 4)) = .ok t ∧
      t.cursor = s.cursor ∧ t.activeConstraint = some 0 := by
  have hrun : run (step firstFound)
      (init (0, 0) fun p => (some 0, p)) [.create 0 .locked false ∅ true, .focus 0] = .ok _ := rfl
  have hs : Steps _ (fun _ (e : PointerEvent ℤ) => e.Allocated) _ _ :=
    Steps.of_run hrun (by simp [PointerEvent.Allocated])
  refine ⟨_, _, rfl, locked_still hs ⟨rfl, rfl, rfl⟩ (.tail (e := .motion (3, 4)) .refl ?_ rfl)⟩
  exact ⟨trivial, by simp [Spares, aims]⟩

end

end PointerSeat

end Cagebreak
