/-
The line a resize moves, and how a resize is undone.

Only the tiles joined to the moved edge change: those reached by going from
tile to tile across the line.  A dry run decides if all of them stay nonempty,
and visits no tile twice, nor does the run that changes them.  After the move
the same tiles are joined to the edge where it is now, so that the opposite
resize moves it back.

* `resize_recursions` — what `resize_allowed` and `resize` do to a line inside
  a rectangle that is partitioned;
* `resize_undone` — a resize by `d` that has changed something is undone by a
  resize by `-d`.
-/
import Cagebreak.Resize

namespace Cagebreak

open Exec Rect

namespace Server

variable {T : Tiles} {F : Rect} {a : Axis} {X d offset e : ℤ} {w t orig : TilePtr}
  {s s' : Server}

/-! ### The edge -/

/-- Resizing a tile with the box `b` by `d` moves its far edge when the offset of
its start is `0`, and its near edge when it is `-d`.  The edge at `X` is inside
the frame `F`, and moves by `e`. -/
inductive InnerEdge (F b : Rect) (a : Axis) (d : ℤ) : ℤ → ℤ → ℤ → Prop
  | far : b.coord a + b.dim a ≠ F.coord a + F.dim a →
      InnerEdge F b a d 0 (b.coord a + b.dim a) d
  | near : b.coord a ≠ F.coord a → InnerEdge F b a d (-d) (b.coord a) (-d)

theorem InnerEdge.eq {b : Rect} (h : InnerEdge F b a d offset X e) :
    offset = 0 ∧ X = b.coord a + b.dim a ∧ e = d ∨ offset = -d ∧ X = b.coord a ∧ e = -d := by
  rcases h with _ | _
  · exact .inl ⟨rfl, rfl, rfl⟩
  · exact .inr ⟨rfl, rfl, rfl⟩

/-- The offsets are those of the resized tile itself. -/
theorem InnerEdge.moved {box : TilePtr → Rect} (h : InnerEdge F (box t) a d offset X e)
    (hpos : 1 ≤ (box t).dim a) : Tiling.moved box a X e t =
      (box t).setSpan a ((box t).coord a + offset) ((box t).dim a + d) := by
  rw [Tiling.moved]
  rcases h with _ | _
  · rw [if_pos rfl, add_zero]
  · rw [if_neg (by omega), sub_neg_eq_add]

/-- What a resize of `t` begins with. -/
structure EdgeOf (s : Server) (F : Rect) (w : WsPtr) (a : Axis) (d offset X e : ℤ)
    (t : TilePtr) : Prop where
  inv : s.tiles.TilesInv False none
  tiling : Tiling F (s.tiles.tilesOf w) s.tiles.tileBox
  mem : t ∈ s.tiles.tilesOf w
  moves : d ≠ 0
  edge : InnerEdge F (s.tiles.tileBox t) a d offset X e

theorem EdgeOf.onRing (h : s.EdgeOf F w a d offset X e t) : OnRing s.tiles w F a X e t := by
  refine ⟨h.inv, h.tiling, ⟨h.mem, ?_⟩, ?_⟩
  · rcases h.edge with _ | _
    · exact .inl rfl
    · exact .inr rfl
  · rcases h.edge with _ | _
    · exact h.moves
    · exact neg_ne_zero.mpr h.moves

theorem EdgeOf.offsets (h : s.EdgeOf F w a d offset X e t) :
    offsets s.tiles.tileBox a X e t = (offset, d) := by
  have hpos := h.tiling.pos t h.mem a
  rw [Server.offsets]
  rcases h.edge with _ | _
  · rw [if_pos rfl]
  · rw [if_neg (by omega), neg_neg]

theorem EdgeOf.inner (h : s.EdgeOf F w a d offset X e t) :
    F.coord a < X ∧ X < F.coord a + F.dim a := by
  have hpos := h.tiling.pos t h.mem a
  have hins := h.tiling.inside t h.mem a
  rcases h.edge with h' | h'
  · omega
  · omega

theorem EdgeOf.visit {n : ℕ} (h : s.EdgeOf F w a d offset X e t) (hn : s.tiles.tileTop + 2 ≤ n) :
    Visit s.tiles w a X t n [] none t :=
  h.onRing.visit hn

/-! ### The dry run -/

/-- Ask `p` about the tiles of a list until it denies one, and hand on what has
been noted. -/
def allLog (p : TilePtr → List TilePtr → Exec (Bool × List TilePtr)) :
    List TilePtr → List TilePtr → Exec (Bool × List TilePtr)
  | [], log => .ok (true, log)
  | it :: its, log => do
    let (b, log) ← p it log
    if b then allLog p its log else .ok (false, log)

/-- `resizeAllowed` that notes the tiles it visits.  A call without offsets
returns before it has looked at its tile. -/
def resizeAllowedLog (T : Tiles) (a : Axis) (orig : TilePtr) :
    ℕ → TilePtr → Option TilePtr → ℤ → ℤ → List TilePtr → Exec (Bool × List TilePtr)
  | 0, _, _, _, _, _ => .error .diverges
  | n + 1, tile, parent, coordOffset, dimOffset, log =>
    if coordOffset = 0 ∧ dimOffset = 0 then .ok (true, log)
    else if (T.tileBox tile).dim a + dimOffset ≤ 0 then .ok (false, log ++ [tile])
    else do
      let its ← siblings T tile
      allLog (fun it log =>
        if some it = parent ∨ it = orig then .ok (true, log)
        else match handedOn T a tile it coordOffset dimOffset with
          | none => .ok (true, log)
          | some (c, d) => resizeAllowedLog T a orig n it (some tile) c d log) its (log ++ [tile])

theorem allLog_fst {p : TilePtr → List TilePtr → Exec (Bool × List TilePtr)}
    {q : TilePtr → Exec Bool} (hpq : ∀ it log, (p it log).map Prod.fst = q it)
    (its log : List TilePtr) : (allLog p its log).map Prod.fst = its.allM q := by
  induction its generalizing log with
  | nil => rfl
  | cons it its ih =>
    rw [allLog, List.allM, ← hpq it log]
    cases p it log with
    | error _ => rfl
    | ok r =>
      obtain ⟨b, log'⟩ := r
      cases b with
      | true => exact ih log'
      | false => rfl

/-- Taking notes does not change the answer. -/
theorem resizeAllowedLog_fst (n : ℕ) (tile : TilePtr) (parent : Option TilePtr) (c d : ℤ)
    (log : List TilePtr) : (resizeAllowedLog T a orig n tile parent c d log).map Prod.fst =
      resizeAllowed T a orig n tile parent c d := by
  induction n generalizing tile parent c d log with
  | zero => rfl
  | succ n ih =>
    rw [resizeAllowedLog, resizeAllowed]
    split
    · rfl
    split
    · rfl
    cases siblings T tile with
    | error _ => rfl
    | ok its =>
      rw [ok_bind, ok_bind]
      refine allLog_fst (fun it log => ?_) its _
      split
      · rfl
      cases handedOn T a tile it c d with
      | none => rfl
      | some o => exact ih _ _ _ _ _

variable {n : ℕ} {anc : List TilePtr} {parent : Option TilePtr}

/-- What the dry run has noted of the tiles in `B`: none twice, and all of them
if the answer is yes. -/
def Noted (B : Set TilePtr) (log : List TilePtr) (r : Bool × List TilePtr) : Prop :=
  ∃ l : List TilePtr, r.2 = log ++ l ∧ l.Nodup ∧ (∀ u ∈ l, u ∈ B) ∧
    (r.1 = true → ∀ u ∈ B, u ∈ l)

/-- The loop of the dry run over the tiles around `t`. -/
theorem resizeAllowedLog_loop (h : OnRing T w F a X d orig)
    (hv : Visit T w a X orig (n + 1) anc parent t)
    (ih : ∀ it log, Visit T w a X orig n (t :: anc) (some t) it →
      Gives (resizeAllowedLog T a orig n it (some t) (offsets T.tileBox a X d it).1
        (offsets T.tileBox a X d it).2 log)
        (Noted {u | Branch (Facing (T.tilesOf w) T.tileBox a X) (some t) it u} log))
    {its : List TilePtr} (hnd : its.Nodup) (hits : ∀ u ∈ its, u ∈ T.tilesOf w ∧ u ≠ t)
    (log : List TilePtr) :
    Gives (allLog (fun it log =>
        if some it = parent ∨ it = orig then .ok (true, log)
        else match handedOn T a t it (offsets T.tileBox a X d t).1
            (offsets T.tileBox a X d t).2 with
          | none => .ok (true, log)
          | some (c, d) => resizeAllowedLog T a orig n it (some t) c d log) its log)
      (Noted (branches T w a X parent t its) log) := by
  have hI := h.tiling.interleaved a X
  have hn := hv.three_le h
  induction its generalizing log with
  | nil => exact Gives.ok ⟨[], by simp, by simp, by simp, by simp [branches]⟩
  | cons it its ihl =>
    obtain ⟨hit, hnd⟩ := List.nodup_cons.mp hnd
    obtain ⟨hitw, hne⟩ := hits it List.mem_cons_self
    have hrest := ihl hnd fun u hu => hits u (List.mem_cons_of_mem _ hu)
    rw [allLog]
    by_cases hc : some it = parent ∨ it = orig
    -- the parent and the addressed tile are not visited
    · rw [if_pos hc, ok_bind, branches_cons_skip]
      · exact hrest log
      · intro hf
        by_contra hp
        obtain rfl := hc.resolve_left hp
        rcases hv.orig with rfl | ho
        · exact hne rfl
        · exact ho (.step hf hp .root)
    rw [if_neg hc]
    rw [not_or] at hc
    rcases handedOn_offsets (T := T) (d := d) h.tiling hv.onLine hitw rfl rfl with
      ⟨hf, he⟩ | ⟨hf, he | he⟩
    · rw [he]
      refine Gives.bind (ih it log (hv.child h hf hc.1)) ?_
      rintro ⟨b, log'⟩ ⟨l, hl, hlnd, hlB, hall⟩
      have hmem : ∀ u ∈ l, u ∈ branches T w a X parent t (it :: its) := fun u hu =>
        ⟨it, List.mem_cons_self, hf, hc.1, hlB u hu⟩
      cases b with
      | false => exact Gives.ok ⟨l, hl, hlnd, hmem, by simp⟩
      | true =>
        refine (hrest log').mono ?_
        rintro ⟨b, log''⟩ ⟨l', hl', hlnd', hlB', hall'⟩
        refine ⟨l ++ l', ?_, ?_, ?_, ?_⟩
        · obtain rfl : log' = log ++ l := hl
          rw [hl', List.append_assoc]
        · refine List.nodup_append.mpr ⟨hlnd, hlnd', ?_⟩
          rintro u hu v hv' rfl
          obtain ⟨j, hj, hfj, -, hb⟩ := hlB' u hv'
          have hij : it ≠ j := fun e => hit (e ▸ hj)
          -- the branches of two tiles have no tile in common
          exact hI.ne_of_branch hf hfj hij (hlB u hu) hb rfl
        · intro u hu
          rcases List.mem_append.mp hu with hu | hu
          · exact hmem u hu
          · exact branches_cons_subset (hlB' u hu)
        · rintro hb u ⟨j, hj, hfj, hp, hu⟩
          rw [List.mem_append]
          rcases List.mem_cons.mp hj with rfl | hj
          · exact .inl (hall rfl u hu)
          · exact .inr (hall' hb u ⟨j, hj, hfj, hp, hu⟩)
    · rw [he, branches_cons_skip fun hf' => absurd hf' hf]
      exact hrest log
    -- offsets of 0 end the call at once
    · obtain ⟨m, rfl⟩ : ∃ m, n = m + 1 := ⟨n - 1, by omega⟩
      rw [he, branches_cons_skip fun hf' => absurd hf' hf]
      simp only [resizeAllowedLog, and_self, if_true]
      exact hrest log

/-- The dry run ends and visits no tile of the branch twice. -/
theorem resizeAllowedLog_gives (h : OnRing T w F a X d orig)
    (hv : Visit T w a X orig n anc parent t) (log : List TilePtr) :
    Gives (resizeAllowedLog T a orig n t parent (offsets T.tileBox a X d t).1
      (offsets T.tileBox a X d t).2 log)
      (Noted {u | Branch (Facing (T.tilesOf w) T.tileBox a X) parent t u} log) := by
  induction n generalizing anc parent t log with
  | zero => exact absurd (hv.three_le h) (by omega)
  | succ n ih =>
    have hI := h.tiling.interleaved a X
    obtain ⟨its, hits, hnd, hmem⟩ := siblings_spec h.inv hv.onLine.1
    rw [resizeAllowedLog, if_neg (offsets_ne_zero h.moves), hits, ok_bind]
    refine Gives.ite (fun _ => Gives.ok ⟨[t], rfl, by simp, ?_, by simp⟩) fun _ => ?_
    · intro u hu
      rw [List.mem_singleton.mp hu]
      exact .root
    refine (resizeAllowedLog_loop h hv (fun it log hv' => ih hv' log) hnd
      (fun u hu => (hmem u).mp hu) _).mono ?_
    rintro r ⟨l, hl, hlnd, hlB, hall⟩
    refine ⟨t :: l, ?_, ?_, ?_, ?_⟩
    · rw [hl, List.append_assoc, List.singleton_append]
    · refine List.nodup_cons.mpr ⟨fun ht => ?_, hlnd⟩
      obtain ⟨j, -, hf, -, hu⟩ := hlB t ht
      exact hI.ne_root_of_branch hf hu rfl
    · intro u hu
      rcases List.mem_cons.mp hu with rfl | hu
      · exact .root
      · obtain ⟨j, -, hf, hp, hu⟩ := hlB u hu
        exact Branch.step hf hp hu
    · intro hb u hu
      cases hu with
      | root => exact List.mem_cons_self
      | @step _ _ j _ hf hp hu =>
        have hj : j ≠ t := by
          rintro rfl
          exact hI.irrefl _ hf
        exact List.mem_cons_of_mem _ (hall hb u ⟨j, (hmem j).mpr ⟨hf.right, hj⟩, hf, hp, hu⟩)

/-! ### The resize -/

/-- `s'` is `s` with the edge at `X` moved by `e` in the tiles joined to it, and
in no others; each of them has been visited once. -/
structure EdgeMoved (s : Server) (w : WsPtr) (a : Axis) (X e : ℤ) (t : TilePtr) (s' : Server) :
    Prop where
  tiles : s'.tiles = { s.tiles with tileBox := s'.tiles.tileBox }
  redrawn : Redrawn s s'
  changed : ∀ u, s'.tiles.tileBox u ≠ s.tiles.tileBox u ↔ u ∈ joined s.tiles w a X t
  moved : ∀ u ∈ joined s.tiles w a X t,
    s'.tiles.tileBox u = Tiling.moved s.tiles.tileBox a X e u
  across : ∀ u, (s'.tiles.tileBox u).coord a.compl = (s.tiles.tileBox u).coord a.compl ∧
    (s'.tiles.tileBox u).dim a.compl = (s.tiles.tileBox u).dim a.compl
  reported : Reported s a X e (joined s.tiles w a X t) s s'

/-- The tiles joined to the edge stay nonempty. -/
def Roomy (T : Tiles) (w : WsPtr) (a : Axis) (X e : ℤ) (t : TilePtr) : Prop :=
  ∀ u ∈ joined T w a X t, 1 ≤ (Tiling.moved T.tileBox a X e u).dim a

theorem moved_ne {box : TilePtr → Rect} (hd : d ≠ 0) : Tiling.moved box a X d t ≠ box t := by
  intro h
  have hdim := congrArg (Rect.dim a) h
  rw [Tiling.moved] at hdim
  split at hdim <;> rw [dim_setSpan] at hdim <;> omega

theorem EdgeOf.resizeAllowed (h : s.EdgeOf F w a d offset X e t) (hn : s.tiles.tileTop + 2 ≤ n) :
    Gives (resizeAllowed s.tiles a t n t none offset d) fun b =>
      b = true ↔ Roomy s.tiles w a X e t := by
  have hgives := resizeAllowed_gives h.onRing (h.visit hn)
  rw [h.offsets] at hgives
  refine hgives.mono fun b hb => hb.trans ?_
  simp only [Roomy, mem_joined]

theorem EdgeOf.resize (h : s.EdgeOf F w a d offset X e t) (hn : s.tiles.tileTop + 2 ≤ n) :
    Exactly (∀ u ∈ joined s.tiles w a X t, s.Drawable u) (resize a t n s t none offset d)
      (s.EdgeMoved w a X e t) := by
  have hspec := resize_exactly h.onRing [] none t ∅ s (h.visit hn) ⟨rfl, by simp, by simp⟩
    ⟨rfl, rfl, rfl⟩ ⟨by simp, by simp, by simp⟩
  have hset : {u | Branch (Facing (s.tiles.tilesOf w) s.tiles.tileBox a X) none t u} =
      joined s.tiles w a X t := by
    ext u
    exact mem_joined.symm
  rw [h.offsets, hset] at hspec
  refine Exactly.congr (hspec.mono fun s' hs' => ?_) (by simp only [mem_joined])
  have hm := hs'.moved
  rw [Set.empty_union] at hm
  have hcases : ∀ u, u ∈ joined s.tiles w a X t ∧
      s'.tiles.tileBox u = Tiling.moved s.tiles.tileBox a X e u ∨
      u ∉ joined s.tiles w a X t ∧ s'.tiles.tileBox u = s.tiles.tileBox u := by
    intro u
    by_cases hu : u ∈ joined s.tiles w a X t
    · exact .inl ⟨hu, hm.moved u hu⟩
    · exact .inr ⟨hu, hm.same u hu⟩
  refine ⟨hm.tiles, hs'.redrawn, fun u => ?_, hm.moved, fun u => ?_, hs'.reported⟩
  · rcases hcases u with ⟨hu, hb⟩ | ⟨hu, hb⟩
    · rw [hb]
      exact iff_of_true (moved_ne h.onRing.moves) hu
    · exact iff_of_false (not_not.mpr hb) hu
  · rcases hcases u with ⟨-, hb⟩ | ⟨-, hb⟩
    · simp [hb]
    · simp [hb]

theorem EdgeMoved.same (hs' : s.EdgeMoved w a X e t s') {u : TilePtr}
    (hu : u ∉ joined s.tiles w a X t) : s'.tiles.tileBox u = s.tiles.tileBox u := by
  by_contra hne
  exact hu ((hs'.changed u).mp hne)

theorem EdgeMoved.tilesOf (hs' : s.EdgeMoved w a X e t s') :
    s'.tiles.tilesOf w = s.tiles.tilesOf w := by
  rw [hs'.tiles]
  rfl

theorem EdgeMoved.tiling (hs' : s.EdgeMoved w a X e t s') (h : s.EdgeOf F w a d offset X e t)
    (hroom : Roomy s.tiles w a X e t) : Tiling F (s'.tiles.tilesOf w) s'.tiles.tileBox := by
  rw [hs'.tilesOf]
  exact h.tiling.shift_branch h.inner.1 h.inner.2 h.onRing.orig
    (fun u hu => hs'.moved u (mem_joined.mpr hu))
    (fun u _ hu => hs'.same fun hj => hu (mem_joined.mp hj))
    fun u hu => hroom u (mem_joined.mpr hu)

/-- **The two recursions of a resize**, for a tile `t` with an edge inside the
frame its workspace partitions.  The dry run ends and visits no tile twice; if
it says no, the move would leave a tile without a size.  The other one ends,
unless it has to draw a view that is gone, and moves the edge in the tiles
joined to it; if the dry run said yes, these partition the frame again. -/
theorem resize_recursions (hinv : s.tiles.TilesInv False none)
    (hp : Tiling F (s.tiles.tilesOf w) s.tiles.tileBox) (ht : t ∈ s.tiles.tilesOf w) (hd : d ≠ 0)
    (hedge : InnerEdge F (s.tiles.tileBox t) a d offset X e) (hn : s.tiles.tileTop + 2 ≤ n) :
    ∃ allowed visited,
      Server.resizeAllowed s.tiles a t n t none offset d = .ok allowed ∧
      resizeAllowedLog s.tiles a t n t none offset d [] = .ok (allowed, visited) ∧
      visited.Nodup ∧ (∀ u ∈ visited, u ∈ joined s.tiles w a X t) ∧
      (allowed = true → ∀ u ∈ joined s.tiles w a X t, u ∈ visited) ∧
      (allowed = false → ∃ u ∈ joined s.tiles w a X t,
        (Tiling.moved s.tiles.tileBox a X e u).dim a ≤ 0) ∧
      Exactly (∀ u ∈ joined s.tiles w a X t, s.Drawable u)
        (Server.resize a t n s t none offset d) fun s' => s.EdgeMoved w a X e t s' ∧
          (allowed = true → Tiling F (s'.tiles.tilesOf w) s'.tiles.tileBox) := by
  have h : s.EdgeOf F w a d offset X e t := ⟨hinv, hp, ht, hd, hedge⟩
  obtain ⟨allowed, hallowed, hroom⟩ := h.resizeAllowed hn
  have hlog := resizeAllowedLog_gives h.onRing (h.visit hn) []
  rw [h.offsets] at hlog
  obtain ⟨⟨b, visited⟩, hb, l, hl, hnd, hjoined, hall⟩ := hlog
  obtain rfl : visited = l := hl
  obtain rfl : b = allowed := by
    rw [← resizeAllowedLog_fst n t none offset d [], hb] at hallowed
    exact Except.ok.inj hallowed
  refine ⟨b, visited, hallowed, hb, hnd, fun u hu => mem_joined.mpr (hjoined u hu),
    fun hyes u hu => hall hyes u (mem_joined.mp hu), fun hno => ?_, ?_⟩
  · by_contra hpos
    push Not at hpos
    rw [hno] at hroom
    exact absurd (hroom.mpr hpos) (by simp)
  · exact (h.resize hn).mono fun s' hs' => ⟨hs', fun hyes => hs'.tiling h (hroom.mp hyes)⟩

/-- The recursions for the left tile of the larger output. -/
theorem resize_recursions_split : ∃ (s : Server) (allowed : Bool) (visited : List TilePtr),
    Server.resizeAllowed s.tiles .horizontal 0 (s.tiles.tileTop + 2) 0 none 0 2 = .ok allowed ∧
    resizeAllowedLog s.tiles .horizontal 0 (s.tiles.tileTop + 2) 0 none 0 2 [] =
      .ok (allowed, visited) ∧ visited.Nodup := by
  obtain ⟨s, s', hr, ht, hp, hs', hmem, hbox, hrun⟩ :=
    exists_twoSizes 2 0 0 ⟨0, 0, 7, 10⟩ (by decide)
  obtain ⟨hlive, hbox₀, hframe, -⟩ := twoSizes_facts hrun
  have hedge : InnerEdge (s.ownFrame 0) (s.tiles.tileBox 0) .horizontal 2 0
      ((s.tiles.tileBox 0).coord .horizontal + (s.tiles.tileBox 0).dim .horizontal) 2 := by
    refine .far ?_
    rw [hbox₀, hframe]
    decide
  have htw : 0 ∈ s.tiles.tilesOf (s.tiles.tileWorkspace 0) := ⟨hlive, rfl⟩
  obtain ⟨allowed, visited, h1, h2, h3, -⟩ := resize_recursions hr.wellFormed.tiles hp htw
    (by decide) hedge le_rfl
  exact ⟨s, allowed, visited, h1, h2, h3⟩

/-! ### Resizing back -/

/-- There are tiles on both sides of the edge. -/
theorem EdgeOf.exists_sides (h : s.EdgeOf F w a d offset X e t) :
    ∃ l ∈ joined s.tiles w a X t, ∃ r ∈ joined s.tiles w a X t,
      (s.tiles.tileBox l).EndsAt a X ∧ (s.tiles.tileBox r).StartsAt a X := by
  have ht : t ∈ joined s.tiles w a X t := Relation.ReflTransGen.refl
  have hpos := h.tiling.pos t h.mem a.compl
  have hv : (s.tiles.tileBox t).Spans a.compl ((s.tiles.tileBox t).coord a.compl) :=
    ⟨le_rfl, by omega⟩
  rcases h.onRing.orig.2 with he | hs
  · obtain ⟨r, hr, hrs, hrv⟩ := h.tiling.exists_startsAt h.inner.2 h.mem he hv
    refine ⟨t, ht, r, Relation.ReflTransGen.single ⟨h.mem, hr, ?_, .inl ⟨he, hrs⟩⟩, he, hrs⟩
    exact ⟨lt_of_le_of_lt hv.1 hrv.2, lt_of_le_of_lt hrv.1 hv.2⟩
  · obtain ⟨l, hl, hle, hlv⟩ := h.tiling.exists_endsAt h.inner.1 h.mem hs hv
    refine ⟨l, Relation.ReflTransGen.single ⟨h.mem, hl, ?_, .inr ⟨hs, hle⟩⟩, t, ht, hle, hs⟩
    exact ⟨lt_of_le_of_lt hv.1 hlv.2, lt_of_le_of_lt hlv.1 hv.2⟩

theorem EdgeOf.mem_joined_onLine (h : s.EdgeOf F w a d offset X e t) {u : TilePtr}
    (hu : u ∈ joined s.tiles w a X t) : Tiling.OnLine (s.tiles.tilesOf w) s.tiles.tileBox a X u :=
  h.onRing.orig.branch (mem_joined.mp hu)

/-- The edge stays inside the frame. -/
theorem EdgeMoved.inner (hs' : s.EdgeMoved w a X e t s') (h : s.EdgeOf F w a d offset X e t)
    (hroom : Roomy s.tiles w a X e t) : F.coord a < X + e ∧ X + e < F.coord a + F.dim a := by
  obtain ⟨l, hl, r, hr, hle, hrs⟩ := h.exists_sides
  have htiling := hs'.tiling h hroom
  have hlw := (h.mem_joined_onLine hl).1
  have hrw := (h.mem_joined_onLine hr).1
  have hle' := Tiling.EndsAt.moved (d := e) hle
  have hrs' := Tiling.StartsAt.moved (d := e) (h.tiling.pos r hrw a) hrs
  rw [← hs'.moved l hl, EndsAt] at hle'
  rw [← hs'.moved r hr, StartsAt] at hrs'
  rw [← hs'.tilesOf] at hlw hrw
  have h1 := htiling.pos l hlw a
  have h2 := htiling.inside l hlw a
  have h3 := htiling.pos r hrw a
  have h4 := htiling.inside r hrw a
  omega

/-- After the move the opposite resize of the tile moves the edge back. -/
theorem EdgeMoved.edgeOf (hs' : s.EdgeMoved w a X e t s') (h : s.EdgeOf F w a d offset X e t)
    (hroom : Roomy s.tiles w a X e t) : s'.EdgeOf F w a (-d) (-offset) (X + e) (-e) t := by
  have hinner := hs'.inner h hroom
  have hpos := h.tiling.pos t h.mem a
  have hbox := hs'.moved t Relation.ReflTransGen.refl
  refine ⟨?_, hs'.tiling h hroom, ?_, neg_ne_zero.mpr h.moves, ?_⟩
  · rw [hs'.tiles]
    exact h.inv.setBoxes _
  · rw [hs'.tilesOf]
    exact h.mem
  · rcases h.edge with _ | _
    · rw [Tiling.moved, if_pos rfl] at hbox
      have hcoord : (s'.tiles.tileBox t).coord a = (s.tiles.tileBox t).coord a := by simp [hbox]
      have hdim : (s'.tiles.tileBox t).dim a = (s.tiles.tileBox t).dim a + d := by simp [hbox]
      have hX : (s.tiles.tileBox t).coord a + (s.tiles.tileBox t).dim a + d =
          (s'.tiles.tileBox t).coord a + (s'.tiles.tileBox t).dim a := by omega
      rw [neg_zero, hX]
      exact .far (by omega)
    · rw [Tiling.moved, if_neg (by omega)] at hbox
      have hcoord : (s'.tiles.tileBox t).coord a = (s.tiles.tileBox t).coord a + -d := by
        simp [hbox]
      rw [← hcoord]
      exact .near (by omega)

/-- The same tiles are joined to the edge where it is now. -/
theorem EdgeMoved.joined_eq (hs' : s.EdgeMoved w a X e t s') (h : s.EdgeOf F w a d offset X e t)
    (hroom : Roomy s.tiles w a X e t) :
    joined s'.tiles w a (X + e) t = joined s.tiles w a X t := by
  have htiling := hs'.tiling h hroom
  ext u
  rw [mem_joined, mem_joined, hs'.tilesOf]
  rw [hs'.tilesOf] at htiling
  exact h.tiling.branch_shift htiling h.inner.1 h.inner.2 h.onRing.orig
    fun j hj => hs'.moved j (mem_joined.mpr hj)

/-- Moving the edge back gives each tile the box it had. -/
theorem EdgeMoved.moved_back (hs' : s.EdgeMoved w a X e t s')
    (h : s.EdgeOf F w a d offset X e t) (hroom : Roomy s.tiles w a X e t) {u : TilePtr}
    (hu : u ∈ joined s.tiles w a X t) :
    Tiling.moved s'.tiles.tileBox a (X + e) (-e) u = s.tiles.tileBox u :=
  Tiling.moved_back (h.mem_joined_onLine hu) (hroom u hu) (hs'.moved u hu)

theorem EdgeMoved.roomy_back (hs' : s.EdgeMoved w a X e t s')
    (h : s.EdgeOf F w a d offset X e t) (hroom : Roomy s.tiles w a X e t) :
    Roomy s'.tiles w a (X + e) (-e) t := by
  intro u hu
  rw [hs'.joined_eq h hroom] at hu
  rw [hs'.moved_back h hroom hu]
  exact h.tiling.pos u (h.mem_joined_onLine hu).1 a

theorem EdgeMoved.back (hs' : s.EdgeMoved w a X e t s') (h : s.EdgeOf F w a d offset X e t)
    (hroom : Roomy s.tiles w a X e t) {s'' : Server}
    (hs'' : s'.EdgeMoved w a (X + e) (-e) t s'') : s''.tiles.tileBox = s.tiles.tileBox := by
  have hjoined := hs'.joined_eq h hroom
  funext u
  by_cases hu : u ∈ joined s.tiles w a X t
  · rw [hs''.moved u (by rwa [hjoined]), hs'.moved_back h hroom hu]
  · rw [hs''.same (by rwa [hjoined]), hs'.same hu]

/-- A resize along one axis for an output of the size of the frame has been
carried out: its guards were passed and an inner edge has moved. -/
structure CarriedOut (s : Server) (w : WsPtr) (a : Axis) (o : OutPtr) (pixs offset X e : ℤ)
    (t : TilePtr) (s' : Server) : Prop where
  edge : s.EdgeOf (s.outs.outBox o).frame w a pixs offset X e t
  roomy : Roomy s.tiles w a X e t
  drawable : ∀ u ∈ joined s.tiles w a X t, s.Drawable u
  moved : s.EdgeMoved w a X e t s'
  lt : (s.tiles.tileBox t).dim a < (s.outs.outBox o).frame.dim a
  between : 0 < (s.tiles.tileBox t).dim a + pixs ∧
    (s.tiles.tileBox t).dim a + pixs < (s.outs.outBox o).frame.dim a
  offset : (if (s.tiles.tileBox t).coord a + (s.tiles.tileBox t).dim a =
    (s.outs.outBox o).frame.dim a then -pixs else 0) = offset

theorem resizeAlong_cases {o : OutPtr} {pixs : ℤ} (hinv : s.tiles.TilesInv False none)
    (ht : t ∈ s.tiles.tilesOf w)
    (hp : Tiling (s.outs.outBox o).frame (s.tiles.tilesOf w) s.tiles.tileBox)
    (hs' : s.resizeAlong a o t pixs = .ok s') :
    s' = s ∨ ∃ offset X e, s.CarriedOut w a o pixs offset X e t s' := by
  have hF : (s.outs.outBox o).frame.coord a = 0 := by cases a <;> rfl
  have hins := hp.inside t ht a
  rw [resizeAlong, deref_eq_ok.mpr ht.1, ok_bind] at hs'
  simp only at hs'
  split at hs'
  swap
  · exact .inl (Except.ok.inj hs').symm
  rename_i hguard
  obtain ⟨hpix, hlt, hbetween⟩ := hguard
  simp only [isBetweenStrict, Bool.and_eq_true, decide_eq_true_eq] at hbetween
  -- which edge moves
  obtain ⟨offset, X, e, hoff, hedge⟩ : ∃ offset X e,
      (if (s.tiles.tileBox t).coord a + (s.tiles.tileBox t).dim a =
        (s.outs.outBox o).frame.dim a then -pixs else 0) = offset ∧
      InnerEdge (s.outs.outBox o).frame (s.tiles.tileBox t) a pixs offset X e := by
    split
    · exact ⟨_, _, _, rfl, .near (by omega)⟩
    · exact ⟨_, _, _, rfl, .far (by omega)⟩
  have h : s.EdgeOf (s.outs.outBox o).frame w a pixs offset X e t := ⟨hinv, hp, ht, hpix, hedge⟩
  rw [hoff] at hs'
  obtain ⟨allowed, hallowed, hroom⟩ := h.resizeAllowed le_rfl
  rw [hallowed, ok_bind] at hs'
  cases allowed with
  | false => exact .inl (Except.ok.inj hs').symm
  | true =>
    obtain ⟨hdraw, hm⟩ := (h.resize le_rfl).ends.2 s' hs'
    exact .inr ⟨offset, X, e, h, hroom.mp rfl, hdraw, hm, hlt, hbetween, hoff⟩

/-- What has been carried out is undone by the opposite. -/
theorem CarriedOut.undone {o : OutPtr} {pixs : ℤ}
    (h : s.CarriedOut w a o pixs offset X e t s') :
    Gives (s'.resizeAlong a o t (-pixs)) fun s'' => s'.EdgeMoved w a (X + e) (-e) t s'' ∧
      s''.tiles.tileBox = s.tiles.tileBox := by
  have hm := h.moved
  have hF : (s.outs.outBox o).frame.coord a = 0 := by cases a <;> rfl
  have hpos := h.edge.tiling.pos t h.edge.mem a
  have hback := hm.edgeOf h.edge h.roomy
  have hinner := hm.inner h.edge h.roomy
  have hlt := h.lt
  have hbetween := h.between
  have hoff := h.offset
  have hbox := (hm.moved t Relation.ReflTransGen.refl).trans (h.edge.edge.moved hpos)
  have hcoord : (s'.tiles.tileBox t).coord a = (s.tiles.tileBox t).coord a + offset := by
    simp [hbox]
  have hdim : (s'.tiles.tileBox t).dim a = (s.tiles.tileBox t).dim a + pixs := by simp [hbox]
  -- the opposite resize takes the same edge
  have hoff' : (if (s'.tiles.tileBox t).coord a + (s'.tiles.tileBox t).dim a =
      (s.outs.outBox o).frame.dim a then - -pixs else 0) = -offset := by
    have heq := h.edge.edge.eq
    have hne := h.edge.moves
    rw [hcoord, hdim]
    split at hoff
    · rw [if_pos (by omega)]
      omega
    · rw [if_neg (by omega)]
      omega
  rw [resizeAlong, deref_eq_ok.mpr hback.mem.1, ok_bind, hm.redrawn.outs]
  refine Gives.ite (fun _ => ?_) fun hno => ?_
  · obtain ⟨allowed, hallowed, hroom⟩ := hback.resizeAllowed le_rfl
    rw [hoff']
    show Gives (Server.resizeAllowed s'.tiles a t (s'.tiles.tileTop + 2) t none (-offset)
      (-pixs) >>= _) _
    rw [hallowed, ok_bind, if_pos (hroom.mpr (hm.roomy_back h.edge h.roomy))]
    refine ((hback.resize le_rfl).gives fun u hu => ?_).mono fun s'' hs'' =>
      ⟨hs'', hm.back h.edge h.roomy hs''⟩
    rw [hm.joined_eq h.edge h.roomy] at hu
    exact (drawable_congr hm.tiles hm.redrawn).mpr (h.drawable u hu)
  · refine absurd ⟨hback.moves, ?_, ?_⟩ hno
    · omega
    · simp only [isBetweenStrict, Bool.and_eq_true, decide_eq_true_eq]
      omega

/-! ### The commands -/

/-- A resize does not change which tile an id stands for. -/
theorem addressedTile_congr (ht : s'.tiles = { s.tiles with tileBox := s'.tiles.tileBox })
    (ho : s'.outs = s.outs) (tileId : ℕ) :
    s'.curTile = s.curTile ∧ s'.addressedTile tileId = s.addressedTile tileId := by
  generalize s'.tiles.tileBox = box at ht
  simp only [addressedTile, curTile, tileFromId, ht, ho]
  exact ⟨rfl, rfl⟩

/-- What a resize command has read when it returns. -/
theorem runAction_resize_reads {o : OutPtr} {pixs : ℤ} {tileId : ℕ}
    (ho : s.outs.currOutput = some o) (ht : s.addressedTile tileId = .ok (some t))
    (hs' : s.runAction (.resize a pixs tileId) = .ok s') :
    ∃ f, s.curTile = .ok f ∧ s.tiles.tileLive t = true := by
  have key : ∀ hpixs vpixs, s.resizeTile hpixs vpixs tileId = .ok s' →
      ∃ f, s.curTile = .ok f ∧ s.tiles.tileLive t = true := by
    intro hpixs vpixs h
    obtain ⟨o', ho', hrest⟩ := bind_eq_ok.mp h
    obtain ⟨f, hf, -⟩ := bind_eq_ok.mp hrest
    rw [resizeTile_eq ho hf ht] at h
    obtain ⟨s₁, h₁, -⟩ := bind_eq_ok.mp h
    obtain ⟨_, hlive, -⟩ := bind_eq_ok.mp h₁
    exact ⟨f, hf, deref_eq_ok.mp hlive⟩
  cases a with
  | horizontal => exact key pixs 0 hs'
  | vertical => exact key 0 pixs hs'

/-- **A resize is undone** by the opposite resize of the same tile, if the tiles
of its workspace partition a rectangle of the size of the current output. -/
theorem resize_undone {o : OutPtr} {pixs : ℤ} {tileId : ℕ} (hinv : s.tiles.TilesInv False none)
    (ho : s.outs.currOutput = some o) (ht : s.addressedTile tileId = .ok (some t))
    (hp : Tiling (s.outs.outBox o).frame (s.tiles.tilesOf (s.tiles.tileWorkspace t))
      s.tiles.tileBox)
    (hs' : s.runAction (.resize a pixs tileId) = .ok s')
    (hne : s'.tiles.tileBox ≠ s.tiles.tileBox) :
    ∃ s'', s'.runAction (.resize a (-pixs) tileId) = .ok s'' ∧
      s''.tiles.tileBox = s.tiles.tileBox := by
  obtain ⟨f, hf, hlive⟩ := runAction_resize_reads ho ht hs'
  have htw : t ∈ s.tiles.tilesOf (s.tiles.tileWorkspace t) := ⟨hlive, rfl⟩
  have hkeeps : ∀ s₁, s.resizeAlong a o t pixs = .ok s₁ → s₁.tiles.tileLive t = true := by
    intro s₁ hs₁
    rcases resizeAlong_cases hinv htw hp hs₁ with rfl | ⟨_, _, _, h⟩
    · exact hlive
    · exact (h.moved.edgeOf h.edge h.roomy).mem.1
  rw [runAction_resize ho hf ht hlive hkeeps] at hs'
  rcases resizeAlong_cases hinv htw hp hs' with rfl | ⟨offset, X, e, h⟩
  · exact absurd rfl hne
  have hlive' := hkeeps s' hs'
  obtain ⟨s'', hs'', hm, hbox⟩ := h.undone
  obtain ⟨hf', ht'⟩ := addressedTile_congr h.moved.tiles h.moved.redrawn.outs tileId
  refine ⟨s'', ?_, hbox⟩
  rw [runAction_resize (h.moved.redrawn.outs ▸ ho) (hf'.trans hf) (ht'.trans ht) hlive', hs'']
  intro s₂ hs₂
  obtain rfl := Except.ok.inj (hs''.symm.trans hs₂)
  rw [hm.tiles]
  exact hlive'

/-- The left tile of the larger output is made wider, and narrower again. -/
theorem resize_undone_split : ∃ s s' s'' : Server,
    s.runAction (.resize .horizontal 2 0) = .ok s' ∧
    s'.runAction (.resize .horizontal (-2) 0) = .ok s'' ∧
    s''.tiles.tileBox = s.tiles.tileBox := by
  obtain ⟨s, s', hr, ht, hp, hs', -, hbox, hrun⟩ :=
    exists_twoSizes 2 0 0 ⟨0, 0, 7, 10⟩ (by decide)
  obtain ⟨-, hbox₀, hframe, hcur, hout, -⟩ := twoSizes_facts hrun
  have hne : s'.tiles.tileBox ≠ s.tiles.tileBox := by
    intro h
    rw [h, hbox₀] at hbox
    exact absurd hbox (by decide)
  rw [hframe, ← hout] at hp
  obtain ⟨s'', hs'', hback⟩ :=
    resize_undone (a := .horizontal) hr.wellFormed.tiles hcur ht hp hs' hne
  exact ⟨s, s', s'', hs', hs'', hback⟩

end Server

end Cagebreak
