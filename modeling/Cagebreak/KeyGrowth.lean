/-
The tables that grow, when memory runs out (`keybinding.c`).

The list of keybindings and the two arrays of `definemode` are blocks on the
heap.  Every reallocation and every copy of a string takes the answer of the
allocator from outside, so that a run may see any pattern of failures.

* `step_safe_iff` — an operation stays in bounds and leaves valid tables, the old
  ones if it fails, exactly if the allocator does not refuse in the wrong place;
* `growths_safe` — what that gives for runs;
* `tables_back_server` — with memory for all, the tables hold what `KeyServer` keeps.
-/
import Cagebreak.KeyMap
import Cagebreak.Lib.Blocks
import Cagebreak.Lib.Buffer

namespace Cagebreak

open Blocks Outcome KeyServer

/-- Why an operation on the tables goes wrong. -/
inductive TableFault
  | block (e : BlockFault)
  /-- an entry that was not written to is followed -/
  | unwritten
  /-- a keybinding that is not live is followed or freed -/
  | keybinding
  /-- a result of type `int` does not fit -/
  | overflow
  deriving DecidableEq, Repr

abbrev TableExec (α : Type) := Except TableFault α

/-- `struct keybinding_list`, with the address of its array. -/
structure GrowingList where
  length : UInt32
  capacity : UInt32
  keybindings : ℕ
  deriving DecidableEq

/-- The tables of the server, and the heap they are on.  In an array of strings
`none` stands for `NULL` as well. -/
structure Tables where
  memory : Memory
  arrays : Blocks ℕ
  list : GrowingList
  names : Blocks Text
  modes : ℕ
  modecursors : ℕ

namespace Tables

/-! ### The functions -/

/-- An access to a block. -/
def access {α : Type} (m : Except BlockFault α) : TableExec α := m.mapError .block

/-- What is done with keybindings on the heap. -/
def object {α : Type} (m : Exec α) : TableExec α := m.mapError fun _ => .keybinding

/-- A result of type `int`. -/
def int (n : ℕ) : TableExec ℕ := if n < 2 ^ 31 then .ok n else .error .overflow

/-- `keybinding_resize`.  The capacity is doubled first. -/
def keybindingResize (g : Grant) (s : Tables) : TableExec (Tables × ℤ) :=
  if s.list.length = s.list.capacity then do
    let list := { s.list with capacity := s.list.capacity * 2 }
    let (arrays, newList) ← access (s.arrays.realloc list.keybindings list.capacity.toNat g)
    match newList with
    | none => .ok ({ s with arrays, list }, -1)
    | some newList => .ok ({ s with arrays, list := { list with keybindings := newList } }, 0)
  else .ok (s, 0)

/-- `server->keybindings->keybindings[i]`, followed. -/
def entry (s : Tables) (i : ℕ) : TableExec ℕ := do
  match ← access (s.arrays.read s.list.keybindings i) with
  | none => .error .unwritten
  | some k => .ok k

/-- The loop of `find_keybinding`, for `n` more entries from `i` on. -/
def findFrom (mode : UInt16) (modifiers key : UInt32) (s : Tables) :
    ℕ → ℕ → TableExec (Option ℕ)
  | 0, _ => .ok none
  | n + 1, i => do
    let it ← s.entry i
    let kb ← object (Exec.nonNull (s.memory.heap it))
    if modifiers = kb.modifiers ∧ mode = kb.mode ∧ key = kb.key then .ok (some i)
    else findFrom mode modifiers key s n (i + 1)

/-- `find_keybinding`: the index of the entry. -/
def findKeybinding (mode : UInt16) (modifiers key : UInt32) (s : Tables) :
    TableExec (Option ℕ) :=
  s.findFrom mode modifiers key s.list.length.toNat 0

/-- The part of `keybinding_list_push` after the resize. -/
def insertKeybinding (keybinding : ℕ) (s : Tables) : TableExec Tables := do
  let kb ← object (Exec.nonNull (s.memory.heap keybinding))
  match ← s.findKeybinding kb.mode kb.modifiers kb.key with
  | some i => do
    let found ← s.entry i
    let heap ← object (keybindingFree s.memory.next s.memory.heap found true)
    let arrays ← access (s.arrays.write s.list.keybindings i (some keybinding))
    .ok { s with memory := { s.memory with heap }, arrays }
  | none => do
    let arrays ←
      access (s.arrays.write s.list.keybindings s.list.length.toNat (some keybinding))
    .ok { s with arrays, list := { s.list with length := s.list.length + 1 } }

/-- `keybinding_list_push`, with the number it returns. -/
def keybindingListPush (keybinding : ℕ) (g : Grant) (s : Tables) : TableExec (Tables × ℤ) := do
  let (s, err) ← s.keybindingResize g
  if err ≠ 0 then .ok (s, -1)
  else do
    let s ← s.insertKeybinding keybinding
    .ok (s, 0)

/-- `while(server->modes[length++] != NULL);` -/
def countFrom : List (Option Text) → ℕ → TableExec ℕ
  | [], _ => .error (.block .outside)
  | some _ :: modes, length => do
    let length ← int (length + 1)
    countFrom modes length
  | none :: _, length => int (length + 1)

/-- `if(tmp != NULL) free(tmp);` -/
def freeSome (names : Blocks Text) : Option ℕ → TableExec (Blocks Text)
  | none => .ok names
  | some tmp => access (names.free tmp)

/-- The part of `keybinding_definemode` after the loop.  The result says whether it
gave up. -/
def reallocModes (mode : Text) (g g' : Grant) (copied : Bool) (s : Tables) (length : ℕ) :
    TableExec (Tables × Bool) := do
  let size ← int (length + 1)
  let (names, tmp) ← access (s.names.realloc s.modes size g)
  let (names, tmp2) ← access (names.realloc s.modecursors size g')
  match tmp, tmp2 with
  | some modes, some modecursors => do
    let names ← access (names.write modes length none)
    let names ← access (names.write modecursors length none)
    let names ← access (names.write modes (length - 1) (if copied then some mode else none))
    .ok ({ s with names, modes, modecursors }, false)
  | tmp, tmp2 => do
    let names ← freeSome names tmp
    let names ← freeSome names tmp2
    .ok ({ s with names }, true)

/-- `keybinding_definemode`, with the answers to its two reallocations and to
`strdup`, up to the event it sends. -/
def keybindingDefinemode (mode : Text) (g g' : Grant) (copied : Bool) (s : Tables) :
    TableExec (Tables × Bool) := do
  let length ← (match s.names.block s.modes with
    | none => .error (.block .freed)
    | some modes => countFrom modes 0)
  s.reallocModes mode g g' copied length

end Tables

/-- What is done with the tables, with the answers of the allocator. -/
inductive TableEvent
  /-- a keybinding is parsed -/
  | parse (kb : Keybinding)
  | push (keybinding : ℕ) (g : Grant)
  | lookup (mode : UInt16) (modifiers key : UInt32)
  | definemode (mode : Text) (g g' : Grant) (copied : Bool)

namespace Tables

/-- Handle one event; the result says whether it failed for lack of memory. -/
def handle (s : Tables) : TableEvent → TableExec (Tables × Bool)
  | .parse kb => .ok ({ s with memory := s.memory.alloc kb }, false)
  | .push keybinding g => do
    let (s, err) ← s.keybindingListPush keybinding g
    .ok (s, decide (err = -1))
  | .lookup mode modifiers key => do
    let _ ← s.findKeybinding mode modifiers key
    .ok (s, false)
  | .definemode mode g g' copied => s.keybindingDefinemode mode g g' copied

def step (s : Tables) (e : TableEvent) : TableExec Tables := do
  let (s, _) ← s.handle e
  .ok s

/-- The tables of a new server (`main`, `keybinding_list_init`). -/
def initial : Tables where
  memory := ⟨fun _ => none, 0⟩
  arrays := ⟨fun p => if p = 0 then some [none] else none, 1⟩
  list := ⟨0, 1, 0⟩
  names := ⟨fun p =>
    if p = 0 then some [some (ascii "top"), some (ascii "root"), some (ascii "resize"), none]
    else if p = 1 then some [none, some (ascii "cell"), none, none]
    else none, 2⟩
  modes := 0
  modecursors := 1

/-! ### Valid tables -/

/-- The list describes its array: as many entries were allocated as the capacity
says, a power of two, and those below the length are keybindings. -/
structure ListValid (s : Tables) : Prop where
  fresh : s.arrays.Fresh
  capacity : ∃ e, s.list.capacity.toNat = 2 ^ e
  block : ∃ (its : List ℕ) (rest : List (Option ℕ)),
    s.arrays.block s.list.keybindings = some (its.map some ++ rest) ∧
    its.length = s.list.length.toNat ∧ its.length + rest.length = s.list.capacity.toNat

/-- The modes and their cursors are two arrays of the same length, the first of
which ends with `NULL`. -/
structure ModesValid (s : Tables) : Prop where
  fresh : s.names.Fresh
  ne : s.modes ≠ s.modecursors
  blocks : ∃ modes cursors, s.names.block s.modes = some modes ∧
    s.names.block s.modecursors = some cursors ∧ none ∈ modes ∧ cursors.length = modes.length

structure Valid (s : Tables) : Prop where
  list : s.ListValid
  modes : s.ModesValid

/-- The tables are where they were, with the same contents. -/
structure Same (s t : Tables) : Prop where
  list : t.list = s.list
  array : t.arrays.block t.list.keybindings = s.arrays.block s.list.keybindings
  modes : t.modes = s.modes
  modecursors : t.modecursors = s.modecursors
  names : t.names.block t.modes = s.names.block s.modes
  cursors : t.names.block t.modecursors = s.names.block s.modecursors

/-- The operation accesses no block that is freed and none outside; afterwards
the tables are valid, and they are the old ones if it failed. -/
def Safe (s : Tables) (e : TableEvent) : Prop :=
  Meets (s.handle e) (· = .keybinding) fun t => t.1.Valid ∧ (t.2 = true → s.Same t.1)

/-- The number of modes. -/
def numModes (s : Tables) : ℕ := ((s.names.block s.modes).getD []).findIdx (·.isNone)

/-- A list that has to grow is granted the doubled capacity, and the two
reallocations of `definemode` have the same outcome. -/
def Grants (s : Tables) : TableEvent → Prop
  | .push _ g =>
    s.list.length = s.list.capacity → g ≠ .refused ∧ s.list.capacity.toNat ≠ 2 ^ 31
  | .definemode _ g g' _ => (g = .refused ↔ g' = .refused) ∧ s.numModes + 2 < 2 ^ 31
  | _ => True

instance (s : Tables) (e : TableEvent) : Decidable (s.Grants e) :=
  match e with
  | .push _ _ => inferInstanceAs (Decidable (_ → _))
  | .definemode _ _ _ _ => inferInstanceAs (Decidable (_ ∧ _))
  | .parse _ => .isTrue trivial
  | .lookup _ _ _ => .isTrue trivial

variable {s t : Tables} {g g' : Grant} {k i n : ℕ} {e : TableEvent} {mode : UInt16}
  {modifiers key : UInt32} {its : List ℕ} {rest : List (Option ℕ)}

theorem meets_access {α : Type} {m : Except BlockFault α} {a : α} {Q : α → Prop}
    (hm : m = .ok a) (h : Q a) : Meets (access m) (· = .keybinding) Q := by
  rw [hm]
  exact h

theorem meets_object {α : Type} (m : Exec α) :
    Meets (object m) (· = .keybinding) fun a => m = .ok a := by
  cases m with
  | ok a => exact Meets.ok rfl
  | error e => exact Meets.error rfl

/-! ### The list of keybindings -/

theorem entry_eq (hb : s.arrays.block s.list.keybindings = some (its.map some ++ rest))
    (hi : i < its.length) : s.entry i = .ok its[i] := by
  have hlt : i < (its.map some ++ rest).length := by simp; omega
  have hget : (its.map some ++ rest)[i]?.join = some its[i] := by
    rw [List.getElem?_append_left (by simpa using hi)]
    simp [hi]
  rw [entry, read_eq hb hlt, hget]
  rfl

/-- The search looks at the entries below the length. -/
theorem findFrom_spec (hb : s.arrays.block s.list.keybindings = some (its.map some ++ rest))
    (hn : i + n ≤ its.length) : Meets (s.findFrom mode modifiers key n i) (· = .keybinding)
      fun found => ∀ j, found = some j → j < its.length := by
  induction n generalizing i with
  | zero => exact Meets.ok fun j hj => absurd hj.symm (Option.some_ne_none j)
  | succ n ih =>
    rw [findFrom, entry_eq hb (by omega)]
    refine Meets.bind (P := fun _ => True) (Meets.ok trivial) fun it _ => ?_
    refine Meets.bind (meets_object _) fun kb _ => Meets.ite (fun _ => ?_) fun _ => ih (by omega)
    refine Meets.ok fun j hj => ?_
    rw [← Option.some.inj hj]
    omega

/-- Nothing but the list of keybindings has changed. -/
structure SameModes (s t : Tables) : Prop where
  names : t.names = s.names
  modes : t.modes = s.modes
  modecursors : t.modecursors = s.modecursors

theorem ModesValid.congr (h : s.ModesValid) (hst : s.SameModes t) : t.ModesValid := by
  obtain ⟨hfresh, hne, hblocks⟩ := h
  refine ⟨?_, ?_, ?_⟩
  · rw [hst.names]
    exact hfresh
  · rw [hst.modes, hst.modecursors]
    exact hne
  · rw [hst.names, hst.modes, hst.modecursors]
    exact hblocks

/-- The array is written to at an entry in use. -/
theorem ListValid.write (h : s.ListValid)
    (hb : s.arrays.block s.list.keybindings = some (its.map some ++ rest))
    (hlen : its.length = s.list.length.toNat)
    (hcap : its.length + rest.length = s.list.capacity.toNat) (hi : i < its.length)
    (memory : Memory) :
    ListValid { s with
      memory
      arrays := s.arrays.put s.list.keybindings (some ((its.map some ++ rest).set i (some k)))
    } := by
  refine ⟨h.fresh.put (h.fresh.lt hb) _, h.capacity, its.set i k, rest, ?_, ?_, ?_⟩
  · show (s.arrays.put s.list.keybindings _).block s.list.keybindings = _
    rw [put_block_self, List.set_append_left _ _ (by simpa using hi), List.map_set]
  · rw [List.length_set]
    exact hlen
  · rw [List.length_set]
    exact hcap

/-- The entry after the last one is written to. -/
theorem ListValid.append (h : s.ListValid)
    (hb : s.arrays.block s.list.keybindings = some (its.map some ++ rest))
    (hlen : its.length = s.list.length.toNat)
    (hcap : its.length + rest.length = s.list.capacity.toNat) (hroom : 0 < rest.length) :
    ListValid { s with
      arrays := s.arrays.put s.list.keybindings
        (some ((its.map some ++ rest).set its.length (some k)))
      list := { s.list with length := s.list.length + 1 } } := by
  have hlt : s.list.capacity.toNat < 2 ^ 32 := UInt32.toNat_lt _
  cases rest with
  | nil => exact absurd hroom (Nat.lt_irrefl 0)
  | cons r rest =>
    refine ⟨h.fresh.put (h.fresh.lt hb) _, h.capacity, its ++ [k], rest, ?_, ?_, ?_⟩
    · show (s.arrays.put s.list.keybindings _).block s.list.keybindings = _
      rw [put_block_self, List.set_append_right _ _ (by simp)]
      simp
    · show _ = (s.list.length + 1).toNat
      rw [List.length_append, hlen, UInt32.toNat_add]
      rw [List.length_cons] at hcap
      exact (Nat.mod_eq_of_lt (by simp; omega)).symm
    · simp at hcap ⊢
      omega

theorem insertKeybinding_spec (h : s.ListValid)
    (hroom : s.list.length.toNat < s.list.capacity.toNat) :
    Meets (s.insertKeybinding k) (· = .keybinding) fun t => t.ListValid ∧ s.SameModes t := by
  obtain ⟨its, rest, hb, hlen, hcap⟩ := h.block
  have hin : ∀ j, j ≤ its.length → j < (its.map some ++ rest).length := by
    intro j hj
    simp
    omega
  rw [insertKeybinding]
  refine Meets.bind (meets_object _) fun kb _ => ?_
  refine Meets.bind (findFrom_spec hb (by omega)) fun found hfound => ?_
  cases found with
  | some i =>
    have hi := hfound i rfl
    simp only
    rw [entry_eq hb hi]
    refine Meets.bind (P := fun _ => True) (Meets.ok trivial) fun old _ => ?_
    refine Meets.bind (meets_object _) fun heap _ => ?_
    refine Meets.bind (meets_access (write_eq hb (hin i (by omega))) rfl) fun arrays harrays => ?_
    subst harrays
    exact Meets.ok ⟨h.write hb hlen hcap hi _, rfl, rfl, rfl⟩
  | none =>
    simp only
    rw [← hlen]
    refine Meets.bind (meets_access (write_eq hb (hin _ le_rfl)) rfl) fun arrays harrays => ?_
    subst harrays
    exact Meets.ok ⟨h.append hb hlen hcap (by omega), rfl, rfl, rfl⟩

/-- There is room in the list, or it can grow. -/
def GrowsFor (s : Tables) (g : Grant) : Prop :=
  s.list.length = s.list.capacity → g ≠ .refused ∧ s.list.capacity.toNat ≠ 2 ^ 31

/-- **The list grows.**  It does so if it has to and the allocator agrees; if not,
the capacity is another one already. -/
theorem keybindingResize_spec (h : s.ListValid) (g : Grant) :
    ∃ t err, s.keybindingResize g = .ok (t, err) ∧ s.SameModes t ∧
      (s.GrowsFor g ∧ err = 0 ∧ t.ListValid ∧ t.list.length.toNat < t.list.capacity.toNat ∨
        ¬ s.GrowsFor g ∧ err = -1 ∧ t.list.capacity ≠ s.list.capacity) := by
  obtain ⟨its, rest, hb, hlen, hcap⟩ := h.block
  rw [keybindingResize]
  by_cases hfull : s.list.length = s.list.capacity
  · have hrest : rest = [] := by
      rw [hfull] at hlen
      exact List.length_eq_zero_iff.mp (by omega)
    rw [hrest, List.append_nil] at hb
    have hpos : 0 < s.list.capacity.toNat := by
      obtain ⟨e, he⟩ := h.capacity
      rw [he]
      exact Nat.two_pow_pos e
    rw [if_pos hfull]
    by_cases htop : s.list.capacity.toNat = 2 ^ 31
    · -- an array of no entries is asked for
      have hzero := (toNat_double h.capacity).1 htop
      simp only [hzero]
      rw [realloc_zero hb]
      refine ⟨_, -1, rfl, ⟨rfl, rfl, rfl⟩, .inr ⟨fun hgrow => (hgrow hfull).2 htop, rfl, ?_⟩⟩
      intro hsame
      have hsame' : s.list.capacity * 2 = s.list.capacity := hsame
      rw [hsame'] at hzero
      omega
    · obtain ⟨hdouble, hpow⟩ := (toNat_double h.capacity).2 htop
      by_cases hg : g = .refused
      · subst hg
        simp only
        rw [realloc_refused hb (by omega)]
        refine ⟨_, -1, rfl, ⟨rfl, rfl, rfl⟩, .inr ⟨fun hgrow => (hgrow hfull).1 rfl, rfl, ?_⟩⟩
        intro hsame
        have hsame' : s.list.capacity * 2 = s.list.capacity := hsame
        rw [hsame'] at hdouble
        omega
      · obtain ⟨arrays, q, hre, hq⟩ :=
          realloc_granted hb h.fresh (n := (s.list.capacity * 2).toNat) (by omega) hg
        simp only [hre]
        refine ⟨_, 0, rfl, ⟨rfl, rfl, rfl⟩, .inl ⟨fun _ => ⟨hg, htop⟩, rfl, ⟨hq.fresh, hpow, its,
          List.replicate ((s.list.capacity * 2).toNat - its.length) none, ?_, hlen, ?_⟩, ?_⟩⟩
        · have hle : (its.map some).length ≤ (s.list.capacity * 2).toNat := by
            rw [List.length_map, hdouble]
            omega
          have hblock := hq.block
          rw [resized_of_le hle, List.length_map] at hblock
          exact hblock
        · show its.length + (List.replicate _ _).length = (s.list.capacity * 2).toNat
          rw [List.length_replicate, hdouble]
          rw [hfull] at hlen
          omega
        · show s.list.length.toNat < (s.list.capacity * 2).toNat
          rw [hdouble, hfull]
          omega
  · rw [if_neg hfull]
    have hne : s.list.length.toNat ≠ s.list.capacity.toNat := fun heq =>
      hfull (UInt32.toNat_inj.mp heq)
    exact ⟨s, 0, rfl, ⟨rfl, rfl, rfl⟩, .inl ⟨fun hf => absurd hf hfull, rfl, h, by omega⟩⟩

theorem push_safe_iff (h : s.Valid) : s.Safe (.push k g) ↔ s.Grants (.push k g) := by
  obtain ⟨t, err, hres, hsame, hcase⟩ := keybindingResize_spec h.list g
  have hmodes : t.ModesValid := h.modes.congr hsame
  rw [Safe, handle, keybindingListPush, hres]
  obtain ⟨hgrow, rfl, hlist, hroom⟩ | ⟨hgrow, rfl, hcap⟩ := hcase
  · refine iff_of_true ?_ hgrow
    show Meets ((t.insertKeybinding k >>= fun t => .ok (t, (0 : ℤ))) >>= fun r =>
      .ok (r.1, decide (r.2 = -1))) _ _
    refine Meets.bind (P := fun r => r.1.Valid ∧ r.2 = 0) (Meets.bind
      (insertKeybinding_spec hlist hroom) fun t' ht' => ?_) fun r hr => ?_
    · exact Meets.ok ⟨⟨ht'.1, hmodes.congr ht'.2⟩, rfl⟩
    · have hzero : decide (r.2 = -1) = false := by
        rw [hr.2]
        rfl
      rw [hzero]
      exact Meets.ok ⟨hr.1, fun hfail => absurd hfail Bool.false_ne_true⟩
  · refine iff_of_false (fun hsafe => ?_) hgrow
    have hold : s.Same t := hsafe.2 rfl
    rw [hold.list] at hcap
    exact hcap rfl

/-! ### The modes -/

/-- The loop counts the modes, and the `NULL` after them, as long as an `int` can. -/
theorem countFrom_spec {modes : List (Option Text)} (h : none ∈ modes) (n : ℕ) :
    countFrom modes n = if modes.findIdx (·.isNone) + n + 1 < 2 ^ 31 then
      .ok (modes.findIdx (·.isNone) + n + 1) else .error .overflow := by
  induction modes generalizing n with
  | nil => exact absurd h List.not_mem_nil
  | cons mode modes ih =>
    cases mode with
    | none =>
      rw [countFrom, int, List.findIdx_cons]
      simp
    | some mode =>
      have hmem : none ∈ modes := by simpa using h
      have hidx : (some mode :: modes).findIdx (·.isNone) = modes.findIdx (·.isNone) + 1 := by
        rw [List.findIdx_cons]
        rfl
      rw [countFrom, int, hidx]
      by_cases hn : n + 1 < 2 ^ 31
      · rw [if_pos hn]
        show countFrom modes (n + 1) = _
        rw [ih hmem]
        have hcomm : modes.findIdx (·.isNone) + (n + 1) + 1 =
            modes.findIdx (·.isNone) + 1 + n + 1 := by omega
        rw [hcomm]
      · rw [if_neg hn, if_neg (by omega)]
        rfl

/-- The two arrays of modes, with the number of modes. -/
theorem ModesValid.cases (h : s.ModesValid) : ∃ modes cursors,
    s.names.block s.modes = some modes ∧ s.names.block s.modecursors = some cursors ∧
      none ∈ modes ∧ cursors.length = modes.length ∧ s.numModes = modes.findIdx (·.isNone) := by
  obtain ⟨modes, cursors, hm, hc, hnull, hlen⟩ := h.blocks
  refine ⟨modes, cursors, hm, hc, hnull, hlen, ?_⟩
  rw [numModes, hm]
  rfl

theorem definemode_eq {mode : Text} {copied : Bool} (h : s.ModesValid) :
    s.keybindingDefinemode mode g g' copied = if s.numModes + 1 < 2 ^ 31 then
      s.reallocModes mode g g' copied (s.numModes + 1) else .error .overflow := by
  obtain ⟨modes, cursors, hm, -, hnull, -, hnum⟩ := h.cases
  rw [keybindingDefinemode, hm]
  simp only
  rw [countFrom_spec hnull, ← hnum, Nat.add_zero]
  split
  · rfl
  · rfl

/-- Nothing but the modes has changed. -/
structure SameList (s t : Tables) : Prop where
  memory : t.memory = s.memory
  list : t.list = s.list
  arrays : t.arrays = s.arrays

theorem ListValid.congr (h : s.ListValid) (hst : s.SameList t) : t.ListValid := by
  obtain ⟨hfresh, hcap, hblock⟩ := h
  refine ⟨?_, ?_, ?_⟩
  · rw [hst.arrays]
    exact hfresh
  · rw [hst.list]
    exact hcap
  · rw [hst.arrays, hst.list]
    exact hblock

/-- Both reallocations are granted: the arrays are two blocks of the new length,
and the names end with `NULL`. -/
theorem reallocModes_granted (mode : Text) (copied : Bool) (h : s.ModesValid)
    (hfit : s.numModes + 2 < 2 ^ 31) (hg : g ≠ .refused) (hg' : g' ≠ .refused) :
    ∃ t, s.reallocModes mode g g' copied (s.numModes + 1) = .ok (t, false) ∧ t.ModesValid ∧
      s.SameList t ∧
      (∀ modes, s.names.block s.modes = some modes → t.names.block t.modes =
        some (((resized modes (s.numModes + 2)).set (s.numModes + 1) none).set s.numModes
          (if copied then some mode else none))) ∧
      ∀ cursors, s.names.block s.modecursors = some cursors → t.names.block t.modecursors =
        some ((resized cursors (s.numModes + 2)).set (s.numModes + 1) none) := by
  obtain ⟨modes, cursors, hm, hc, -, -, -⟩ := h.cases
  obtain ⟨names, q, hre, hq⟩ := realloc_granted hm h.fresh (n := s.numModes + 2) (by omega) hg
  have hcur := hq.others s.modecursors h.ne.symm (by rw [hc]; rfl)
  obtain ⟨names', q', hre', hq'⟩ :=
    realloc_granted (hcur.2.trans hc) hq.fresh (n := s.numModes + 2) (by omega) hg'
  obtain ⟨hqq, hkeep⟩ := hq'.others q hcur.1.symm (by rw [hq.block]; rfl)
  have hin : ∀ {l : List (Option Text)}, s.numModes + 1 < (resized l (s.numModes + 2)).length := by
    intro l
    rw [length_resized]
    omega
  -- the three assignments
  have hb := hkeep.trans hq.block
  have hw := write_eq (v := none) hb hin
  generalize hn : names'.put q _ = names₁ at hw
  have hb₁ : names₁.block q' = some (resized cursors (s.numModes + 2)) := by
    rw [← hn, put_block_of_ne hqq.symm]
    exact hq'.block
  have hw₁ := write_eq (v := none) hb₁ hin
  generalize hn₁ : names₁.put q' _ = names₂ at hw₁
  have hb₂ : names₂.block q =
      some ((resized modes (s.numModes + 2)).set (s.numModes + 1) none) := by
    rw [← hn₁, put_block_of_ne hqq, ← hn, put_block_self]
  have hlast : s.numModes + 1 - 1 <
      ((resized modes (s.numModes + 2)).set (s.numModes + 1) none).length := by
    rw [List.length_set, length_resized]
    omega
  have hw₂ := write_eq (v := if copied then some mode else none) hb₂ hlast
  have hfresh₁ : names₁.Fresh := by
    rw [← hn]
    exact hq'.fresh.put (hq'.fresh.lt hb) _
  have hfresh₂ : names₂.Fresh := by
    rw [← hn₁]
    exact hfresh₁.put (hfresh₁.lt hb₁) _
  have hrun : s.reallocModes mode g g' copied (s.numModes + 1) = .ok ({ s with
      names := names₂.put q (some (((resized modes (s.numModes + 2)).set (s.numModes + 1) none).set
        (s.numModes + 1 - 1) (if copied then some mode else none)))
      modes := q
      modecursors := q' }, false) := by
    rw [reallocModes, int, if_pos hfit]
    show (access (s.names.realloc s.modes (s.numModes + 2) g) >>= _) = _
    rw [hre]
    show (access (names.realloc s.modecursors (s.numModes + 2) g') >>= _) = _
    rw [hre']
    show (access (names'.write q (s.numModes + 1) none) >>= _) = _
    rw [hw]
    show (access (names₁.write q' (s.numModes + 1) none) >>= _) = _
    rw [hw₁]
    show (access (names₂.write q (s.numModes + 1 - 1) _) >>= _) = _
    rw [hw₂]
    rfl
  have hcursors : (names₂.put q (some (((resized modes (s.numModes + 2)).set (s.numModes + 1)
      none).set (s.numModes + 1 - 1) (if copied then some mode else none)))).block q' =
        some ((resized cursors (s.numModes + 2)).set (s.numModes + 1) none) := by
    rw [put_block_of_ne hqq.symm, ← hn₁, put_block_self]
  refine ⟨_, hrun, ⟨hfresh₂.put (hfresh₂.lt hb₂) _, hqq, _, _, put_block_self, hcursors, ?_, ?_⟩,
    ⟨rfl, rfl, rfl⟩, fun l hl => ?_, fun l hl => ?_⟩
  · refine List.mem_iff_getElem?.mpr ⟨s.numModes + 1, ?_⟩
    rw [List.getElem?_set_ne (by omega), List.getElem?_set_self hin]
  · rw [List.length_set, List.length_set, List.length_set, length_resized, length_resized]
  · rw [hm] at hl
    rw [← Option.some.inj hl]
    exact put_block_self
  · rw [hc] at hl
    rw [← Option.some.inj hl]
    exact hcursors

/-- Both are refused: nothing has changed. -/
theorem reallocModes_refused {mode : Text} {copied : Bool} (h : s.ModesValid)
    (hfit : s.numModes + 2 < 2 ^ 31) :
    s.reallocModes mode .refused .refused copied (s.numModes + 1) = .ok (s, true) := by
  obtain ⟨modes, cursors, hm, hc, -, -, -⟩ := h.cases
  rw [reallocModes, int, if_pos hfit]
  show (access (s.names.realloc s.modes (s.numModes + 2) .refused) >>= _) = _
  rw [realloc_refused hm (by omega)]
  show (access (s.names.realloc s.modecursors (s.numModes + 2) .refused) >>= _) = _
  rw [realloc_refused hc (by omega)]
  rfl

/-- One is refused: the array that the other one was for is gone. -/
theorem reallocModes_torn (mode : Text) (copied : Bool) (h : s.ModesValid)
    (hfit : s.numModes + 2 < 2 ^ 31) (hg : ¬ (g = .refused ↔ g' = .refused)) :
    ∃ t, s.reallocModes mode g g' copied (s.numModes + 1) = .ok (t, true) ∧
      t.modes = s.modes ∧ t.modecursors = s.modecursors ∧
      (t.names.block s.modes = none ∨ t.names.block s.modecursors = none) := by
  obtain ⟨modes, cursors, hm, hc, -, -, -⟩ := h.cases
  rw [reallocModes, int, if_pos hfit]
  by_cases hg' : g' = .refused
  · -- the modes are reallocated
    obtain ⟨names, q, hre, hq⟩ := realloc_granted hm h.fresh (n := s.numModes + 2) (by omega)
      fun hrefused => hg (iff_of_true hrefused hg')
    have hcur := hq.others s.modecursors h.ne.symm (by rw [hc]; rfl)
    show ∃ t, (access (s.names.realloc s.modes (s.numModes + 2) g) >>= _) = _ ∧ _
    rw [hre, hg']
    show ∃ t, (access (names.realloc s.modecursors (s.numModes + 2) .refused) >>= _) = _ ∧ _
    rw [realloc_refused (hcur.2.trans hc) (by omega)]
    show ∃ t, (access (names.free q) >>= _) = _ ∧ _
    rw [free_eq hq.block]
    refine ⟨{ s with names := names.put q none }, rfl, rfl, rfl, .inl ?_⟩
    show (names.put q none).block s.modes = none
    by_cases hqm : q = s.modes
    · rw [hqm]
      exact put_block_self
    · rw [put_block_of_ne (Ne.symm hqm)]
      exact hq.gone hqm
  · -- the cursors are reallocated
    have hrefused : g = .refused := by
      by_contra hgrant
      exact hg (iff_of_false hgrant hg')
    obtain ⟨names, q, hre, hq⟩ :=
      realloc_granted hc h.fresh (n := s.numModes + 2) (by omega) hg'
    show ∃ t, (access (s.names.realloc s.modes (s.numModes + 2) g) >>= _) = _ ∧ _
    rw [hrefused, realloc_refused hm (by omega)]
    show ∃ t, (access (s.names.realloc s.modecursors (s.numModes + 2) g') >>= _) = _ ∧ _
    rw [hre]
    show ∃ t, (access (names.free q) >>= _) = _ ∧ _
    rw [free_eq hq.block]
    refine ⟨{ s with names := names.put q none }, rfl, rfl, rfl, .inr ?_⟩
    show (names.put q none).block s.modecursors = none
    by_cases hqm : q = s.modecursors
    · rw [hqm]
      exact put_block_self
    · rw [put_block_of_ne (Ne.symm hqm)]
      exact hq.gone hqm

theorem Same.refl (s : Tables) : s.Same s := ⟨rfl, rfl, rfl, rfl, rfl, rfl⟩

/-- Too many modes for an `int`. -/
theorem definemode_overflow {mode : Text} {copied : Bool} (h : s.ModesValid)
    (hfit : ¬ s.numModes + 2 < 2 ^ 31) :
    s.keybindingDefinemode mode g g' copied = .error .overflow := by
  rw [definemode_eq h]
  split
  · rw [reallocModes, int, if_neg hfit]
    rfl
  · rfl

theorem definemode_safe_iff {mode : Text} {copied : Bool} (h : s.Valid) :
    s.Safe (.definemode mode g g' copied) ↔ s.Grants (.definemode mode g g' copied) := by
  rw [Safe, handle, Grants]
  by_cases hfit : s.numModes + 2 < 2 ^ 31
  · rw [definemode_eq h.modes, if_pos (by omega)]
    by_cases hg : g = .refused ↔ g' = .refused
    · refine iff_of_true ?_ ⟨hg, hfit⟩
      by_cases hrefused : g = .refused
      · rw [hrefused, hg.mp hrefused, reallocModes_refused h.modes hfit]
        exact Meets.ok ⟨h, fun _ => .refl s⟩
      · obtain ⟨t, ht, hvalid, hsame, -⟩ := reallocModes_granted mode copied
          h.modes hfit hrefused fun h' => hrefused (hg.mpr h')
        rw [ht]
        exact Meets.ok ⟨⟨h.list.congr hsame, hvalid⟩, fun hfail => absurd hfail Bool.false_ne_true⟩
    · obtain ⟨t, ht, hm, hc, hgone⟩ :=
        reallocModes_torn mode copied h.modes hfit hg
      refine iff_of_false (fun hsafe => ?_) fun hgrants => hg hgrants.1
      rw [ht] at hsafe
      obtain ⟨modes, cursors, hmodes, hcursors, -⟩ := hsafe.1.modes.blocks
      rw [hm] at hmodes
      rw [hc] at hcursors
      obtain hnone | hnone := hgone
      · exact Option.some_ne_none modes (hmodes.symm.trans hnone)
      · exact Option.some_ne_none cursors (hcursors.symm.trans hnone)
  · rw [definemode_overflow h.modes hfit]
    refine iff_of_false (fun hsafe => ?_) fun hgrants => hfit hgrants.2
    have hfault : TableFault.overflow = .keybinding := hsafe
    cases hfault

theorem findKeybinding_spec (h : s.ListValid) :
    Meets (s.findKeybinding mode modifiers key) (· = .keybinding) fun _ => True := by
  obtain ⟨its, rest, hb, hlen, -⟩ := h.block
  exact (findFrom_spec hb (by omega)).mono (fun _ he => he) fun _ _ => trivial

/-! ### When nothing is refused -/

/-- The list with its array. -/
def view (s : Tables) : KeyArray :=
  ⟨s.list.length, s.list.capacity, (s.arrays.block s.list.keybindings).getD []⟩

theorem view_of_block {l : List (Option ℕ)} (h : s.arrays.block s.list.keybindings = some l) :
    s.view = ⟨s.list.length, s.list.capacity, l⟩ := by
  rw [view, h]
  rfl

/-- An entry of the array that was written to is followed. -/
theorem entry_of_block {l : List (Option ℕ)}
    (hb : s.arrays.block s.list.keybindings = some l) (hk : l[i]?.join = some k) :
    s.entry i = .ok k := by
  have hlt : i < l.length := by
    by_contra hge
    rw [List.getElem?_eq_none (by omega)] at hk
    cases hk
  rw [entry, read_eq hb hlt, hk]
  rfl

/-- The search finds what it finds in the array. -/
theorem findFrom_view {l : List (Option ℕ)} {found : Option ℕ}
    (hb : s.arrays.block s.list.keybindings = some l)
    (h : KeyArray.findFrom s.memory.heap mode modifiers key n (l.drop i) = .ok found) :
    s.findFrom mode modifiers key n i = .ok (found.map (· + i)) := by
  induction n generalizing i found with
  | zero =>
    rw [← Except.ok.inj h]
    rfl
  | succ n ih =>
    rw [KeyArray.findFrom, List.head?_drop, List.tail_drop] at h
    obtain ⟨it, hit, h⟩ := Exec.bind_eq_ok.mp h
    obtain ⟨kb, hkb, h⟩ := Exec.bind_eq_ok.mp h
    rw [findFrom, entry_of_block hb (Exec.nonNull_eq_ok.mp hit)]
    show (object (Exec.nonNull (s.memory.heap it)) >>= fun kb => _) = _
    rw [hkb]
    show (if _ then _ else _) = _
    by_cases hc : modifiers = kb.modifiers ∧ mode = kb.mode ∧ key = kb.key
    · rw [if_pos hc] at h ⊢
      rw [← Except.ok.inj h]
      simp
    · rw [if_neg hc] at h ⊢
      obtain ⟨found', hfound', h⟩ := Exec.bind_eq_ok.mp h
      -- the array is counted from the entry looked at, the list from its start
      rw [ih hfound', ← Except.ok.inj h, Option.map_map]
      congr 2
      funext j
      show j + (i + 1) = j + 1 + i
      omega

theorem findKeybinding_view {found : Option ℕ} (h : s.ListValid)
    (hfind : s.view.findKeybinding s.memory.heap mode modifiers key = .ok found) :
    s.findKeybinding mode modifiers key = .ok found := by
  obtain ⟨its, rest, hb, -, -⟩ := h.block
  rw [view_of_block hb, KeyArray.findKeybinding] at hfind
  rw [findKeybinding, findFrom_view hb hfind]
  simp

/-- A list that grows is the array that grows. -/
theorem keybindingResize_view (h : s.ListValid) (hres : s.keybindingResize g = .ok (t, 0)) :
    t.view = s.view.keybindingResize ∧ t.memory = s.memory := by
  obtain ⟨its, rest, hb, -, -⟩ := h.block
  rw [keybindingResize] at hres
  rw [KeyArray.keybindingResize]
  have hfields : s.view.length = s.list.length ∧ s.view.capacity = s.list.capacity := ⟨rfl, rfl⟩
  rw [hfields.1, hfields.2]
  by_cases hfull : s.list.length = s.list.capacity
  · rw [if_pos hfull] at hres ⊢
    have hview : s.view.keybindings = its.map some ++ rest := by
      rw [view, hb]
      rfl
    by_cases hzero : (s.list.capacity * 2).toNat = 0
    · simp only [hzero] at hres
      rw [realloc_zero hb] at hres
      cases hres
    · by_cases hg : g = .refused
      · rw [hg] at hres
        simp only at hres
        rw [realloc_refused hb (by omega)] at hres
        cases hres
      · obtain ⟨arrays, q, hre, hq⟩ :=
          realloc_granted hb h.fresh (n := (s.list.capacity * 2).toNat) (by omega) hg
        simp only [hre] at hres
        cases hres
        refine ⟨?_, rfl⟩
        rw [hview, view, hq.block]
        rfl
  · rw [if_neg hfull] at hres ⊢
    cases hres
    exact ⟨rfl, rfl⟩

/-- **A push that is granted its memory** does what a push to an array does. -/
theorem keybindingListPush_view {u : Memory × KeyArray} (h : s.ListValid) (hg : s.GrowsFor g)
    (hpush : KeyArray.keybindingListPush (s.memory, s.view) k = .ok u) :
    ∃ t, s.keybindingListPush k g = .ok (t, 0) ∧ (t.memory, t.view) = u ∧ s.SameModes t := by
  obtain ⟨r, err, hres, hsame, hcase⟩ := keybindingResize_spec h g
  obtain ⟨-, rfl, hvalid, hroom⟩ | ⟨hgrow, -⟩ := hcase
  · obtain ⟨hview, hmem⟩ := keybindingResize_view h hres
    obtain ⟨its, rest, hb, hlen, hcap⟩ := hvalid.block
    have hin : ∀ j, j ≤ its.length → j < (its.map some ++ rest).length := by
      intro j hj
      simp
      omega
    rw [KeyArray.keybindingListPush, ← hview, ← hmem] at hpush
    obtain ⟨kb, hkb, hpush⟩ := Exec.bind_eq_ok.mp hpush
    obtain ⟨found, hfind, hpush⟩ := Exec.bind_eq_ok.mp hpush
    -- the search comes after the resize, and finds the same entry
    have hsearch := findKeybinding_view hvalid hfind
    rw [keybindingListPush, hres]
    show ∃ t, (r.insertKeybinding k >>= fun s => .ok (s, (0 : ℤ))) = _ ∧ _
    rw [insertKeybinding, hkb]
    show ∃ t, ((r.findKeybinding kb.mode kb.modifiers kb.key >>= fun found => _) >>= _) = _ ∧ _
    rw [hsearch]
    rw [view_of_block hb] at hfind hpush
    cases found with
    | some i =>
      obtain ⟨old, hold, hpush⟩ := Exec.bind_eq_ok.mp hpush
      obtain ⟨heap, hheap, hpush⟩ := Exec.bind_eq_ok.mp hpush
      -- the old keybinding is freed, and the new one takes its entry
      have hi : i < r.list.length.toNat := KeyArray.lt_of_findFrom hfind
      show ∃ t, ((r.entry i >>= fun found => _) >>= _) = _ ∧ _
      rw [entry_of_block hb (Exec.nonNull_eq_ok.mp hold)]
      show ∃ t, ((object (keybindingFree r.memory.next r.memory.heap old true) >>= _) >>= _) = _ ∧ _
      rw [hheap]
      show ∃ t, ((access (r.arrays.write r.list.keybindings i (some k)) >>= _) >>= _) = _ ∧ _
      rw [write_eq hb (hin i (by omega))]
      refine ⟨_, rfl, ?_, hsame.names, hsame.modes, hsame.modecursors⟩
      rw [← Except.ok.inj hpush, view_of_block put_block_self]
    | none =>
      -- the entry after the last one is within the block, since the list has grown
      obtain ⟨-, -, hpush⟩ := Exec.bind_eq_ok.mp hpush
      show ∃ t, ((access (r.arrays.write r.list.keybindings r.list.length.toNat (some k)) >>= _)
        >>= _) = _ ∧ _
      rw [write_eq hb (hin _ (by omega))]
      refine ⟨_, rfl, ?_, hsame.names, hsame.modes, hsame.modecursors⟩
      rw [← Except.ok.inj hpush, view_of_block put_block_self]
  · exact absurd hg hgrow

/-- The tables hold what a server keeps of them. -/
structure Backs (s : Tables) (srv : KeyServer) : Prop where
  memory : s.memory = srv.memory
  list : s.view.Represents srv.list
  modes : s.names.block s.modes = some srv.modes
  modecursors : s.names.block s.modecursors = some srv.modecursors

variable {moves : ℕ → Bool} {srv srv' : KeyServer}

/-- A list that is not too long can grow. -/
theorem Backs.growsFor (hb : s.Backs srv) (hg : g ≠ .refused)
    (hlt : srv.list.keybindings.length < 2 ^ 31) : s.GrowsFor g := by
  intro hfull
  have hlen : srv.list.keybindings.length = s.list.length.toNat := hb.list.holds.length
  refine ⟨hg, fun htop => ?_⟩
  rw [hfull, htop] at hlen
  omega

theorem push_backs (h : s.ListValid) (hb : s.Backs srv) (hg : g ≠ .refused)
    (hlt : srv.list.keybindings.length < 2 ^ 31)
    (hs : KeyServer.keybindingListPush moves k srv = .ok srv') :
    ∃ t, s.keybindingListPush k g = .ok (t, 0) ∧ t.Backs srv' := by
  obtain ⟨u, hpush, hmem, hlist⟩ := keybindingListPush_array hb.list hlt hs
  rw [← hb.memory] at hpush
  obtain ⟨t, ht, hu, hsame⟩ := keybindingListPush_view h (hb.growsFor hg hlt) hpush
  rw [← hu] at hmem hlist
  -- a push leaves the modes alone
  have hmodes : srv'.modes = srv.modes ∧ srv'.modecursors = srv.modecursors := by
    obtain ⟨kb, -, ⟨-, rfl⟩ | ⟨i, found, ks, -, -, -, rfl⟩⟩ := keybindingListPush_cases hs
    · exact ⟨rfl, rfl⟩
    · exact ⟨rfl, rfl⟩
  refine ⟨t, ht, hmem, hlist, ?_, ?_⟩
  · rw [hsame.names, hsame.modes, hmodes.1]
    exact hb.modes
  · rw [hsame.names, hsame.modecursors, hmodes.2]
    exact hb.modecursors

theorem modeNames_eq {modes : List (Option Text)} (h : none ∈ modes) :
    ∃ names, modeNames modes = .ok names ∧ names.length = modes.findIdx (·.isNone) := by
  induction modes with
  | nil => exact absurd h List.not_mem_nil
  | cons mode modes ih =>
    cases mode with
    | none =>
      refine ⟨[], rfl, ?_⟩
      rw [List.findIdx_cons]
      rfl
    | some mode =>
      obtain ⟨names, hnames, hlen⟩ := ih (by simpa using h)
      refine ⟨mode :: names, ?_, ?_⟩
      · rw [modeNames, hnames, Exec.ok_bind]
      · rw [List.length_cons, hlen, List.findIdx_cons]
        rfl

theorem Backs.numModes (hb : s.Backs srv) : s.numModes = srv.modes.findIdx (·.isNone) := by
  rw [Tables.numModes, hb.modes]
  rfl

theorem definemode_backs {mode : Text} (h : s.ModesValid) (hb : s.Backs srv) (hg : g ≠ .refused)
    (hg' : g' ≠ .refused) (hfit : srv.modes.findIdx (·.isNone) + 2 < 2 ^ 31)
    (hs : KeyServer.keybindingDefinemode mode srv = .ok srv') :
    ∃ t, s.keybindingDefinemode mode g g' true = .ok (t, false) ∧ t.Backs srv' := by
  obtain ⟨modes, -, hm, -, hnull, -, -⟩ := h.cases
  rw [← hb.numModes] at hfit
  obtain ⟨t, ht, -, hsame, htm, htc⟩ := reallocModes_granted mode true h hfit hg hg'
  have hmodes : srv.modes = modes := Option.some.inj (hb.modes.symm.trans hm)
  -- both loops stop at the first `NULL`
  obtain ⟨names, hnames, hlen⟩ := modeNames_eq hnull
  rw [KeyServer.keybindingDefinemode, hmodes, hnames, Exec.ok_bind, hlen, ← hmodes,
    ← hb.numModes] at hs
  rw [definemode_eq h, if_pos (by omega)]
  have hview : t.view = s.view := by rw [view, view, hsame.list, hsame.arrays]
  cases hs
  refine ⟨t, ht, hsame.memory.trans hb.memory, hview ▸ hb.list, ?_, ?_⟩
  · rw [htm _ hb.modes]
    rfl
  · rw [htc _ hb.modecursors]
    rfl

/-- The operation on a server that always finds memory. -/
def serve (moves : ℕ → Bool) (srv : KeyServer) : TableEvent → Exec KeyServer
  | .parse kb => .ok { srv with memory := srv.memory.alloc kb }
  | .push keybinding _ => KeyServer.keybindingListPush moves keybinding srv
  | .lookup mode modifiers key => do
    let _ ← KeyServer.findKeybinding srv.memory.heap mode modifiers key srv.list.keybindings
    .ok srv
  | .definemode mode _ _ _ => KeyServer.keybindingDefinemode mode srv

/-- The allocator gives what is asked for, and what is counted is not yet too much for
the types of the code. -/
def FindsMemory (srv : KeyServer) : TableEvent → Prop
  | .push _ g => g ≠ .refused ∧ srv.list.keybindings.length < 2 ^ 31
  | .definemode _ g g' copied => g ≠ .refused ∧ g' ≠ .refused ∧ copied = true ∧
      srv.modes.findIdx (·.isNone) + 2 < 2 ^ 31
  | _ => True

/-- Every operation of a list finds memory. -/
def Supplied (moves : ℕ → Bool) : KeyServer → List TableEvent → Prop
  | _, [] => True
  | srv, e :: l =>
    FindsMemory srv e ∧ Exec.Ensures (serve moves srv e) fun srv' => Supplied moves srv' l

/-- **One operation** that finds its memory does to the blocks what it does to the
server they are behind. -/
theorem handle_backs (h : s.Valid) (hb : s.Backs srv) (hm : FindsMemory srv e)
    (hs : serve moves srv e = .ok srv') :
    ∃ t, s.handle e = .ok (t, false) ∧ s.Grants e ∧ t.Backs srv' := by
  cases e with
  | parse kb =>
    cases hs
    refine ⟨_, rfl, trivial, ?_, hb.list, hb.modes, hb.modecursors⟩
    show s.memory.alloc kb = srv.memory.alloc kb
    rw [hb.memory]
  | push keybinding g =>
    obtain ⟨t, ht, hbt⟩ := push_backs h.list hb hm.1 hm.2 hs
    refine ⟨t, ?_, hb.growsFor hm.1 hm.2, hbt⟩
    rw [handle, ht]
    rfl
  | lookup mode modifiers key =>
    obtain ⟨found, hfind, hs⟩ := Exec.bind_eq_ok.mp hs
    cases hs
    rw [← hb.list.holds.findKeybinding, ← hb.memory] at hfind
    refine ⟨s, ?_, trivial, hb⟩
    rw [handle, findKeybinding_view h.list hfind]
    rfl
  | definemode mode g g' copied =>
    obtain ⟨hg, hg', rfl, hfit⟩ := hm
    obtain ⟨t, ht, hbt⟩ := definemode_backs h.modes hb hg hg' hfit hs
    exact ⟨t, ht, ⟨iff_of_false hg hg', hb.numModes ▸ hfit⟩, hbt⟩

/-! ### Runs -/

/-- **One operation.**  It stays in bounds, leaves valid tables, and leaves the old
ones if it fails, exactly if the allocator does not refuse in the wrong place. -/
theorem step_safe_iff (h : s.Valid) : s.Safe e ↔ s.Grants e := by
  cases e with
  | parse kb =>
    refine iff_of_true (Meets.ok ⟨⟨⟨?_, ?_, ?_⟩, h.modes.congr ⟨rfl, rfl, rfl⟩⟩, ?_⟩) trivial
    · exact h.list.fresh
    · exact h.list.capacity
    · exact h.list.block
    · intro hfail
      exact absurd hfail Bool.false_ne_true
  | push keybinding g => exact push_safe_iff h
  | lookup mode modifiers key =>
    refine iff_of_true ?_ trivial
    rw [Safe, handle]
    refine Meets.bind (findKeybinding_spec h.list) fun _ _ => Meets.ok ⟨h, fun hfail => ?_⟩
    exact absurd hfail Bool.false_ne_true
  | definemode mode g g' copied => exact definemode_safe_iff h

/-- The operation that goes wrong does not yet access memory that is not there. -/
theorem handle_in_bounds (h : s.Valid) :
    Meets (s.handle e) (fun err => err = .keybinding ∨ err = .overflow) fun _ => True := by
  by_cases hg : s.Grants e
  · exact ((step_safe_iff h).mpr hg).mono (fun _ he => .inl he) fun _ _ => trivial
  cases e with
  | parse kb => exact absurd trivial hg
  | lookup mode modifiers key => exact absurd trivial hg
  | push keybinding g =>
    obtain ⟨t, err, hres, -, hcase⟩ := keybindingResize_spec h.list g
    rw [handle, keybindingListPush, hres]
    obtain ⟨hgrow, -⟩ | ⟨-, rfl, -⟩ := hcase
    · exact absurd hgrow hg
    · exact Meets.ok trivial
  | definemode mode g g' copied =>
    rw [handle]
    by_cases hfit : s.numModes + 2 < 2 ^ 31
    · rw [definemode_eq h.modes, if_pos (by omega)]
      obtain ⟨t, ht, -⟩ := reallocModes_torn mode copied h.modes hfit
        fun hiff => hg ⟨hiff, hfit⟩
      rw [ht]
      exact Meets.ok trivial
    · rw [definemode_overflow h.modes hfit]
      exact Meets.error (.inr rfl)

theorem step_valid (h : s.Valid) (hg : s.Grants e) :
    Meets (s.step e) (fun _ => True) Valid :=
  Meets.bind (((step_safe_iff h).mpr hg).mono (fun _ _ => trivial) fun _ ht => ht.1)
    fun _ ht => Meets.ok ht

theorem initial_valid : initial.Valid := by
  refine ⟨⟨?_, ⟨0, rfl⟩, [], [none], rfl, rfl, rfl⟩,
    ⟨?_, Nat.zero_ne_one, _, _, rfl, rfl, by simp, rfl⟩⟩
  · intro p hp
    by_cases h0 : p = 0
    · rw [h0]
      exact Nat.zero_lt_one
    · have hnone : initial.arrays.block p = none := if_neg h0
      rw [hnone] at hp
      cases hp
  · intro p hp
    show p < 2
    by_contra hge
    have hnone : initial.names.block p = none := by
      rw [initial]
      simp only
      rw [if_neg (by omega), if_neg (by omega)]
    rw [hnone] at hp
    cases hp

/-- **Growing tables.**  An operation on valid tables is atomic exactly if a full
list is granted its doubled capacity, and the two reallocations of `definemode`
are granted or refused together.  In every run of such operations the tables stay
valid, and no later operation leaves its arrays. -/
theorem growths_safe (s : Tables) (h : s.Valid) :
    (∀ e : TableEvent, s.Safe e ↔ s.Grants e) ∧
    ∀ t : Tables, Runs step Grants s t →
      t.Valid ∧ ∀ e err, t.handle e = .error err → err = .keybinding ∨ err = .overflow := by
  constructor
  · intro e
    exact step_safe_iff h
  · intro t hrun
    have ht : t.Valid := hrun.invariant (E := fun _ => True) h fun u e hu hg => step_valid hu hg
    exact ⟨ht, fun e err herr => (handle_in_bounds ht).of_error herr⟩

/-- A keybinding for a key. -/
def keyFor (key : UInt32) : Keybinding := ⟨0, 0, key, .quit, .params (.u 0)⟩

/-- The first keybinding fills the array, and the second one finds memory for more. -/
theorem growths_safe_second : ∃ s, Runs step Grants initial s ∧ s.Valid ∧ s.list.length = 2 := by
  have hret : returns (initial.step (.parse (keyFor 0))) (fun s =>
      returns (s.step (.parse (keyFor 1))) fun s =>
        decide (s.Grants (.push 0 .refused)) && returns (s.step (.push 0 .refused)) fun s =>
          decide (s.Grants (.push 1 .moved)) && returns (s.step (.push 1 .moved)) fun s =>
            decide (s.list.length = 2)) = true := by
    decide
  obtain ⟨s₁, hs₁, h₁⟩ := exists_of_returns hret
  obtain ⟨s₂, hs₂, h₂⟩ := exists_of_returns h₁
  rw [Bool.and_eq_true, decide_eq_true_eq] at h₂
  obtain ⟨s₃, hs₃, h₃⟩ := exists_of_returns h₂.2
  rw [Bool.and_eq_true, decide_eq_true_eq] at h₃
  obtain ⟨s, hs, hlen⟩ := exists_of_returns h₃.2
  have hrun : Runs step Grants initial s :=
    (((Runs.tail .refl trivial hs₁).tail trivial hs₂).tail h₂.1 hs₃).tail h₃.1 hs
  exact ⟨s, hrun, ((growths_safe initial initial_valid).2 s hrun).1, of_decide_eq_true hlen⟩

/-- Keybindings for three keys, the first of which is in the list. -/
def threeKeys : List TableEvent :=
  [.parse (keyFor 0), .parse (keyFor 1), .parse (keyFor 2), .push 0 .kept]

/-- A push that finds no memory doubles the capacity, so that the next one writes
outside of the array.  When `definemode` is refused memory for the cursors of the
modes, it frees the modes, which the next `definemode` reads. -/
theorem growths_safe_refused :
    ∃ s t u : Tables, Runs step (fun _ _ => True) initial s ∧
      s.handle (.push 1 .refused) = .ok (t, true) ∧ t.list.capacity ≠ s.list.capacity ∧
      t.handle (.push 2 .kept) = .error (.block .outside) ∧
      initial.handle (.definemode (ascii "m") .moved .refused true) = .ok (u, true) ∧
      u.names.block u.modes = none ∧
      u.handle (.definemode (ascii "m") .moved .moved true) = .error (.block .freed) := by
  have hpush : returns (threeKeys.foldlM step initial) (fun s =>
      returns (s.handle (.push 1 .refused)) fun t => t.2 &&
        decide (t.1.list.capacity ≠ s.list.capacity) &&
          fails (t.1.handle (.push 2 .kept)) (.block .outside)) = true := by decide
  have hmode : returns (initial.handle (.definemode (ascii "m") .moved .refused true))
      (fun u => u.2 && (u.1.names.block u.1.modes).isNone && fails
        (u.1.handle (.definemode (ascii "m") .moved .moved true)) (.block .freed)) = true := by
    decide
  obtain ⟨s, hs, htest⟩ := exists_of_returns hpush
  obtain ⟨t, ht, htest⟩ := exists_of_returns htest
  obtain ⟨u, hu, hlost⟩ := exists_of_returns hmode
  simp only [Bool.and_eq_true, decide_eq_true_eq, Option.isNone_iff_eq_none] at htest hlost
  refine ⟨s, t.1, u.1, Runs.of_foldlM hs, ?_, htest.1.2, eq_error_of_fails htest.2, ?_, hlost.1.2,
    eq_error_of_fails hlost.2⟩
  · rw [ht, ← htest.1.1]
  · rw [hu, ← hlost.1.1]

/-! ### Runs of a server -/

/-- **Tables behind a server.**  Whatever a server does that always finds memory, the
tables do as well, in blocks of the sizes that are asked for; afterwards they hold what
the server keeps of them. -/
theorem tables_back_server {l : List TableEvent} (h : s.Valid) (hb : s.Backs srv)
    (hl : Supplied moves srv l) (hrun : l.foldlM (serve moves) srv = .ok srv') :
    ∃ t, l.foldlM step s = .ok t ∧ t.Valid ∧ t.Backs srv' := by
  induction l generalizing s srv with
  | nil =>
    cases hrun
    exact ⟨s, rfl, h, hb⟩
  | cons e l ih =>
    obtain ⟨srv₁, hs, hrun⟩ := Exec.bind_eq_ok.mp hrun
    obtain ⟨t₁, ht₁, hg, hb₁⟩ := handle_backs h hb hl.1 hs
    have hvalid : t₁.Valid := (((step_safe_iff h).mpr hg).of_ok ht₁).1
    obtain ⟨t, ht, hback⟩ := ih hvalid hb₁ (hl.2 srv₁ hs) hrun
    refine ⟨t, ?_, hback⟩
    rw [List.foldlM_cons, step, ht₁]
    exact ht

/-- Two keybindings and a mode. -/
def suppliedEvents : List TableEvent :=
  [.parse (keyFor 0), .push 0 .kept, .parse (keyFor 1), .push 1 .moved,
    .definemode (ascii "m") .moved .kept true, .lookup 0 0 1]

theorem initial_backs : initial.Backs (KeyServer.initial true) :=
  ⟨rfl, ⟨KeyArray.keybindingListInit_holds, KeyArray.keybindingListInit_allocated, rfl⟩, rfl, rfl⟩

theorem tables_back_server_two : ∃ t srv, suppliedEvents.foldlM step initial = .ok t ∧
    t.Backs srv ∧ srv.list.keybindings = [0, 1] ∧ srv.modes.length = 5 := by
  obtain ⟨srv, hrun, htest⟩ := exists_of_returns
    (p := fun srv : KeyServer => decide (srv.list.keybindings = [0, 1]) &&
      decide (srv.modes.length = 5))
    (m := suppliedEvents.foldlM (serve fun _ => true) (KeyServer.initial true)) (by decide)
  simp only [Bool.and_eq_true, decide_eq_true_eq] at htest
  have hl : Supplied (fun _ => true) (KeyServer.initial true) suppliedEvents := by
    refine ⟨trivial, ?_⟩
    rintro _ ⟨⟩
    refine ⟨⟨by decide, by decide⟩, ?_⟩
    rintro _ ⟨⟩
    refine ⟨trivial, ?_⟩
    rintro _ ⟨⟩
    refine ⟨⟨by decide, by decide⟩, ?_⟩
    rintro _ ⟨⟩
    refine ⟨⟨by decide, by decide, rfl, by decide⟩, ?_⟩
    rintro _ ⟨⟩
    exact ⟨trivial, fun _ _ => trivial⟩
  obtain ⟨t, ht, -, hback⟩ := tables_back_server initial_valid initial_backs hl hrun
  exact ⟨t, srv, ht, hback, htest⟩

end Tables

end Cagebreak
