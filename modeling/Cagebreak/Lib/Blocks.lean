/-
Arrays on a heap whose allocator may refuse.

A block is the array at an address; an entry that was not written to stands as
`none`.  A block is read and written within its length, and not after it has
been freed.  When it is reallocated, the allocator refuses, changes the size in
place or moves the array (`Grant`).

`realloc_granted` says what a granted reallocation keeps: the entries that fit,
and every other block.
-/
import Cagebreak.Lib.Outcome
import Mathlib.Logic.Function.Basic

namespace Blocks

open Outcome

/-- Why an access fails. -/
inductive BlockFault
  /-- there is no block at the address -/
  | freed
  /-- the index is not below the length -/
  | outside
  deriving DecidableEq, Repr

/-- The answer of the allocator to a reallocation. -/
inductive Grant
  | refused
  | kept
  | moved
  deriving DecidableEq, Repr

end Blocks

/-- The blocks on the heap, and an address from which on there are none. -/
structure Blocks (α : Type) where
  block : ℕ → Option (List (Option α))
  next : ℕ

namespace Blocks

open Outcome

variable {α : Type} {m : Blocks α} {p q i n : ℕ} {l : List (Option α)} {v : Option α} {g : Grant}

/-- The heap with another block, or with none, at `p`. -/
def put (m : Blocks α) (p : ℕ) (b : Option (List (Option α))) : Blocks α :=
  { m with block := Function.update m.block p b }

/-- `p[i]`. -/
def read (m : Blocks α) (p i : ℕ) : Except BlockFault (Option α) :=
  match m.block p with
  | none => .error .freed
  | some l => if i < l.length then .ok l[i]?.join else .error .outside

/-- `p[i] = v`. -/
def write (m : Blocks α) (p i : ℕ) (v : Option α) : Except BlockFault (Blocks α) :=
  match m.block p with
  | none => .error .freed
  | some l =>
    if i < l.length then .ok (m.put p (some (l.set i v))) else .error .outside

/-- `free(p)`. -/
def free (m : Blocks α) (p : ℕ) : Except BlockFault (Blocks α) :=
  match m.block p with
  | none => .error .freed
  | some _ => .ok (m.put p none)

/-- An array of `n` entries that begins like another one. -/
def resized (l : List (Option α)) (n : ℕ) : List (Option α) :=
  l.take n ++ List.replicate (n - l.length) none

/-- `realloc(p, n)`: the heap, and the new address or `NULL`.  A block of no
entries is freed. -/
def realloc (m : Blocks α) (p n : ℕ) (g : Grant) : Except BlockFault (Blocks α × Option ℕ) :=
  match m.block p with
  | none => .error .freed
  | some l =>
    if n = 0 then .ok (m.put p none, none)
    else match g with
      | .refused => .ok (m, none)
      | .kept => .ok (m.put p (some (resized l n)), some p)
      | .moved =>
        .ok ({ (m.put p none).put m.next (some (resized l n)) with next := m.next + 1 },
          some m.next)

/-- No block is at an address that will be given out. -/
def Fresh (m : Blocks α) : Prop := ∀ p, (m.block p).isSome → p < m.next

@[simp] theorem put_block_self {b : Option (List (Option α))} : (m.put p b).block p = b :=
  Function.update_self ..

theorem put_block_of_ne {b : Option (List (Option α))} (h : q ≠ p) :
    (m.put p b).block q = m.block q :=
  Function.update_of_ne h ..

theorem read_eq (h : m.block p = some l) (hi : i < l.length) : m.read p i = .ok l[i]?.join := by
  rw [read, h]
  exact if_pos hi

theorem write_eq (h : m.block p = some l) (hi : i < l.length) :
    m.write p i v = .ok (m.put p (some (l.set i v))) := by
  rw [write, h]
  exact if_pos hi

theorem free_eq (h : m.block p = some l) : m.free p = .ok (m.put p none) := by
  rw [free, h]

@[simp] theorem length_resized : (resized l n).length = n := by
  rw [resized, List.length_append, List.length_take, List.length_replicate]
  omega

/-- A longer array begins with all old entries. -/
theorem resized_of_le (h : l.length ≤ n) :
    resized l n = l ++ List.replicate (n - l.length) none := by
  rw [resized, List.take_of_length_le h]

theorem Fresh.lt (h : m.Fresh) (hp : m.block p = some l) : p < m.next :=
  h p (by rw [hp]; rfl)

theorem Fresh.put (h : m.Fresh) (hp : p < m.next) (b : Option (List (Option α))) :
    (m.put p b).Fresh := by
  intro q hq
  by_cases hqp : q = p
  · rw [hqp]
    exact hp
  · rw [put_block_of_ne hqp] at hq
    exact h q hq

theorem realloc_refused (h : m.block p = some l) (hn : 0 < n) :
    m.realloc p n .refused = .ok (m, none) := by
  rw [realloc, h]
  exact if_neg (by omega)

theorem realloc_zero (h : m.block p = some l) :
    m.realloc p 0 g = .ok (m.put p none, none) := by
  rw [realloc, h]
  exact if_pos rfl

/-- What a granted reallocation of the block at `p` to one at `q` has done. -/
structure Regrown (m : Blocks α) (p n : ℕ) (l : List (Option α)) (m' : Blocks α) (q : ℕ) :
    Prop where
  block : m'.block q = some (resized l n)
  fresh : m'.Fresh
  /-- every other block is where it was, with its entries -/
  others : ∀ r, r ≠ p → (m.block r).isSome → r ≠ q ∧ m'.block r = m.block r
  gone : q ≠ p → m'.block p = none

theorem realloc_granted (h : m.block p = some l) (hf : m.Fresh) (hn : 0 < n)
    (hg : g ≠ .refused) : ∃ m' q, m.realloc p n g = .ok (m', some q) ∧ Regrown m p n l m' q := by
  have hp := hf.lt h
  rw [realloc, h]
  simp only
  rw [if_neg (by omega)]
  cases g with
  | refused => exact absurd rfl hg
  | kept =>
    refine ⟨_, _, rfl, put_block_self, hf.put hp _, fun r hr _ => ⟨hr, put_block_of_ne hr⟩,
      fun hne => absurd rfl hne⟩
  | moved =>
    refine ⟨_, _, rfl, put_block_self, fun r hr => ?_, fun r hr hlive => ?_, fun _ => ?_⟩
    · show r < m.next + 1
      by_cases hrn : r = m.next
      · omega
      · have hr' : ((m.put p none).put m.next (some (resized l n))).block r |>.isSome := hr
        rw [put_block_of_ne hrn] at hr'
        exact Nat.lt_succ_of_lt (hf.put hp none r hr')
    · have hrn : r ≠ m.next := Nat.ne_of_lt (hf r hlive)
      refine ⟨hrn, ?_⟩
      show ((m.put p none).put m.next _).block r = _
      rw [put_block_of_ne hrn, put_block_of_ne hr]
    · show ((m.put p none).put m.next _).block p = none
      rw [put_block_of_ne (Nat.ne_of_lt hp), put_block_self]

end Blocks
