/-
Formatted output into memory.

`snprintf` writes a text into a block, as far as the size that is passed to it
allows, and returns the number of its bytes, as an `int`.  `sprintf` is how a
program gets a text into a block of its own: it asks for the number, allocates
and prints again.  `strcat` appends a string to another one.

* `sprintf_short`, `sprintf_long` — a text is printed whole if the `int` counts it
  and the byte that ends it, and otherwise there is no string;
* `Holds.strcat` — a string is appended where there is room for it.
-/
import Cagebreak.Lib.LineInput
import Cagebreak.Lib.Text

open Exec Buffer

/-- An allocator that does not run out of memory.  What it does when it is asked
for no bytes, and what is in a new block, are left open. -/
structure Malloc where
  malloc : ℕ → Option Buffer
  granted : ∀ n, 0 < n → malloc n ≠ none

/-- A block of memory. -/
structure Block where
  bytes : Buffer
  size : ℕ

namespace Block

variable {p : Block} {s t u : Text} {off n : ℕ}

/-- The string at the beginning of the block. -/
def string (p : Block) : Exec Text := p.bytes.cString p.size 0

/-- The block holds the string `s`. -/
def Holds (p : Block) (s : Text) : Prop := p.bytes.Filled p.size s

theorem Holds.string (h : p.Holds s) : p.string = .ok s := h.cString

theorem Holds.unique (h : p.Holds s) (h' : p.Holds t) : s = t :=
  Except.ok.inj (h.string.symm.trans h'.string)

theorem string_of_size (h : p.size = 0) : p.string = .error .undefined := by
  rw [Block.string, h, cString]

/-- A string has no byte that ends it. -/
theorem noNul_of_string (h : p.string = .ok s) : 0 ∉ s := by
  have hall : ∀ (n i : ℕ) (s : Text), p.bytes.cString n i = .ok s → 0 ∉ s := by
    intro n
    induction n with
    | zero =>
      intro i s hs
      cases hs
    | succ n ih =>
      intro i s hs
      rw [cString] at hs
      by_cases hi : p.bytes i = 0
      · rw [if_pos hi] at hs
        obtain rfl := Except.ok.inj hs
        exact List.not_mem_nil
      · rw [if_neg hi] at hs
        obtain ⟨t, ht, hst⟩ := bind_eq_ok.mp hs
        obtain rfl := Except.ok.inj hst
        rw [List.mem_cons, not_or]
        exact ⟨Ne.symm hi, ih (i + 1) t ht⟩
  exact hall p.size 0 s h

/-- `strdup(s)`. -/
def strdup (s : Text) : Block := ⟨Buffer.blit (fun _ => 0) 0 (s ++ [0]), s.length + 1⟩

theorem strdup_holds (h0 : 0 ∉ s) : (strdup s).Holds s := by
  have hslice : (Buffer.blit (fun _ => 0) 0 (s ++ [0])).slice 0 (s ++ [0]).length = s ++ [0] :=
    slice_blit
  rw [List.length_append] at hslice
  exact filled_of_whole hslice h0 (Nat.lt_succ_self s.length)

/-- `strcat(p + off, s)`: the string from offset `off` on is continued. -/
def strcat (p : Block) (off : ℕ) (s : Text) : Exec Block := do
  let t ← p.bytes.cString (p.size - off) off
  deref (decide (off + t.length + s.length < p.size))
  .ok { p with bytes := p.bytes.blit (off + t.length) (s ++ [0]) }

/-- At the end of a string nothing precedes what is appended. -/
theorem Holds.cString_end (h : p.Holds s) :
    p.bytes.cString (p.size - s.length) s.length = .ok [] := by
  have hlt : s.length < p.size := h.lt
  obtain ⟨n, hn⟩ : ∃ n, p.size - s.length = n + 1 := ⟨p.size - s.length - 1, by omega⟩
  rw [hn, cString, if_pos h.ended]

/-- **A string is appended** where there is room for it. -/
theorem Holds.strcat (h : p.Holds s) (ht : 0 ∉ t) (hlt : s.length + t.length < p.size) :
    ∃ q, p.strcat s.length t = .ok q ∧ q.Holds (s ++ t) ∧ q.size = p.size := by
  refine ⟨{ p with bytes := p.bytes.blit s.length (t ++ [0]) }, ?_, h.blit ht hlt, rfl⟩
  rw [Block.strcat, h.cString_end, ok_bind, List.length_nil, Nat.add_zero, decide_eq_true hlt]
  rfl

/-- Nothing else is appended. -/
theorem Holds.strcat_full (h : p.Holds s) (hle : p.size ≤ s.length + t.length) :
    p.strcat s.length t = .error .undefined := by
  rw [Block.strcat, h.cString_end, ok_bind, List.length_nil, Nat.add_zero,
    decide_eq_false (by omega)]
  rfl

end Block

namespace Malloc

/-- Memory that is full of ones. -/
def ones : Malloc where
  malloc _ := some fun _ => 255
  granted _ _ := Option.some_ne_none _

variable {m : Malloc} {s : Text} {n : ℕ} {p : Block}

/-- `malloc(n)`, or `NULL`. -/
def block (m : Malloc) (n : ℕ) : Option Block := (m.malloc n).map fun bytes => ⟨bytes, n⟩

/-- `calloc(n, 1)`, or `NULL`. -/
def calloc (m : Malloc) (n : ℕ) : Option Block := (m.malloc n).map fun _ => ⟨fun _ => 0, n⟩

/-- The number that `snprintf` returns: it is negative if an `int` has no room. -/
def counted (s : Text) : ℤ := if s.length < 2 ^ 31 then s.length else -1

/-- What `snprintf(p, size, ..)` writes. -/
def snprintf (p : Block) (size : ℕ) (s : Text) : Exec Block :=
  if size = 0 then .ok p
  else do
    let written := s.take (size - 1) ++ [0]
    deref (decide (written.length ≤ p.size))
    .ok { p with bytes := p.bytes.blit 0 written }

/-- `len = snprintf(NULL, 0, ..) + 1`, `malloc(len)` and `snprintf(.., len, ..)`, or
`NULL`. -/
def sprintf (m : Malloc) (s : Text) : Exec (Option Block) := do
  let len := counted s + 1
  deref (decide (len < 2 ^ 31))
  ifSome (m.block len.toNat) none fun p => do
    let p ← snprintf p len.toNat s
    .ok (some p)

theorem exists_block (m : Malloc) (hn : 0 < n) : ∃ p, m.block n = some p ∧ p.size = n := by
  obtain ⟨bytes, hbytes⟩ := Option.ne_none_iff_exists'.mp (m.granted n hn)
  exact ⟨⟨bytes, n⟩, by rw [block, hbytes, Option.map_some], rfl⟩

theorem calloc_of_pos (m : Malloc) (hn : 0 < n) : m.calloc n = some ⟨fun _ => 0, n⟩ := by
  obtain ⟨bytes, hbytes⟩ := Option.ne_none_iff_exists'.mp (m.granted n hn)
  rw [calloc, hbytes, Option.map_some]

theorem eq_of_calloc (h : m.calloc n = some p) : p = ⟨fun _ => 0, n⟩ := by
  rw [calloc, Option.map_eq_some_iff] at h
  obtain ⟨_, -, rfl⟩ := h
  rfl

/-- A text is written whole if the size allows it. -/
theorem snprintf_of_lt (h0 : 0 ∉ s) (hs : s.length < n) (hp : p.size = n) :
    ∃ q, snprintf p n s = .ok q ∧ q.Holds s := by
  have hslice : (p.bytes.blit 0 (s ++ [0])).slice 0 (s ++ [0]).length = s ++ [0] := slice_blit
  rw [List.length_append] at hslice
  refine ⟨{ p with bytes := p.bytes.blit 0 (s ++ [0]) }, ?_, filled_of_whole hslice h0 (hp ▸ hs)⟩
  have hroom : (s ++ [0]).length ≤ p.size := by
    rw [List.length_append, List.length_singleton, hp]
    exact hs
  rw [snprintf, if_neg (by omega), List.take_of_length_le (by omega)]
  show deref (decide ((s ++ [0]).length ≤ p.size)) >>= _ = _
  rw [decide_eq_true hroom]
  rfl

/-- **A text that the `int` counts** is printed whole. -/
theorem sprintf_short (m : Malloc) (h0 : 0 ∉ s) (hs : s.length + 1 < 2 ^ 31) :
    ∃ p, m.sprintf s = .ok (some p) ∧ p.Holds s := by
  have hlen : counted s + 1 = (s.length + 1 : ℕ) := by
    rw [counted, if_pos (by omega)]
    omega
  have hfits : ((s.length + 1 : ℕ) : ℤ) < 2 ^ 31 := by omega
  obtain ⟨p, hp, hsize⟩ := m.exists_block (Nat.succ_pos s.length)
  obtain ⟨q, hq, hholds⟩ := snprintf_of_lt h0 (Nat.lt_succ_self s.length) hsize
  refine ⟨q, ?_, hholds⟩
  rw [sprintf, hlen]
  show deref (decide (((s.length + 1 : ℕ) : ℤ) < 2 ^ 31)) >>= _ = _
  rw [decide_eq_true hfits]
  show ifSome (m.block (s.length + 1)) none _ = _
  rw [hp, ifSome_some]
  show snprintf p (s.length + 1) s >>= _ = _
  rw [hq]
  rfl

/-- Of a longer one there is no string. -/
theorem sprintf_long (m : Malloc) (hs : 2 ^ 31 ≤ s.length + 1) (hp : m.sprintf s = .ok (some p)) :
    p.size = 0 := by
  rw [sprintf] at hp
  obtain ⟨⟨⟩, hfits, hp⟩ := bind_eq_ok.mp hp
  have hlt : counted s + 1 < 2 ^ 31 := of_decide_eq_true (deref_eq_ok.mp hfits)
  have hlen : counted s + 1 = 0 := by
    rw [counted] at hlt ⊢
    by_cases htop : s.length < 2 ^ 31
    · -- the byte that ends it is one too many
      rw [if_pos htop] at hlt
      omega
    · rw [if_neg htop]
      rfl
  rw [hlen] at hp
  cases hblock : m.block 0 with
  | none =>
    change ifSome (m.block 0) none _ = _ at hp
    rw [hblock, ifSome_none] at hp
    cases hp
  | some q =>
    change ifSome (m.block 0) none _ = _ at hp
    rw [hblock, ifSome_some] at hp
    obtain ⟨q', hq', hsome⟩ := bind_eq_ok.mp hp
    obtain rfl := Option.some.inj (Except.ok.inj hsome)
    change snprintf q 0 s = _ at hq'
    rw [snprintf, if_pos rfl] at hq'
    obtain rfl := Except.ok.inj hq'
    rw [block, Option.map_eq_some_iff] at hblock
    obtain ⟨_, -, rfl⟩ := hblock
    rfl

end Malloc
