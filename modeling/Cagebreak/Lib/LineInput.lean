/-
Lines of a file, read into a buffer by `fgets`.

`fileLines` cuts a file into the lines that a separator ends, and a last one that
nothing ends unless it is empty.  `fgets` reads a line, or as much of it as there
is room for; `readUpTo` is what it reads.

* `readUpTo_short`, `readUpTo_long` — there is room for the line, or there is not;
* `Filled` — the buffer holds a string;
* `Filled.fgets` — what is read is appended to the string.
-/
import Cagebreak.Lib.Buffer
import Mathlib.Data.Int.Notation

open Exec

/-! ### Lines -/

section Lines

variable {α : Type*} {sep : α} {l s t : List α} {n : ℕ}

/-- What is left of a file after a line begins with a separator. -/
def EndsLine (sep : α) (t : List α) : Prop := ∀ c ∈ t.head?, c = sep

theorem EndsLine.cases (h : EndsLine sep t) : t = [] ∨ t = sep :: t.drop 1 := by
  cases t with
  | nil => exact .inl rfl
  | cons c t =>
    obtain rfl := h c rfl
    exact .inr rfl

variable [DecidableEq α]

/-- The lines of a file. -/
def fileLines (sep : α) (s : List α) : List (List α) :=
  (pieces sep s).1 ++ if (pieces sep s).2 = [] then [] else [(pieces sep s).2]

/-- A file that is not empty has a first line. -/
theorem exists_line (s : List α) : ∃ l t, s = l ++ t ∧ sep ∉ l ∧ EndsLine sep t := by
  by_cases h : sep ∈ s
  · obtain ⟨l, t, rfl, hl⟩ := List.eq_append_cons_of_mem h
    refine ⟨l, sep :: t, rfl, hl, fun c hc => ?_⟩
    exact (Option.some.inj hc).symm
  · refine ⟨s, [], (List.append_nil s).symm, h, fun c hc => ?_⟩
    cases hc

theorem fileLines_append (hl : sep ∉ l) (ht : EndsLine sep t) (hne : l ++ t ≠ []) :
    fileLines sep (l ++ t) = l :: fileLines sep (t.drop 1) := by
  obtain rfl | ht := ht.cases
  · rw [List.append_nil] at hne ⊢
    rw [fileLines, pieces_of_notMem hl, if_neg hne]
    rfl
  · rw [ht, fileLines, pieces_append_cons hl]
    rfl

/-- The first `n` bytes of a file, but no more than its first line and what ends
it. -/
def readUpTo (sep : α) : ℕ → List α → List α
  | 0, _ => []
  | _ + 1, [] => []
  | n + 1, c :: s => if c = sep then [c] else c :: readUpTo sep n s

/-- There is room for the line and what ends it. -/
theorem readUpTo_short (hl : sep ∉ l) (ht : EndsLine sep t) (hn : l.length < n) :
    readUpTo sep n (l ++ t) = l ++ t.take 1 := by
  induction l generalizing n with
  | nil =>
    obtain ⟨n, rfl⟩ : ∃ m, n = m + 1 := ⟨n - 1, by simp at hn; omega⟩
    obtain rfl | ht := ht.cases
    · rfl
    · rw [ht, List.nil_append, readUpTo, if_pos rfl]
      rfl
  | cons c l ih =>
    obtain ⟨n, rfl⟩ : ∃ m, n = m + 1 := ⟨n - 1, by simp at hn; omega⟩
    rw [List.mem_cons, not_or] at hl
    rw [List.cons_append, readUpTo, if_neg (Ne.symm hl.1), ih hl.2 (by simpa using hn)]
    rfl

/-- There is not. -/
theorem readUpTo_long (hl : sep ∉ l) (hn : n ≤ l.length) :
    readUpTo sep n (l ++ t) = l.take n := by
  induction l generalizing n with
  | nil =>
    obtain rfl : n = 0 := by simpa using hn
    rfl
  | cons c l ih =>
    cases n with
    | zero => rfl
    | succ n =>
      rw [List.mem_cons, not_or] at hl
      rw [List.cons_append, readUpTo, if_neg (Ne.symm hl.1), ih hl.2 (by simpa using hn)]
      rfl

end Lines

/-! ### Reading -/

namespace Buffer

variable {b b' : Buffer} {s l t file : List UInt8} {sep : UInt8} {cap n : ℕ} {size : ℤ}

/-- `strlen` of the string at the start of a block of `cap` bytes. -/
def strlen (b : Buffer) (cap : ℕ) : Exec ℕ := do
  let s ← b.cString cap 0
  .ok s.length

/-- `strcspn`, for one separator. -/
def strcspn (b : Buffer) (sep : UInt8) (cap : ℕ) : Exec ℕ := do
  let s ← b.cString cap 0
  .ok (s.takeWhile (· ≠ sep)).length

/-- `fgets(b + off, size, file)` in a block of `cap` bytes: the block and what is
left of the file.  Nothing is written when the file has ended, or for a size that
is not positive. -/
def fgets (b : Buffer) (cap off : ℕ) (size : ℤ) (sep : UInt8) (file : List UInt8) :
    Exec (Option (Buffer × List UInt8)) :=
  if size ≤ 0 then .ok none
  else
    let read := readUpTo sep (size.toNat - 1) file
    if read = [] ∧ size ≠ 1 then .ok none
    else do
      deref (decide (off + read.length < cap))
      .ok (some (b.blit off (read ++ [0]), file.drop read.length))

/-- The block holds the string `s`. -/
structure Filled (b : Buffer) (cap : ℕ) (s : List UInt8) : Prop where
  slice : b.slice 0 s.length = s
  ended : b s.length = 0
  noNul : 0 ∉ s
  lt : s.length < cap

theorem Filled.cString (h : b.Filled cap s) : b.cString cap 0 = .ok s :=
  cString_slice h.slice (by rw [Nat.zero_add]; exact h.ended) h.noNul h.lt

theorem Filled.strlen (h : b.Filled cap s) : b.strlen cap = .ok s.length := by
  rw [Buffer.strlen, h.cString, ok_bind]

theorem Filled.strcspn (h : b.Filled cap s) :
    b.strcspn sep cap = .ok (s.takeWhile (· ≠ sep)).length := by
  rw [Buffer.strcspn, h.cString, ok_bind]

/-- The string with the byte that ends it. -/
theorem Filled.whole (h : b.Filled cap s) : b.slice 0 (s.length + 1) = s ++ [0] := by
  rw [slice_add, h.slice, Nat.zero_add]
  exact congrArg (s ++ [·]) h.ended

theorem filled_of_whole (hs : b.slice 0 (s.length + 1) = s ++ [0]) (h0 : 0 ∉ s)
    (hlt : s.length < cap) : b.Filled cap s := by
  rw [slice_add] at hs
  obtain ⟨hslice, hlast⟩ := List.append_inj hs (by simp)
  rw [Nat.zero_add] at hlast
  exact ⟨hslice, List.head_eq_of_cons_eq hlast, h0, hlt⟩

/-- The string survives what is done to the rest of a larger block. -/
theorem Filled.mono (h : b.Filled cap s) (hb : ∀ i < cap, b' i = b i) (hcap : cap ≤ n) :
    b'.Filled n s := by
  refine ⟨?_, ?_, h.noNul, h.lt.trans_le hcap⟩
  · have hsame : b'.slice 0 s.length = b.slice 0 s.length :=
      slice_congr fun i _ hi => hb i (by have := h.lt; omega)
    rw [hsame, h.slice]
  · rw [hb s.length h.lt]
    exact h.ended

/-- **What is read is appended to the string.** -/
theorem Filled.blit (h : b.Filled cap s) (hl : 0 ∉ l) (hlt : s.length + l.length < cap) :
    (b.blit s.length (l ++ [0])).Filled cap (s ++ l) := by
  have hwhole : (b.blit s.length (l ++ [0])).slice 0 (s.length + (l ++ [0]).length) =
      b.slice 0 s.length ++ (l ++ [0]) := slice_blit_append rfl
  refine ⟨?_, ?_, ?_, ?_⟩
  · have hpart := hwhole
    rw [List.length_append, List.length_singleton, ← Nat.add_assoc, slice_add] at hpart
    have hlen : (b.slice 0 s.length ++ l).length = (s ++ l).length := by simp
    rw [← List.append_assoc] at hpart
    have hcut := List.append_inj_left hpart (by simp)
    rw [List.length_append, hcut, h.slice]
  · show (if s.length ≤ (s ++ l).length then _ else _) = _
    rw [if_pos (by simp)]
    simp
  · rw [List.mem_append, not_or]
    exact ⟨h.noNul, hl⟩
  · rw [List.length_append]
    exact hlt

/-- The string is ended earlier. -/
theorem Filled.cut (h : b.Filled cap (s ++ t)) :
    Filled (Function.update b s.length 0) cap s := by
  obtain ⟨hslice, -, hnul, hlt⟩ := h
  rw [List.length_append] at hslice hlt
  rw [List.mem_append, not_or] at hnul
  refine ⟨?_, Function.update_self .., hnul.1, by omega⟩
  rw [slice_update_of_le (by omega)]
  rw [slice_add] at hslice
  exact List.append_inj_left hslice (by simp)

/-- A block of zeros holds the empty string. -/
theorem Filled.nil (hb : b 0 = 0) (hcap : 0 < cap) : b.Filled cap [] :=
  ⟨rfl, hb, List.not_mem_nil, hcap⟩

/-- The first byte of the string, or the one that ends it. -/
theorem Filled.head (h : b.Filled cap s) : b 0 = s.head?.getD 0 := by
  cases s with
  | nil => exact h.ended
  | cons c s =>
    have hslice := h.slice
    rw [List.length_cons, slice_succ] at hslice
    exact (List.cons.inj hslice).1

end Buffer
