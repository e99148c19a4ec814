/-
Byte buffers, C strings, and text cut into pieces.

A buffer is the memory behind a pointer, a map from offsets to bytes; `slice`
reads a part of it and `blit` writes one.

* `slice_blit`, `slice_blit_of_le`, `slice_add` — reading what has been written;
* `strchr_of_notMem`, `strchr_of_append`, `cString_slice` — the functions of the
  C library on a buffer that holds a given text;
* `doubleUntil_spec` — the loop that doubles a capacity until it suffices;
* `toNat_double` — a capacity of 32 bits is doubled;
* `pieces_append` — cutting a stream at a separator may be resumed after any
  part of the stream, with what is left of that part.
-/
import Cagebreak.Lib.Exec
import Mathlib.Data.List.Basic
import Mathlib.Logic.Function.Basic
import Mathlib.Tactic.Ring

open Exec

/-- The memory behind a pointer. -/
abbrev Buffer := ℕ → UInt8

namespace Buffer

variable {b b' : Buffer} {s : List UInt8} {c : UInt8} {i k n off : ℕ}

/-- The `n` bytes from offset `off` on. -/
def slice (b : Buffer) (off n : ℕ) : List UInt8 := (List.range' off n).map b

/-- Write `s` at offset `off`; `memcpy` and `memmove` from another part. -/
def blit (b : Buffer) (off : ℕ) (s : List UInt8) : Buffer := fun i =>
  if off ≤ i then (s[i - off]?).getD (b i) else b i

@[simp] theorem length_slice : (b.slice off n).length = n := by simp [slice]

@[simp] theorem slice_zero : b.slice off 0 = [] := rfl

theorem slice_succ : b.slice off (n + 1) = b off :: b.slice (off + 1) n := rfl

theorem slice_add : b.slice off (k + n) = b.slice off k ++ b.slice (off + k) n := by
  rw [slice, slice, slice, ← List.map_append, List.range'_append_1]

theorem drop_slice (h : k ≤ n) : (b.slice off n).drop k = b.slice (off + k) (n - k) := by
  obtain ⟨m, rfl⟩ := Nat.exists_eq_add_of_le h
  rw [slice_add, List.drop_append_of_le_length (by simp), List.drop_of_length_le (by simp),
    List.nil_append, Nat.add_sub_cancel_left]

theorem slice_congr (h : ∀ i, off ≤ i → i < off + n → b' i = b i) :
    b'.slice off n = b.slice off n := by
  refine List.map_congr_left fun i hi => ?_
  obtain ⟨h1, h2⟩ := List.mem_range'_1.mp hi
  exact h i h1 h2

theorem slice_blit : (b.blit off s).slice off s.length = s := by
  refine List.ext_getElem (by simp) fun i h1 h2 => ?_
  simp [slice, blit, h2]

/-- What lies before the written part stays. -/
theorem slice_blit_of_le (h : k + n ≤ off) : (b.blit off s).slice k n = b.slice k n := by
  refine slice_congr fun i _ hi => ?_
  rw [blit, if_neg (by omega)]

/-- The text in a buffer after more text has been appended to it. -/
theorem slice_blit_append (h : k = s.length) :
    (b.blit off s).slice 0 (off + k) = b.slice 0 off ++ s := by
  subst h
  rw [slice_add, zero_add, slice_blit, slice_blit_of_le (by omega)]

theorem slice_update_of_le (h : off + n ≤ k) :
    Buffer.slice (Function.update b k c) off n = b.slice off n := by
  refine slice_congr fun i _ hi => ?_
  have : i ≠ k := by omega
  rw [Function.update_of_ne this]

/-! ### C strings -/

/-- The text from offset `i` on, up to the first terminating byte or the end of
the `n` bytes looked at. -/
def text (b : Buffer) : ℕ → ℕ → List UInt8
  | 0, _ => []
  | n + 1, i => if b i = 0 then [] else b i :: text b n (i + 1)

theorem text_spec : (b.text n i).length ≤ n ∧ 0 ∉ b.text n i ∧
    b.slice i (b.text n i).length = b.text n i ∧
    (b (i + n) = 0 → b (i + (b.text n i).length) = 0) := by
  induction n generalizing i with
  | zero => simp [text]
  | succ n ih =>
    rw [text]
    by_cases hi : b i = 0
    · rw [if_pos hi]
      exact ⟨by simp, by simp, rfl, fun _ => hi⟩
    · rw [if_neg hi]
      obtain ⟨h1, h2, h3, h4⟩ := ih (i := i + 1)
      refine ⟨Nat.succ_le_succ h1, ?_, ?_, fun h => ?_⟩
      · rw [List.mem_cons, not_or]
        exact ⟨Ne.symm hi, h2⟩
      · rw [List.length_cons, slice_succ, h3]
      · rw [List.length_cons, Nat.add_comm _ 1, ← Nat.add_assoc]
        exact h4 (by rwa [Nat.add_assoc, Nat.add_comm 1])

theorem text_congr (h : ∀ j, i ≤ j → j < i + n → b' j = b j) : b'.text n i = b.text n i := by
  induction n generalizing i with
  | zero => rfl
  | succ n ih =>
    rw [text, text, h i le_rfl (by omega), ih fun j h1 h2 => h j (by omega) (by omega)]

theorem text_eq_slice (h : 0 ∉ b.slice i n) : b.text n i = b.slice i n := by
  induction n generalizing i with
  | zero => rfl
  | succ n ih =>
    rw [slice_succ, List.mem_cons, not_or] at h
    rw [text, if_neg (Ne.symm h.1), slice_succ, ih h.2]

/-- `strchr` from offset `i` on, in a block that has `n` bytes left: the first
occurrence of `c` before the terminating byte. -/
def strchr (b : Buffer) (c : UInt8) : ℕ → ℕ → Exec (Option ℕ)
  | 0, _ => .error .undefined
  | n + 1, i =>
    if b i = c then .ok (some i)
    else if b i = 0 then .ok none
    else strchr b c n (i + 1)

/-- The string from offset `i` on, in a block that has `n` bytes left. -/
def cString (b : Buffer) : ℕ → ℕ → Exec (List UInt8)
  | 0, _ => .error .undefined
  | n + 1, i =>
    if b i = 0 then .ok []
    else do
      let s ← cString b n (i + 1)
      .ok (b i :: s)

theorem strchr_of_notMem (hs : b.slice i k = s) (hend : b (i + k) = 0) (h0 : 0 ∉ s) (hc : c ∉ s)
    (hc0 : c ≠ 0) (hn : k < n) : b.strchr c n i = .ok none := by
  subst hs
  induction k generalizing i n with
  | zero =>
    obtain ⟨n, rfl⟩ : ∃ m, n = m + 1 := ⟨n - 1, by omega⟩
    have hbi : b i = 0 := hend
    rw [strchr, hbi, if_neg hc0.symm, if_pos rfl]
  | succ k ih =>
    obtain ⟨n, rfl⟩ : ∃ m, n = m + 1 := ⟨n - 1, by omega⟩
    rw [slice_succ, List.mem_cons, not_or] at h0 hc
    rw [strchr, if_neg (Ne.symm hc.1), if_neg (Ne.symm h0.1)]
    refine ih ?_ (by omega) h0.2 hc.2
    rwa [Nat.add_right_comm]

theorem strchr_of_append {t : List UInt8} (hs : b.slice i k = s ++ c :: t) (h0 : 0 ∉ s)
    (hc : c ∉ s) (hn : s.length < n) : b.strchr c n i = .ok (some (i + s.length)) := by
  induction s generalizing i k n with
  | nil =>
    obtain ⟨n, rfl⟩ : ∃ m, n = m + 1 := ⟨n - 1, by simp at hn; omega⟩
    obtain ⟨k, rfl⟩ : ∃ m, k = m + 1 := by
      cases k with
      | zero => simp at hs
      | succ k => exact ⟨k, rfl⟩
    rw [slice_succ, List.nil_append] at hs
    rw [strchr, if_pos (List.cons.inj hs).1]
    rfl
  | cons d s ih =>
    obtain ⟨n, rfl⟩ : ∃ m, n = m + 1 := ⟨n - 1, by simp at hn; omega⟩
    obtain ⟨k, rfl⟩ : ∃ m, k = m + 1 := by
      cases k with
      | zero => simp at hs
      | succ k => exact ⟨k, rfl⟩
    rw [slice_succ, List.cons_append] at hs
    obtain ⟨hd, hs⟩ := List.cons.inj hs
    rw [List.mem_cons, not_or] at h0 hc
    rw [strchr, hd, if_neg (Ne.symm hc.1), if_neg (Ne.symm h0.1),
      ih hs h0.2 hc.2 (by simpa using hn)]
    simp only [List.length_cons]
    congr 2
    omega

theorem cString_slice (hs : b.slice i k = s) (hend : b (i + k) = 0) (h0 : 0 ∉ s) (hn : k < n) :
    b.cString n i = .ok s := by
  subst hs
  induction k generalizing i n with
  | zero =>
    obtain ⟨n, rfl⟩ : ∃ m, n = m + 1 := ⟨n - 1, by omega⟩
    have hbi : b i = 0 := hend
    rw [cString, if_pos hbi]
    rfl
  | succ k ih =>
    obtain ⟨n, rfl⟩ : ∃ m, n = m + 1 := ⟨n - 1, by omega⟩
    rw [slice_succ, List.mem_cons, not_or] at h0
    rw [cString, if_neg (Ne.symm h0.1), ih (by rwa [Nat.add_right_comm]) (by omega) h0.2]
    rfl

end Buffer

/-! ### Growing a capacity -/

/-- The loop `while(need >= size) size *= 2`. -/
def doubleUntil : ℕ → ℕ → ℕ → Exec ℕ
  | 0, _, _ => .error .diverges
  | n + 1, need, size => if size ≤ need then doubleUntil n need (size * 2) else .ok size

/-- The loop ends with the first sufficient size. -/
theorem doubleUntil_spec {n need size : ℕ} (hs : 1 ≤ size) (hn : need < size + n) :
    ∃ k, doubleUntil (n + 1) need size = .ok (size * 2 ^ k) ∧ need < size * 2 ^ k ∧
      ∀ j < k, size * 2 ^ j ≤ need := by
  induction n generalizing size with
  | zero =>
    refine ⟨0, ?_, by simpa using hn, by simp⟩
    rw [doubleUntil, if_neg (by omega)]
    simp
  | succ n ih =>
    rw [doubleUntil]
    by_cases hle : size ≤ need
    · obtain ⟨k, h1, h2, h3⟩ := @ih (size * 2) (by omega) (by omega)
      have hpow : ∀ j, size * 2 * 2 ^ j = size * 2 ^ (j + 1) := fun j => by ring
      rw [hpow] at h1 h2
      refine ⟨k + 1, by rw [if_pos hle, h1], h2, fun j hj => ?_⟩
      cases j with
      | zero => simpa using hle
      | succ j =>
        rw [← hpow]
        exact h3 j (by omega)
    · exact ⟨0, by rw [if_neg hle]; simp, by simpa using hle, by simp⟩

/-- A power of two of 32 bits is doubled, unless it is the largest one. -/
theorem toNat_double {c : UInt32} (h : ∃ e, c.toNat = 2 ^ e) :
    (c.toNat = 2 ^ 31 → (c * 2).toNat = 0) ∧
      (c.toNat ≠ 2 ^ 31 → (c * 2).toNat = c.toNat * 2 ∧ ∃ e, (c * 2).toNat = 2 ^ e) := by
  obtain ⟨e, he⟩ := h
  have hlt : c.toNat < 2 ^ 32 := UInt32.toNat_lt _
  rw [UInt32.toNat_mul]
  constructor
  · intro htop
    rw [htop]
    rfl
  · intro htop
    have hexp : e < 32 := (Nat.pow_lt_pow_iff_right (by omega)).mp (he ▸ hlt)
    have hne : e ≠ 31 := by
      rintro rfl
      exact htop he
    have hle : 2 ^ e ≤ 2 ^ 30 := Nat.pow_le_pow_right (by omega) (by omega)
    have hmod : c.toNat * (2 : UInt32).toNat % 2 ^ 32 = c.toNat * 2 :=
      Nat.mod_eq_of_lt (by simp; omega)
    refine ⟨hmod, e + 1, ?_⟩
    rw [hmod, he, Nat.pow_succ]

/-! ### Pieces of a stream -/

section Pieces

variable {α : Type*} [DecidableEq α] {sep c : α} {s t p : List α}

/-- The pieces of a stream that are ended by the separator, and what follows the
last of them. -/
def pieces (sep : α) : List α → List (List α) × List α
  | [] => ([], [])
  | c :: s =>
    if c = sep then ([] :: (pieces sep s).1, (pieces sep s).2)
    else match (pieces sep s).1 with
      | [] => ([], c :: (pieces sep s).2)
      | l :: ls => ((c :: l) :: ls, (pieces sep s).2)

theorem pieces_of_notMem (h : sep ∉ s) : pieces sep s = ([], s) := by
  induction s with
  | nil => rfl
  | cons c s ih =>
    rw [List.mem_cons, not_or] at h
    rw [pieces, if_neg (Ne.symm h.1), ih h.2]

theorem pieces_append_cons (h : sep ∉ p) :
    pieces sep (p ++ sep :: s) = (p :: (pieces sep s).1, (pieces sep s).2) := by
  induction p with
  | nil => rw [List.nil_append, pieces, if_pos rfl]
  | cons c p ih =>
    rw [List.mem_cons, not_or] at h
    rw [List.cons_append, pieces, if_neg (Ne.symm h.1), ih h.2]

/-- **Cutting may be resumed** anywhere in a stream. -/
theorem pieces_append : pieces sep (s ++ t) =
    ((pieces sep s).1 ++ (pieces sep ((pieces sep s).2 ++ t)).1,
      (pieces sep ((pieces sep s).2 ++ t)).2) := by
  induction hn : s.length using Nat.strong_induction_on generalizing s with
  | _ n ih =>
    by_cases hs : sep ∈ s
    · obtain ⟨p, u, rfl, hp⟩ := List.eq_append_cons_of_mem hs
      have hlt : u.length < n := by
        rw [← hn, List.length_append, List.length_cons]
        omega
      have hu := ih u.length hlt rfl
      rw [List.append_assoc, List.cons_append, pieces_append_cons hp, pieces_append_cons hp, hu]
      rfl
    · rw [pieces_of_notMem hs]
      rfl

/-- What follows the last piece is the end of the stream. -/
theorem pieces_suffix : (pieces sep s).2 <:+ s := by
  induction hn : s.length using Nat.strong_induction_on generalizing s with
  | _ n ih =>
    by_cases hs : sep ∈ s
    · obtain ⟨p, u, rfl, hp⟩ := List.eq_append_cons_of_mem hs
      have hlt : u.length < n := by
        rw [← hn, List.length_append, List.length_cons]
        omega
      have hu := ih u.length hlt rfl
      rw [pieces_append_cons hp]
      exact hu.trans ⟨p ++ [sep], by simp⟩
    · simp [pieces_of_notMem hs]

/-- The pieces of a stream put together from pieces. -/
theorem pieces_flatten {l : List (List α)} (h : ∀ p ∈ l, sep ∉ p) :
    pieces sep (l.map (· ++ [sep])).flatten = (l, []) := by
  induction l with
  | nil => rfl
  | cons p l ih =>
    obtain ⟨hp, hl⟩ := List.forall_mem_cons.mp h
    rw [List.map_cons, List.flatten_cons, List.append_assoc, List.singleton_append,
      pieces_append_cons hp, ih hl]

end Pieces
