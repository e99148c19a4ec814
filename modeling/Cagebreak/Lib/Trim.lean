/-
Strings without what is blank around them, and strings that are changed in their
block.

* `trim_trim` — what is left is not trimmed any further;
* `Filled.memmove` — the end of a string is moved to the front of its block;
* `Filled.set` — one byte of a string is replaced.
-/
import Cagebreak.Lib.LineInput
import Mathlib.Data.List.DropRight

open Exec

/-! ### Lists -/

section Lists

variable {α : Type*} {p : α → Bool} {s : List α}

/-- A list without what satisfies `p` at its beginning and at its end. -/
def trim (p : α → Bool) (s : List α) : List α := (s.dropWhile p).rdropWhile p

/-- The first element stays where it is. -/
theorem dropWhile_trim : (trim p s).dropWhile p = trim p s := by
  rw [List.dropWhile_eq_self_iff]
  intro hpos
  obtain ⟨u, hu⟩ : trim p s <+: s.dropWhile p := List.rdropWhile_prefix p _
  have hlt : 0 < (s.dropWhile p).length := by
    rw [← hu, List.length_append]
    omega
  have hhead : (trim p s)[0] = (s.dropWhile p)[0] := by simp [← hu, hpos]
  rw [hhead]
  exact List.dropWhile_get_zero_not p s hlt

theorem trim_trim : trim p (trim p s) = trim p s := by
  rw [trim, dropWhile_trim, trim, List.rdropWhile_idempotent]

theorem length_trim_le (p : α → Bool) (s : List α) : (trim p s).length ≤ s.length :=
  (List.rdropWhile_prefix p _).length_le.trans (List.dropWhile_suffix p).length_le

end Lists

/-! ### Strings -/

namespace Buffer

variable {b : Buffer} {s t : List UInt8} {c d : UInt8} {cap i k n : ℕ}

/-- `strspn`, for the bytes that satisfy `p`. -/
def strspn (b : Buffer) (p : UInt8 → Bool) (cap : ℕ) : Exec ℕ := do
  let s ← b.cString cap 0
  .ok (s.takeWhile p).length

/-- `memmove(b, b + src, n)` in a block of `cap` bytes. -/
def memmove (b : Buffer) (cap src n : ℕ) : Exec Buffer := do
  deref (decide (src + n ≤ cap))
  .ok (b.blit 0 (b.slice src n))

theorem Filled.strspn {p : UInt8 → Bool} (h : b.Filled cap s) :
    b.strspn p cap = .ok (s.takeWhile p).length := by
  rw [Buffer.strspn, h.cString, ok_bind]

theorem Filled.getElem (h : b.Filled cap s) (hi : i < s.length) : b i = s[i] := by
  have hget : (b.slice 0 s.length)[i]? = s[i]? := by rw [h.slice]
  simpa [Buffer.slice, hi] using hget

/-- **The end of a string** is moved to the front of the block. -/
theorem Filled.memmove (h : b.Filled cap (s ++ t)) :
    ∃ b', b.memmove cap s.length (t.length + 1) = .ok b' ∧ b'.Filled cap t := by
  have hlt : (s ++ t).length < cap := h.lt
  rw [List.length_append] at hlt
  have hwhole := h.whole
  rw [List.length_append, Nat.add_assoc, slice_add, List.append_assoc] at hwhole
  have hend : b.slice (0 + s.length) (t.length + 1) = t ++ [0] :=
    (List.append_inj hwhole (by simp)).2
  rw [Nat.zero_add] at hend
  refine ⟨b.blit 0 (t ++ [0]), ?_, filled_of_whole ?_ (fun hmem => ?_) (by omega)⟩
  · rw [Buffer.memmove, deref, decide_eq_true (by omega), hend]
    rfl
  · have hblit : (b.blit 0 (t ++ [0])).slice 0 (t ++ [0]).length = t ++ [0] := slice_blit
    rwa [List.length_append] at hblit
  · exact h.noNul (List.mem_append_right _ hmem)

/-- **One byte is replaced.** -/
theorem Filled.set (h : b.Filled cap (s ++ c :: t)) (hd : d ≠ 0) :
    Filled (Function.update b s.length d) cap (s ++ d :: t) := by
  have hlen : (s ++ d :: t).length = (s ++ c :: t).length := by simp
  have hwhole := h.whole
  have hparts : (s ++ c :: t).length + 1 = s.length + (1 + (t.length + 1)) := by
    rw [List.length_append, List.length_cons]
    omega
  rw [hparts, slice_add, slice_add, List.append_assoc, Nat.zero_add] at hwhole
  obtain ⟨hfront, hback⟩ := List.append_inj hwhole (by simp)
  have htail : b.slice (s.length + 1) (t.length + 1) = t ++ [0] := (List.cons.inj hback).2
  refine filled_of_whole ?_ ?_ (hlen ▸ h.lt)
  · have hkept : Buffer.slice (Function.update b s.length d) (s.length + 1) (t.length + 1) =
        b.slice (s.length + 1) (t.length + 1) := by
      refine slice_congr fun i hi _ => ?_
      have hne : i ≠ s.length := by omega
      rw [Function.update_of_ne hne]
    have hbyte : Buffer.slice (Function.update b s.length d) s.length 1 = [d] :=
      congrArg (fun x => [x]) (Function.update_self ..)
    rw [hlen, hparts, slice_add, slice_add, Nat.zero_add, slice_update_of_le (by omega), hfront,
      hbyte, hkept, htail]
    simp
  · have h0 := h.noNul
    simp only [List.mem_append, List.mem_cons, not_or] at h0 ⊢
    exact ⟨h0.1, hd.symm, h0.2.2⟩

end Buffer
