/-
Products of floating point numbers.

* `CFloat.round` — the nearest `float`, `CFloat.mul` — a product of two of them;
* `CFloat.round_le` — rounding does not go beyond a power of two.
-/
import Cagebreak.Lib.Strto
import Mathlib.Tactic.Linarith
import Mathlib.Tactic.Ring

namespace CFloat

open Strto

/-- Neither an infinity nor not a number. -/
def IsFinite : CFloat → Prop
  | fin _ => True
  | _ => False

/-- The nearest `float`. -/
def round (q : ℚ) : CFloat := if q < 0 then negate (roundFloat (-q)).1 else (roundFloat q).1

/-- The conversion of an `int` to `float`. -/
def ofInt (n : ℤ) : CFloat := round n

/-- `a * b`.  A zero has no sign here. -/
def mul : CFloat → CFloat → CFloat
  | nan, _ => nan
  | _, nan => nan
  | fin a, fin b => round (a * b)
  | inf a, inf b => inf (a ^^ b)
  | inf a, fin b => if b = 0 then nan else inf (a ^^ decide (b < 0))
  | fin a, inf b => if a = 0 then nan else inf (decide (a < 0) ^^ b)

variable {q : ℚ} {k m : ℕ}

theorem round_ne_nan : round q ≠ nan := by
  unfold round
  split
  · rw [Ne, negate_eq_nan]
    exact roundFloat_ne_nan _
  · exact roundFloat_ne_nan _

theorem roundEven_le (h0 : 0 ≤ q) (h : q ≤ m) : Printf.roundEven q ≤ m := by
  have hfloor : 0 ≤ ⌊q⌋ := Int.floor_nonneg.mpr h0
  have hcast : ((⌊q⌋.toNat : ℕ) : ℤ) = ⌊q⌋ := Int.toNat_of_nonneg hfloor
  have hle : (⌊q⌋.toNat : ℚ) ≤ q := by
    have hq : ((⌊q⌋ : ℤ) : ℚ) ≤ q := Int.floor_le q
    rw [← hcast] at hq
    exact_mod_cast hq
  have hn : ⌊q⌋.toNat ≤ m := by
    have hm : (⌊q⌋.toNat : ℚ) ≤ m := hle.trans h
    exact_mod_cast hm
  -- only below `m` it is rounded up
  have hlt : 0 < q - ⌊q⌋.toNat → ⌊q⌋.toNat < m := by
    intro hpos
    have hm : (⌊q⌋.toNat : ℚ) < m := by linarith
    exact_mod_cast hm
  unfold Printf.roundEven
  show (if q - (⌊q⌋.toNat : ℚ) < 1 / 2 then ⌊q⌋.toNat
    else if 1 / 2 < q - (⌊q⌋.toNat : ℚ) then ⌊q⌋.toNat + 1 else ⌊q⌋.toNat + ⌊q⌋.toNat % 2) ≤ m
  split
  · exact hn
  · next hhalf =>
    have hroom := hlt (by linarith)
    split
    · omega
    · omega

theorem roundFloat_le (h0 : 0 ≤ q) (h : q ≤ 2 ^ k) (hk : k ≤ 127) :
    ∃ r, (roundFloat q).1 = fin r ∧ 0 ≤ r ∧ r ≤ 2 ^ k := by
  have hlog : Int.log 2 q ≤ k := by
    rcases h0.eq_or_lt with rfl | hpos
    · rw [Int.log_zero_right]
      exact Int.natCast_nonneg k
    · have hmono := Int.log_mono_right (b := 2) hpos h
      have hpow : Int.log 2 ((2 : ℚ) ^ k) = k := by
        have hz := Int.log_zpow (R := ℚ) (b := 2) (by norm_num) (k : ℤ)
        simpa using hz
      rwa [hpow] at hmono
  obtain ⟨j, hj⟩ : ∃ j : ℤ, max (Int.log 2 q - 23) (-149) = j := ⟨_, rfl⟩
  have hjk : j ≤ k := by omega
  have hulp : (0 : ℚ) < 2 ^ j := zpow_pos (by norm_num) j
  have hpow : (2 : ℚ) ^ k = ((2 ^ (k - j).toNat : ℕ) : ℚ) * 2 ^ j := by
    have hcast : (((k - j).toNat : ℕ) : ℤ) = k - j := Int.toNat_of_nonneg (by omega)
    rw [Nat.cast_pow, Nat.cast_ofNat, ← zpow_natCast, ← zpow_natCast, hcast,
      ← zpow_add₀ (by norm_num)]
    congr 1
    omega
  have hround : Printf.roundEven (q / 2 ^ j) ≤ 2 ^ (k - j).toNat := by
    refine roundEven_le (div_nonneg h0 hulp.le) ?_
    rw [div_le_iff₀ hulp, ← hpow]
    exact h
  have hr : (Printf.roundEven (q / 2 ^ j) : ℚ) * 2 ^ j ≤ 2 ^ k := by
    rw [hpow]
    exact mul_le_mul_of_nonneg_right (by exact_mod_cast hround) hulp.le
  have hbig : ¬ (2 : ℚ) ^ 128 ≤ (Printf.roundEven (q / 2 ^ j) : ℚ) * 2 ^ j := by
    have hmono : (2 : ℚ) ^ k ≤ 2 ^ 127 := pow_le_pow_right₀ (by norm_num) hk
    have hlt : (2 : ℚ) ^ 127 < 2 ^ 128 := by norm_num
    linarith
  refine ⟨(Printf.roundEven (q / 2 ^ j) : ℚ) * 2 ^ j, ?_, by positivity, hr⟩
  unfold roundFloat
  rw [hj]
  dsimp only
  rw [if_neg hbig]

/-- **Rounding.**  A number below a power of two stays below it, and is finite. -/
theorem round_le (h : |q| ≤ 2 ^ k) (hk : k ≤ 127) : ∃ r, round q = fin r ∧ |r| ≤ 2 ^ k := by
  obtain ⟨hlow, hhigh⟩ := abs_le.mp h
  unfold round
  split
  · next hneg =>
    obtain ⟨r, hr, h0, hle⟩ := roundFloat_le (q := -q) (by linarith) (by linarith) hk
    refine ⟨-r, by rw [hr]; rfl, ?_⟩
    rw [abs_neg, abs_of_nonneg h0]
    exact hle
  · next hneg =>
    obtain ⟨r, hr, h0, hle⟩ := roundFloat_le (not_lt.mp hneg) hhigh hk
    exact ⟨r, hr, by rw [abs_of_nonneg h0]; exact hle⟩

end CFloat
