/-
Decimal numerals, and what the conversions of C strings make of them.

* `Digits` — a text of digits and nothing else;
* `Numeral` — digits with an optional minus: `strtol` returns its value, clamped;
* `Decimal` — a numeral with an optional fraction: `strtof` returns its value, rounded.
-/
import Cagebreak.Lib.Strto

namespace Strto

variable {c x : UInt8} {t u : Text}

/-! ### Digits -/

/-- A text of digits. -/
structure Digits where
  text : Text
  nonempty : text ≠ []
  digit : ∀ c ∈ text, isDigit c = true

theorem ne_of_isDigit (h : isDigit c = true) (hx : isDigit x = false) : c ≠ x := by
  intro heq
  rw [heq, hx] at h
  exact Bool.false_ne_true h

theorem isSpace_of_isDigit (h : isDigit c = true) : isSpace c = false := by
  simp only [isDigit, isSpace, Bool.and_eq_true, decide_eq_true_eq, UInt8.le_iff_toNat_le] at *
  simp only [Bool.or_eq_false_iff, Bool.and_eq_false_iff, decide_eq_false_iff_not,
    ← UInt8.toNat_inj]
  simp only [UInt8.reduceToNat] at *
  omega

/-- A digit is no letter. -/
theorem toLower_of_isDigit (h : isDigit c = true) : toLower c = c := by
  simp only [isDigit, Bool.and_eq_true, decide_eq_true_eq, UInt8.le_iff_toNat_le,
    UInt8.reduceToNat] at h
  unfold toLower
  rw [if_neg]
  simp only [UInt8.le_iff_toNat_le, UInt8.reduceToNat]
  omega

/-- A text that begins with a digit has no sign and no blanks before it. -/
theorem sign_digits (d : Digits) (t : Text) :
    sign ((d.text ++ t).dropWhile isSpace) = (false, d.text ++ t) := by
  obtain ⟨text, hne, hdigit⟩ := d
  cases text with
  | nil => exact absurd rfl hne
  | cons c text =>
    have hc := hdigit c List.mem_cons_self
    show sign ((c :: (text ++ t)).dropWhile isSpace) = (false, c :: (text ++ t))
    rw [List.dropWhile_cons, isSpace_of_isDigit hc, if_neg Bool.false_ne_true]
    unfold sign
    split
    · next heq => exact absurd (List.cons.inj heq).1 (ne_of_isDigit hc rfl)
    · next heq => exact absurd (List.cons.inj heq).1 (ne_of_isDigit hc rfl)
    · rfl

/-- A minus before digits. -/
theorem sign_minus (d : Digits) (t : Text) :
    sign ((45 :: (d.text ++ t)).dropWhile isSpace) = (true, d.text ++ t) := rfl

/-- Digits that something else follows. -/
theorem Digits.span (d : Digits) (ht : ∀ c ∈ t.head?, isDigit c = false) :
    (d.text ++ t).takeWhile isDigit = d.text ∧ (d.text ++ t).dropWhile isDigit = t := by
  rw [List.takeWhile_append_of_pos d.digit, List.dropWhile_append_of_pos d.digit]
  cases t with
  | nil => exact ⟨List.append_nil _, rfl⟩
  | cons c t =>
    have hc : isDigit c = false := ht c rfl
    rw [List.takeWhile_cons, List.dropWhile_cons, hc]
    simp

/-! ### Integers -/

/-- A decimal numeral of any length. -/
structure Numeral where
  negative : Bool
  digits : Digits

namespace Numeral

def text (n : Numeral) : Text := if n.negative then 45 :: n.digits.text else n.digits.text

/-- The value without the sign. -/
def size (n : Numeral) : ℕ := number 10 n.digits.text

def value (n : Numeral) : ℤ := if n.negative then -n.size else n.size

variable (n : Numeral)

theorem text_ne_nil : n.text ≠ [] := by
  unfold text
  split
  · exact List.cons_ne_nil _ _
  · exact n.digits.nonempty

/-- A numeral has no separators but its digits and its minus. -/
theorem ne_of_mem_text (h : c ∈ n.text) (hx : isDigit x = false) (hminus : x ≠ 45) : c ≠ x := by
  unfold text at h
  split at h
  · obtain rfl | h := List.mem_cons.mp h
    · exact hminus.symm
    · exact ne_of_isDigit (n.digits.digit c h) hx
  · exact ne_of_isDigit (n.digits.digit c h) hx

theorem sign_text : sign (n.text.dropWhile isSpace) = (n.negative, n.digits.text) := by
  have hplus := sign_digits n.digits []
  have hminus := sign_minus n.digits []
  rw [List.append_nil] at hplus hminus
  unfold text
  cases n.negative with
  | false => exact hplus
  | true => exact hminus

/-- `strtol` reads all of a numeral, and clamps its value. -/
theorem strtol_text : strtol n.text =
    ⟨max longMin (min longMax n.value), [], decide (n.value < longMin ∨ longMax < n.value)⟩ := by
  obtain ⟨htake, hdrop⟩ := n.digits.span (t := []) fun c hc => nomatch hc
  rw [List.append_nil] at htake hdrop
  obtain ⟨c, digits, hcons⟩ := List.exists_cons_of_ne_nil n.digits.nonempty
  unfold strtol
  rw [sign_text]
  dsimp only
  rw [htake, hdrop, value, size, hcons]

end Numeral

/-! ### Fractions -/

/-- A decimal numeral with the digits of its fraction, if there are any. -/
structure Decimal where
  negative : Bool
  whole : Digits
  part : Text
  digit : ∀ c ∈ part, isDigit c = true

namespace Decimal

/-- The fraction, after the point. -/
def fraction (d : Decimal) : Text := if d.part = [] then [] else 46 :: d.part

def text (d : Decimal) : Text :=
  if d.negative then 45 :: (d.whole.text ++ d.fraction) else d.whole.text ++ d.fraction

/-- The value without the sign. -/
def size (d : Decimal) : ℚ := number 10 (d.whole.text ++ d.part) / 10 ^ d.part.length

def value (d : Decimal) : ℚ := if d.negative then -d.size else d.size

/-- The nearest number of 24 bits. -/
def float (d : Decimal) : CFloat :=
  if d.negative then negate (roundFloat d.size).1 else (roundFloat d.size).1

variable (d : Decimal)

theorem digit_or_point (h : c ∈ d.whole.text ++ d.fraction) : isDigit c = true ∨ c = 46 := by
  obtain h | h := List.mem_append.mp h
  · exact .inl (d.whole.digit c h)
  · unfold fraction at h
    split at h
    · exact absurd h List.not_mem_nil
    · obtain rfl | h := List.mem_cons.mp h
      · exact .inr rfl
      · exact .inl (d.digit c h)

theorem text_ne_nil : d.text ≠ [] := by
  unfold text
  split
  · exact List.cons_ne_nil _ _
  · exact fun h => d.whole.nonempty (List.append_eq_nil_iff.mp h).1

theorem ne_of_mem_text (h : c ∈ d.text) (hx : isDigit x = false) (hminus : x ≠ 45)
    (hpoint : x ≠ 46) : c ≠ x := by
  have hne : ∀ a, isDigit a = true ∨ a = 46 → a ≠ x := by
    rintro a (ha | rfl)
    · exact ne_of_isDigit ha hx
    · exact hpoint.symm
  unfold text at h
  split at h
  · obtain rfl | h := List.mem_cons.mp h
    · exact hminus.symm
    · exact hne c (d.digit_or_point h)
  · exact hne c (d.digit_or_point h)

theorem sign_text : sign (d.text.dropWhile isSpace) = (d.negative, d.whole.text ++ d.fraction) := by
  unfold text
  cases d.negative with
  | false => exact sign_digits d.whole d.fraction
  | true => exact sign_minus d.whole d.fraction

/-- A word with a letter in it is not the beginning of a numeral. -/
theorem afterWord_eq_none {word : String} (hx : x ∈ ascii word) (hdigit : isDigit x = false)
    (hpoint : x ≠ 46) : afterWord word (d.whole.text ++ d.fraction) = none := by
  unfold afterWord
  rw [if_neg]
  intro heq
  rw [← heq] at hx
  obtain ⟨c, hc, rfl⟩ := List.mem_map.mp hx
  obtain hc | rfl := d.digit_or_point (List.mem_of_mem_take hc)
  · rw [toLower_of_isDigit hc, hc] at hdigit
    exact Bool.false_ne_true hdigit.symm
  · exact hpoint rfl

theorem mantissa_text : mantissa 10 isDigit (d.whole.text ++ d.fraction) =
    some (number 10 (d.whole.text ++ d.part), d.part.length, []) := by
  have hhead : ∀ c ∈ d.fraction.head?, isDigit c = false := by
    intro c hc
    unfold fraction at hc
    split at hc
    · cases hc
    · cases hc
      rfl
  obtain ⟨htake, hdrop⟩ := d.whole.span hhead
  have hne : ∀ t, d.whole.text ++ t ≠ [] := fun t h =>
    d.whole.nonempty (List.append_eq_nil_iff.mp h).1
  unfold mantissa
  rw [htake, hdrop]
  by_cases hpart : d.part = []
  · have hfraction : d.fraction = [] := if_pos hpart
    rw [hfraction, hpart]
    dsimp only
    rw [if_neg (hne [])]
  · have hfraction : d.fraction = 46 :: d.part := if_neg hpart
    rw [hfraction]
    show (if d.whole.text ++ d.part.takeWhile isDigit = [] then none
      else some (number 10 (d.whole.text ++ d.part.takeWhile isDigit),
        (d.part.takeWhile isDigit).length, d.part.dropWhile isDigit)) = _
    rw [List.takeWhile_eq_self_iff.mpr d.digit, List.dropWhile_eq_nil_iff.mpr d.digit,
      if_neg (hne _)]

theorem magnitude_text : magnitude (d.whole.text ++ d.fraction) =
    some ⟨(roundFloat d.size).1, [], (roundFloat d.size).2⟩ := by
  have hfinite : finite (d.whole.text ++ d.fraction) = some (d.size, []) := by
    have hx : afterWord "0x" (d.whole.text ++ d.fraction) = none :=
      d.afterWord_eq_none (x := 120) (by decide) rfl (by decide)
    unfold finite
    rw [hx, Option.bind_none]
    dsimp only
    unfold decimal
    rw [mantissa_text, Option.map_some]
    simp [exponent, size, zpow_neg, div_eq_mul_inv]
  have hinfinity : afterWord "infinity" (d.whole.text ++ d.fraction) = none :=
    d.afterWord_eq_none (x := 105) (by decide) rfl (by decide)
  have hinf : afterWord "inf" (d.whole.text ++ d.fraction) = none :=
    d.afterWord_eq_none (x := 105) (by decide) rfl (by decide)
  have hnan : afterWord "nan" (d.whole.text ++ d.fraction) = none :=
    d.afterWord_eq_none (x := 110) (by decide) rfl (by decide)
  unfold magnitude
  rw [hinfinity, hinf, hnan, hfinite]
  rfl

/-- `strtof` reads all of a numeral, and rounds its value. -/
theorem strtof_text : strtof d.text = ⟨d.float, [], (roundFloat d.size).2⟩ := by
  unfold strtof float
  rw [sign_text]
  dsimp only
  rw [magnitude_text]
  dsimp only
  split
  · rfl
  · rfl

theorem negative_of_value_neg (h : d.value < 0) : d.negative = true := by
  have hsize : 0 ≤ d.size := div_nonneg (Nat.cast_nonneg _) (by positivity)
  by_contra hneg
  have hvalue : d.value = d.size := if_neg hneg
  linarith

/-- A number that is rounded without its sign is not negative. -/
theorem roundFloat_nonneg (q : ℚ) :
    (roundFloat q).1 = .inf false ∨ ∃ r, 0 ≤ r ∧ (roundFloat q).1 = .fin r := by
  unfold roundFloat
  dsimp only
  split
  · exact .inl rfl
  · exact .inr ⟨_, mul_nonneg (Nat.cast_nonneg _) (zpow_nonneg (by norm_num) _), rfl⟩

/-- A number with a minus is rounded to none above zero. -/
theorem float_of_negative (h : d.negative = true) :
    d.float = .inf true ∨ ∃ r, r ≤ 0 ∧ d.float = .fin r := by
  unfold float
  rw [if_pos h]
  obtain hr | ⟨r, hr0, hr⟩ := roundFloat_nonneg d.size
  · rw [hr]
    exact .inl rfl
  · rw [hr]
    exact .inr ⟨-r, by linarith, rfl⟩

end Decimal

end Strto
