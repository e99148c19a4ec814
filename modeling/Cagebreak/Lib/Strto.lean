/-
Tokens and numbers of a C string.

* `strtok` — the next token of a string and what is left of it (`strtok_r`);
* `strtol` — a decimal integer, clamped to the range of a `long` of 64 bits;
* `strtof` — a floating point number, rounded to 24 bits.

The last two say where they stop (`endptr`) and whether they set `errno` to
`ERANGE`; they never set it to anything else.
-/
import Cagebreak.Lib.Printf
import Mathlib.Data.Int.Log
import Mathlib.Data.List.TakeWhile

namespace Strto

/-- `strtok_r`.  At the end of the string the empty string is left. -/
def strtok (delim : Text) (s : Text) : Option Text × Text :=
  match s.dropWhile fun c => delim.contains c with
  | [] => (none, [])
  | c :: t =>
    (some (c :: t.takeWhile fun c => !delim.contains c),
      (t.dropWhile fun c => !delim.contains c).drop 1)

/-- What is left after `n` tokens. -/
def afterTokens (delim : Text) : ℕ → Text → Text
  | 0, t => t
  | n + 1, t => (strtok delim (afterTokens delim n t)).2

/-- The token after `n` others. -/
def tokenAt (delim : Text) (n : ℕ) (t : Text) : Option Text :=
  (strtok delim (afterTokens delim n t)).1

/-- What a conversion returns. -/
structure Converted (α : Type) where
  value : α
  endptr : Text
  range : Bool

/-- `isspace`. -/
def isSpace (c : UInt8) : Bool := c = 32 || (9 ≤ c && c ≤ 13)

/-- `isdigit`. -/
def isDigit (c : UInt8) : Bool := 48 ≤ c && c ≤ 57

/-- `tolower`. -/
def toLower (c : UInt8) : UInt8 := if 65 ≤ c ∧ c ≤ 90 then c + 32 else c

/-- An optional sign: is it a minus, and what follows it. -/
def sign : Text → Bool × Text
  | 43 :: t => (false, t)
  | 45 :: t => (true, t)
  | t => (false, t)

/-- The value of digits, letters standing for the digits from ten on. -/
def number (base : ℕ) (digits : Text) : ℕ :=
  digits.foldl (fun n c =>
    base * n + (if isDigit c then c.toNat - 48 else (toLower c).toNat - 87)) 0

/-- `LONG_MIN` and `LONG_MAX`. -/
def longMin : ℤ := -2 ^ 63
def longMax : ℤ := 2 ^ 63 - 1

/-- `strtol`, in base ten. -/
def strtol (s : Text) : Converted ℤ :=
  let (neg, t) := sign (s.dropWhile isSpace)
  match t.takeWhile isDigit with
  | [] => ⟨0, s, false⟩
  | c :: digits =>
    let n : ℤ := number 10 (c :: digits)
    let n := if neg then -n else n
    ⟨max longMin (min longMax n), t.dropWhile isDigit, decide (n < longMin ∨ longMax < n)⟩

/-! ### Floating point numbers -/

/-- The text after a word, in whatever case the word is written. -/
def afterWord (word : String) (t : Text) : Option Text :=
  if (t.take word.length).map toLower = ascii word then some (t.drop word.length) else none

/-- What follows `nan`: a word in parentheses belongs to it. -/
def afterNan : Text → Text
  | 40 :: t =>
    let word := fun c => isDigit c || (97 ≤ toLower c && toLower c ≤ 122) || c = 95
    match t.dropWhile word with
    | 41 :: u => u
    | _ => 40 :: t
  | t => t

/-- Digits with an optional point: their number, how many follow the point, and
what comes after them. -/
def mantissa (base : ℕ) (isDig : UInt8 → Bool) (t : Text) : Option (ℕ × ℕ × Text) :=
  let whole := t.takeWhile isDig
  let (part, rest) := match t.dropWhile isDig with
    | 46 :: u => (u.takeWhile isDig, u.dropWhile isDig)
    | u => ([], u)
  if whole ++ part = [] then none else some (number base (whole ++ part), part.length, rest)

/-- An optional exponent after the letter `mark`. -/
def exponent (mark : UInt8) : Text → ℤ × Text
  | [] => (0, [])
  | c :: t =>
    let (neg, u) := sign t
    if toLower c = mark ∧ u.takeWhile isDigit ≠ [] then
      (if neg then -(number 10 (u.takeWhile isDigit) : ℤ) else number 10 (u.takeWhile isDigit),
        u.dropWhile isDigit)
    else (0, c :: t)

def isHexDigit (c : UInt8) : Bool := isDigit c || (97 ≤ toLower c && toLower c ≤ 102)

/-- A hexadecimal number, after `0x`. -/
def hexadecimal (t : Text) : Option (ℚ × Text) :=
  (mantissa 16 isHexDigit t).map fun (m, k, rest) =>
    let (e, rest) := exponent 112 rest
    (m * 2 ^ (e - 4 * k), rest)

def decimal (t : Text) : Option (ℚ × Text) :=
  (mantissa 10 isDigit t).map fun (m, k, rest) =>
    let (e, rest) := exponent 101 rest
    (m * 10 ^ (e - k), rest)

/-- The finite number at the beginning of a text. -/
def finite (t : Text) : Option (ℚ × Text) :=
  match (afterWord "0x" t).bind hexadecimal with
  | some r => some r
  | none => decimal t

/-- `FLT_MIN`. -/
def fltMin : ℚ := 1 / 2 ^ 126

/-- The nearest number of 24 bits, and whether it is out of range: too large, or
too small to be exact. -/
def roundFloat (q : ℚ) : CFloat × Bool :=
  let ulp : ℚ := 2 ^ max (Int.log 2 q - 23) (-149)
  let r := Printf.roundEven (q / ulp) * ulp
  if 2 ^ 128 ≤ r then (.inf false, true) else (.fin r, decide (r < fltMin ∧ r ≠ q))

theorem roundFloat_ne_nan (q : ℚ) : (roundFloat q).1 ≠ .nan := by
  unfold roundFloat
  dsimp only
  split
  · simp
  · simp

/-- A value with the opposite sign. -/
def negate : CFloat → CFloat
  | .fin q => .fin (-q)
  | .inf neg => .inf !neg
  | .nan => .nan

/-- A value without its sign. -/
def magnitude (t : Text) : Option (Converted CFloat) :=
  match afterWord "infinity" t, afterWord "inf" t, afterWord "nan" t with
  | some rest, _, _ => some ⟨.inf false, rest, false⟩
  | none, some rest, _ => some ⟨.inf false, rest, false⟩
  | none, none, some rest => some ⟨.nan, afterNan rest, false⟩
  | none, none, none => (finite t).map fun (q, rest) =>
    let (x, range) := roundFloat q
    ⟨x, rest, range⟩

/-- `strtof`.  A zero has no sign here. -/
def strtof (s : Text) : Converted CFloat :=
  let (neg, t) := sign (s.dropWhile isSpace)
  match magnitude t with
  | none => ⟨.fin 0, s, false⟩
  | some c => if neg then { c with value := negate c.value } else c

/-! ### Tokens -/

variable {delim t u tok : Text} {n : ℕ}

theorem strtok_none (h : strtok delim t = (none, u)) : u = [] := by
  unfold strtok at h
  split at h
  · exact (Prod.mk.inj h).2.symm
  · cases h

/-- A text without separators is one token. -/
theorem strtok_plain (hne : tok ≠ []) (h : ∀ c ∈ tok, delim.contains c = false) :
    strtok delim tok = (some tok, []) := by
  cases tok with
  | nil => exact absurd rfl hne
  | cons c tok =>
    have hdrop : (c :: tok).dropWhile (fun c => delim.contains c) = c :: tok := by
      rw [List.dropWhile_cons, h c List.mem_cons_self, if_neg Bool.false_ne_true]
    have hrest : ∀ c ∈ tok, (!delim.contains c) = true := fun c hc => by
      rw [h c (List.mem_cons_of_mem _ hc)]
      rfl
    unfold strtok
    rw [hdrop]
    dsimp only
    rw [List.takeWhile_eq_self_iff.mpr hrest, List.dropWhile_eq_nil_iff.mpr hrest]
    rfl

/-- A word that a separator follows. -/
theorem strtok_word {c : UInt8} (hne : tok ≠ []) (h : ∀ c ∈ tok, delim.contains c = false)
    (hc : delim.contains c = true) : strtok delim (tok ++ c :: t) = (some tok, t) := by
  cases tok with
  | nil => exact absurd rfl hne
  | cons a tok =>
    have hdrop :
        (a :: tok ++ c :: t).dropWhile (fun c => delim.contains c) = a :: tok ++ c :: t := by
      rw [List.cons_append, List.dropWhile_cons, h a List.mem_cons_self, if_neg Bool.false_ne_true]
    have hword : ∀ c ∈ tok, (!delim.contains c) = true := fun c hc => by
      rw [h c (List.mem_cons_of_mem _ hc)]
      rfl
    unfold strtok
    rw [hdrop, List.cons_append]
    dsimp only
    rw [List.takeWhile_append_of_pos hword, List.dropWhile_append_of_pos hword, List.takeWhile_cons,
      List.dropWhile_cons, hc]
    simp

/-- A separator before a token is skipped. -/
theorem strtok_skip {c : UInt8} (hc : delim.contains c = true) :
    strtok delim (c :: t) = strtok delim t := by
  unfold strtok
  rw [List.dropWhile_cons, if_pos hc]

/-- Nothing is left of a text without separators. -/
theorem strtok_rest (h : ∀ c ∈ t, delim.contains c = false) : (strtok delim t).2 = [] := by
  cases t with
  | nil => rfl
  | cons c t => rw [strtok_plain (List.cons_ne_nil c t) h]

/-- After the last token there is none. -/
theorem tokenAt_eq_none (h : tokenAt delim n t = none) : ∀ m, n ≤ m → tokenAt delim m t = none := by
  intro m hm
  induction m, hm using Nat.le_induction with
  | base => exact h
  | succ m hm ih =>
    have hnil : afterTokens delim (m + 1) t = [] := strtok_none (Prod.ext ih rfl)
    rw [tokenAt, hnil]
    rfl

/-! ### Values that are not numbers -/

theorem magnitude_range {c : Converted CFloat} (h : magnitude t = some c) (hc : c.value = .nan) :
    c.range = false := by
  unfold magnitude at h
  split at h
  · cases h
    rfl
  · cases h
    rfl
  · cases h
    rfl
  · obtain ⟨⟨q, rest⟩, -, rfl⟩ := Option.map_eq_some_iff.mp h
    -- a rounded number is finite or an infinity
    exact absurd hc (roundFloat_ne_nan q)

theorem negate_eq_nan {x : CFloat} : negate x = .nan ↔ x = .nan := by
  cases x <;> simp [negate]

/-- What is not a number is not out of range. -/
theorem strtof_range_of_nan (h : (strtof t).value = .nan) : (strtof t).range = false := by
  unfold strtof at h ⊢
  generalize sign (t.dropWhile isSpace) = r at h ⊢
  obtain ⟨neg, u⟩ := r
  dsimp only at h ⊢
  cases hm : magnitude u with
  | none => rfl
  | some c =>
    rw [hm] at h
    cases neg with
    | false => exact magnitude_range hm h
    | true =>
      have hc : negate c.value = .nan := h
      exact magnitude_range (c := c) hm (negate_eq_nan.mp hc)

end Strto
