/-
Formatted output.

`format` is what the functions of the `printf` family make of a format and its
arguments.  A conversion that is unknown, or whose argument is missing or of
another type, is undefined behaviour.

* `format_plain` — a format without `%` is copied;
* `format_nil_eq_ok` — without arguments, only such a format is.
-/
import Cagebreak.Lib.Exec
import Cagebreak.Lib.CFloat
import Cagebreak.Lib.Text
import Mathlib.Algebra.Order.Floor.Defs
import Mathlib.Data.Nat.Digits.Lemmas
import Mathlib.Data.Rat.Floor

/-- An argument of `printf`. -/
inductive PrintArg
  | int (n : ℤ)
  | str (s : Text)
  | double (x : CFloat)

namespace Printf

open Exec

/-- `'%'`. -/
def percent : UInt8 := 37

def digit (d : ℕ) : UInt8 := (48 + d).toUInt8

/-- A number in decimal notation. -/
def natural (n : ℕ) : Text := if n = 0 then [48] else (Nat.digits 10 n).reverse.map digit

/-- `%d`. -/
def decimal : ℤ → Text
  | .ofNat n => natural n
  | .negSucc n => 45 :: natural (n + 1)

/-- The nearest number, the even one of two. -/
def roundEven (q : ℚ) : ℕ :=
  let n := q.floor.toNat
  if q - n < 1 / 2 then n
  else if 1 / 2 < q - n then n + 1
  else n + n % 2

/-- `k` digits. -/
def digits : ℕ → ℕ → Text
  | 0, _ => []
  | k + 1, n => digits k (n / 10) ++ [digit (n % 10)]

/-- `%f`, with six decimals.  A zero has no sign here. -/
def fixed : CFloat → Text
  | .fin q =>
    let n := roundEven (|q| * 10 ^ 6)
    (if q < 0 then [45] else []) ++ natural (n / 10 ^ 6) ++ 46 :: digits 6 n
  | .inf neg => if neg then ascii "-inf" else ascii "inf"
  | .nan => ascii "nan"

/-- The text of the conversion `c`, and the arguments that are left. -/
def conversion (c : UInt8) : List PrintArg → Option (Text × List PrintArg)
  | .int n :: args => if c = 100 then some (decimal n, args) else none
  | .str s :: args => if c = 115 then some (s, args) else none
  | .double x :: args => if c = 102 then some (fixed x, args) else none
  | [] => none

/-- The text from some place of a format on; `spec` says that this place is
after a `%`. -/
def formatFrom (spec : Bool) : Text → List PrintArg → Exec Text
  | [], _ => if spec then .error .undefined else .ok []
  | c :: t, args =>
    if spec then
      if c = percent then do
        let r ← formatFrom false t args
        .ok (percent :: r)
      else match conversion c args with
        | none => .error .undefined
        | some (s, args) => do
          let r ← formatFrom false t args
          .ok (s ++ r)
    else if c = percent then formatFrom true t args
    else do
      let r ← formatFrom false t args
      .ok (c :: r)

/-- `vsnprintf`. -/
def format (fmt : Text) (args : List PrintArg) : Exec Text := formatFrom false fmt args

variable {t u y : Text} {c : UInt8} {args : List PrintArg}

/-! ### Copying -/

theorem format_cons (hc : c ≠ percent) :
    format (c :: t) args = (do let r ← format t args; .ok (c :: r)) := by
  rw [format, formatFrom, if_neg Bool.false_ne_true, if_neg hc]
  rfl

/-- What precedes the first `%` is copied. -/
theorem format_append (ht : percent ∉ t) :
    format (t ++ u) args = (do let r ← format u args; .ok (t ++ r)) := by
  induction t with
  | nil =>
    show format u args = _
    cases format u args <;> rfl
  | cons c t ih =>
    obtain ⟨hc, ht⟩ := List.ne_and_not_mem_of_not_mem_cons ht
    rw [List.cons_append, format_cons hc.symm, ih ht]
    cases format u args <;> rfl

theorem format_plain (ht : percent ∉ t) : format t args = .ok t := by
  have h := @format_append t [] args ht
  rw [List.append_nil] at h
  rw [h]
  show Except.ok (t ++ []) = _
  rw [List.append_nil]

theorem format_cons_eq_ok (hc : c ≠ percent) :
    format (c :: t) args = .ok y ↔ ∃ r, y = c :: r ∧ format t args = .ok r := by
  rw [format_cons hc, bind_eq_ok]
  constructor
  · rintro ⟨r, hr, hy⟩
    exact ⟨r, (Except.ok.inj hy).symm, hr⟩
  · rintro ⟨r, rfl, hr⟩
    exact ⟨r, hr, rfl⟩

/-! ### Without arguments -/

/-- Without arguments there is only `%%`. -/
theorem formatFrom_true_nil (h : formatFrom true t [] = .ok y) :
    ∃ t' r, t = percent :: t' ∧ format t' [] = .ok r ∧ y = percent :: r := by
  cases t with
  | nil => cases h
  | cons c t =>
    rw [formatFrom, if_pos rfl] at h
    by_cases hc : c = percent
    · subst hc
      rw [if_pos rfl] at h
      obtain ⟨r, hr, hy⟩ := bind_eq_ok.mp h
      exact ⟨t, r, rfl, hr, (Except.ok.inj hy).symm⟩
    · rw [if_neg hc] at h
      cases h

theorem format_percent_nil (h : format (percent :: t) [] = .ok y) :
    ∃ t' r, t = percent :: t' ∧ format t' [] = .ok r ∧ y = percent :: r :=
  formatFrom_true_nil h

/-- The text does not get longer. -/
theorem length_format_nil (t : Text) :
    ∀ {y : Text}, format t [] = .ok y → y.length ≤ t.length ∧
    (percent ∈ t → y.length < t.length) := by
  induction h : t.length using Nat.strong_induction_on generalizing t with
  | _ n ih =>
    subst h
    intro y hy
    cases t with
    | nil =>
      cases hy
      exact ⟨Nat.le_refl _, by simp⟩
    | cons c t =>
      by_cases hc : c = percent
      · subst hc
        obtain ⟨t', r, rfl, hr, rfl⟩ := format_percent_nil hy
        obtain ⟨hle, -⟩ := ih t'.length (by simp) t' rfl hr
        simp only [List.length_cons]
        omega
      · obtain ⟨r, rfl, hr⟩ := (format_cons_eq_ok hc).mp hy
        obtain ⟨hle, hlt⟩ := ih t.length (by simp) t rfl hr
        simp only [List.length_cons]
        refine ⟨by omega, fun hmem => ?_⟩
        have hlt := hlt ((List.mem_cons.mp hmem).resolve_left fun he => hc he.symm)
        omega

/-- **Without arguments, a text is copied only if it has no `%`.** -/
theorem format_nil_eq_ok : format t [] = .ok t ↔ percent ∉ t := by
  constructor
  · intro h hmem
    exact Nat.lt_irrefl _ ((length_format_nil t h).2 hmem)
  · intro h
    exact format_plain h

/-! ### The texts of numbers -/

def IsDigit (c : UInt8) : Prop := 48 ≤ c ∧ c ≤ 57

instance : DecidablePred IsDigit := fun c => inferInstanceAs (Decidable (48 ≤ c ∧ c ≤ 57))

theorem isDigit_digit : ∀ {d : ℕ}, d < 10 → IsDigit (digit d) := by decide

theorem digit_ne_zero : ∀ {d : ℕ}, d < 10 → d ≠ 0 → digit d ≠ 48 := by decide

theorem natural_ne_nil (n : ℕ) : natural n ≠ [] := by
  rw [natural]
  by_cases hn : n = 0
  · rw [if_pos hn]
    exact List.cons_ne_nil _ _
  · rw [if_neg hn]
    intro h
    rw [List.map_eq_nil_iff, List.reverse_eq_nil_iff] at h
    exact Nat.digits_ne_nil_iff_ne_zero.mpr hn h

theorem isDigit_of_mem_natural {n : ℕ} (h : c ∈ natural n) : IsDigit c := by
  rw [natural] at h
  by_cases hn : n = 0
  · rw [if_pos hn, List.mem_singleton] at h
    subst h
    decide
  · rw [if_neg hn] at h
    obtain ⟨d, hd, rfl⟩ := List.mem_map.mp h
    exact isDigit_digit (Nat.digits_lt_base (by decide) (List.mem_reverse.mp hd))

/-- No other number than zero begins with a zero. -/
theorem head_natural {n : ℕ} (h : (natural n).head? = some 48) : natural n = [48] := by
  by_cases hn : n = 0
  · rw [natural, if_pos hn]
  · exfalso
    rw [natural, if_neg hn, List.head?_map, List.head?_reverse] at h
    obtain ⟨d, hd, hzero⟩ := Option.map_eq_some_iff.mp h
    have hne : Nat.digits 10 n ≠ [] := Nat.digits_ne_nil_iff_ne_zero.mpr hn
    rw [List.getLast?_eq_some_getLast hne] at hd
    refine digit_ne_zero (d := d) ?_ ?_ hzero
    · rw [← Option.some.inj hd]
      exact Nat.digits_lt_base (by decide) (List.getLast_mem hne)
    · rw [← Option.some.inj hd]
      exact Nat.getLast_digit_ne_zero 10 hn

theorem isDigit_of_mem_digits {k n : ℕ} (h : c ∈ digits k n) : IsDigit c := by
  induction k generalizing n with
  | zero => cases h
  | succ k ih =>
    rw [digits, List.mem_append, List.mem_singleton] at h
    obtain h | rfl := h
    · exact ih h
    · exact isDigit_digit (Nat.mod_lt _ (by decide))

/-- What the texts of numbers are made of. -/
def IsNumeric (c : UInt8) : Prop := IsDigit c ∨ c ∈ ascii "-.infa"

instance : DecidablePred IsNumeric := fun c =>
  inferInstanceAs (Decidable (IsDigit c ∨ c ∈ ascii "-.infa"))

theorem isNumeric_of_mem_decimal {n : ℤ} (h : c ∈ decimal n) : IsNumeric c := by
  cases n with
  | ofNat n => exact .inl (isDigit_of_mem_natural h)
  | negSucc n =>
    obtain rfl | h := List.mem_cons.mp h
    · decide
    · exact .inl (isDigit_of_mem_natural h)

theorem isNumeric_of_mem_fixed {x : CFloat} (h : c ∈ fixed x) : IsNumeric c := by
  cases x with
  | fin q =>
    simp only [fixed, List.append_assoc, List.mem_append, List.mem_cons] at h
    obtain h | h | rfl | h := h
    · by_cases hq : q < 0
      · rw [if_pos hq, List.mem_singleton] at h
        subst h
        decide
      · rw [if_neg hq] at h
        cases h
    · exact .inl (isDigit_of_mem_natural h)
    · decide
    · exact .inl (isDigit_of_mem_digits h)
  | inf neg =>
    have hall : ∀ c ∈ fixed (.inf neg), IsNumeric c := by cases neg <;> decide
    exact hall c h
  | nan =>
    have hall : ∀ c ∈ fixed .nan, IsNumeric c := by decide
    exact hall c h

theorem not_isNumeric_percent : ¬ IsNumeric percent := by decide

theorem not_isNumeric_zero : ¬ IsNumeric 0 := by decide

theorem length_natural_le {n k : ℕ} (hk : 0 < k) (h : n < 10 ^ k) : (natural n).length ≤ k := by
  rw [natural]
  split
  · exact hk
  · rw [List.length_map, List.length_reverse]
    exact (Nat.digits_length_le_iff (by omega) n).mpr h

/-- A number of at most `k` digits. -/
theorem length_decimal_le {n : ℤ} {k : ℕ} (hk : 0 < k) (h : n.natAbs < 10 ^ k) :
    (decimal n).length ≤ k + 1 := by
  cases n with
  | ofNat n =>
    have := length_natural_le (n := n) hk h
    show (natural n).length ≤ k + 1
    omega
  | negSucc n =>
    have := length_natural_le (n := n + 1) hk h
    show (natural (n + 1)).length + 1 ≤ k + 1
    omega

theorem percent_notMem_decimal (n : ℤ) : percent ∉ decimal n := fun h =>
  not_isNumeric_percent (isNumeric_of_mem_decimal h)

theorem percent_notMem_fixed (x : CFloat) : percent ∉ fixed x := fun h =>
  not_isNumeric_percent (isNumeric_of_mem_fixed h)

/-! ### The texts that are printed -/

/-- The strings among the arguments. -/
def strings : List PrintArg → List Text
  | [] => []
  | .str s :: args => s :: strings args
  | _ :: args => strings args

/-- One of the texts has a `%`. -/
def Marked (l : List Text) : Prop := ∃ s ∈ l, percent ∈ s

@[simp] theorem marked_nil : ¬ Marked [] := by
  rintro ⟨s, hs, -⟩
  cases hs

@[simp] theorem marked_cons {s : Text} {l : List Text} :
    Marked (s :: l) ↔ percent ∈ s ∨ Marked l := by
  simp [Marked]

@[simp] theorem marked_append {l l' : List Text} :
    Marked (l ++ l') ↔ Marked l ∨ Marked l' := by
  simp only [Marked, List.mem_append]
  constructor
  · rintro ⟨s, hs | hs, h⟩
    · exact Or.inl ⟨s, hs, h⟩
    · exact Or.inr ⟨s, hs, h⟩
  · rintro (⟨s, hs, h⟩ | ⟨s, hs, h⟩)
    · exact ⟨s, Or.inl hs, h⟩
    · exact ⟨s, Or.inr hs, h⟩

inductive Kind
  | int
  | str
  | double

def kind : PrintArg → Kind
  | .int _ => .int
  | .str _ => .str
  | .double _ => .double

/-- The conversion for an argument. -/
def specifier : Kind → UInt8
  | .int => 100
  | .str => 115
  | .double => 102

/-- From some place on, the conversions are those for arguments of these kinds,
and there is no `%%`. -/
def fitsFrom (spec : Bool) : Text → List Kind → Bool
  | [], kinds => !spec && kinds.isEmpty
  | c :: t, kinds =>
    if spec then decide (kinds.head?.map specifier = some c) && fitsFrom false t kinds.tail
    else if c = percent then fitsFrom true t kinds
    else fitsFrom false t kinds

/-- The format is one for arguments of these kinds. -/
def fits (fmt : Text) (kinds : List Kind) : Bool := fitsFrom false fmt kinds

theorem specifier_ne_percent (k : Kind) : specifier k ≠ percent := by
  cases k <;> decide

/-- The conversion for an argument prints it. -/
theorem conversion_specifier (a : PrintArg) : ∃ s,
    conversion (specifier (kind a)) (a :: args) = some (s, args) ∧
    (Marked (strings (a :: args)) ↔ percent ∈ s ∨ Marked (strings args)) := by
  cases a with
  | int n => exact ⟨decimal n, rfl, by simp [strings, percent_notMem_decimal]⟩
  | str s => exact ⟨s, rfl, by simp [strings]⟩
  | double x => exact ⟨fixed x, rfl, by simp [strings, percent_notMem_fixed]⟩

theorem formatFrom_fits {spec : Bool} (h : fitsFrom spec t (args.map kind) = true) :
    Gives (formatFrom spec t args) fun y => percent ∈ y ↔ Marked (strings args) := by
  induction t generalizing spec args with
  | nil =>
    rw [fitsFrom, Bool.and_eq_true, Bool.not_eq_true', List.isEmpty_iff, List.map_eq_nil_iff] at h
    obtain ⟨rfl, rfl⟩ := h
    exact Gives.ok (by simp [strings])
  | cons c t ih =>
    rw [fitsFrom] at h
    rw [formatFrom]
    cases spec with
    | true =>
      rw [if_pos rfl] at h ⊢
      cases args with
      | nil => cases h
      | cons a args =>
        rw [Bool.and_eq_true, decide_eq_true_eq] at h
        obtain ⟨hc, hfits⟩ := h
        obtain rfl := Option.some.inj hc
        obtain ⟨s, hconv, hmark⟩ := @conversion_specifier args a
        rw [if_neg (specifier_ne_percent _), hconv]
        refine Gives.bind (ih hfits) fun r hr => Gives.ok ?_
        rw [List.mem_append, hmark, hr]
    | false =>
      rw [if_neg Bool.false_ne_true] at h ⊢
      by_cases hc : c = percent
      · rw [if_pos hc] at h ⊢
        exact ih h
      · rw [if_neg hc] at h ⊢
        refine Gives.bind (ih h) fun r hr => Gives.ok ?_
        rw [List.mem_cons, ← hr]
        exact or_iff_right fun he => hc he.symm

/-- **A format that fits its arguments** gives a text, and what has a `%` there
comes from the strings among them. -/
theorem format_fits (h : fits t (args.map kind) = true) :
    Gives (format t args) fun y => percent ∈ y ↔ Marked (strings args) :=
  formatFrom_fits h

/-! ### Strings of C -/

theorem conversion_noNul {args' : List PrintArg} {s : Text}
    (h : conversion c args = some (s, args')) (hs : ∀ s ∈ strings args, 0 ∉ s) :
    0 ∉ s ∧ ∀ s ∈ strings args', 0 ∉ s := by
  cases args with
  | nil => cases h
  | cons a args =>
    cases a with
    | int n =>
      by_cases hc : c = 100
      · rw [conversion, if_pos hc] at h
        cases h
        exact ⟨fun hmem => not_isNumeric_zero (isNumeric_of_mem_decimal hmem), hs⟩
      · rw [conversion, if_neg hc] at h
        cases h
    | str t =>
      by_cases hc : c = 115
      · rw [conversion, if_pos hc] at h
        cases h
        exact List.forall_mem_cons.mp hs
      · rw [conversion, if_neg hc] at h
        cases h
    | double x =>
      by_cases hc : c = 102
      · rw [conversion, if_pos hc] at h
        cases h
        exact ⟨fun hmem => not_isNumeric_zero (isNumeric_of_mem_fixed hmem), hs⟩
      · rw [conversion, if_neg hc] at h
        cases h

theorem formatFrom_noNul {spec : Bool} (h : formatFrom spec t args = .ok y) (h0 : 0 ∉ t)
    (hs : ∀ s ∈ strings args, 0 ∉ s) : 0 ∉ y := by
  induction t generalizing spec args y with
  | nil =>
    cases spec with
    | true => cases h
    | false =>
      cases h
      exact List.not_mem_nil
  | cons c t ih =>
    rw [List.mem_cons, not_or] at h0
    rw [formatFrom] at h
    by_cases hspec : spec = true
    · rw [if_pos hspec] at h
      by_cases hc : c = percent
      · rw [if_pos hc] at h
        obtain ⟨r, hr, hy⟩ := bind_eq_ok.mp h
        obtain rfl := Except.ok.inj hy
        rw [List.mem_cons, not_or]
        exact ⟨by decide, ih hr h0.2 hs⟩
      · rw [if_neg hc] at h
        cases hconv : conversion c args with
        | none =>
          rw [hconv] at h
          cases h
        | some q =>
          rw [hconv] at h
          obtain ⟨r, hr, hy⟩ := bind_eq_ok.mp h
          obtain rfl := Except.ok.inj hy
          obtain ⟨hq, hargs⟩ := conversion_noNul hconv hs
          rw [List.mem_append, not_or]
          exact ⟨hq, ih hr h0.2 hargs⟩
    · rw [if_neg hspec] at h
      by_cases hc : c = percent
      · rw [if_pos hc] at h
        exact ih h h0.2 hs
      · rw [if_neg hc] at h
        obtain ⟨r, hr, hy⟩ := bind_eq_ok.mp h
        obtain rfl := Except.ok.inj hy
        rw [List.mem_cons, not_or]
        exact ⟨h0.1, ih hr h0.2 hs⟩

/-- **A text that is printed** is a string if the format and the arguments are. -/
theorem format_noNul (h : format t args = .ok y) (h0 : 0 ∉ t)
    (hs : ∀ s ∈ strings args, 0 ∉ s) : 0 ∉ y :=
  formatFrom_noNul h h0 hs

end Printf
