/-
The numbers that the parser checks.

A reader that consults `errno` accepts a number that is in range and has the
bounds that its caller asks for, and none at all when `ERANGE` is left over.
The first is said by a predicate of the token; the second is `Refuses`, but for
several numbers in a row, of which the missing ones are not checked.
-/
import Cagebreak.Parse

namespace Cagebreak

namespace Parse

open Strto Reader

variable {L : Libraries} {modes : List Text} {t str : Text} {s : Input} {α : Type}

/-! ### Numbers that are checked -/

/-- A number from one on, within the range of `long`. -/
def InRange (str : Text) : Prop := (strtol str).range = false ∧ 1 ≤ (strtol str).value

/-- A number that `parse_uint` accepts. -/
def IsUint (str : Text) : Prop :=
  (strtol str).range = false ∧ 0 ≤ (strtol str).value ∧ (strtol str).value ≤ intMax

/-- A number that `parse_float` accepts, other than the one that stands for an
invalid number. -/
def IsFloat (str : Text) : Prop :=
  (strtof str).range = false ∧ (strtof str).value ≠ .inf false ∧ (strtof str).value ≠ fltMin

/-- A number that is accepted where one above `0.01` is needed. -/
def IsPositive (str : Text) : Prop :=
  (strtof str).range = false ∧ (strtof str).value ≠ .inf false ∧
    (strtof str).value.le hundredth = false

/-- A number that is accepted as the part of a tile. -/
def IsPart (str : Text) : Prop :=
  (strtof str).range = false ∧ CFloat.le (.fin 1) (strtof str).value = false ∧
    (strtof str).value.le hundredth = false

/-- `true`, `false` or nothing. -/
def TakesFollow (t : Text) : Prop :=
  ∀ str, (strtok space t).1 = some str → str = ascii "true" ∨ str = ascii "false"

instance : Decidable (InRange str) := inferInstanceAs (Decidable (_ ∧ _))
instance : Decidable (IsUint str) := inferInstanceAs (Decidable (_ ∧ _))
instance : Decidable (IsFloat str) := inferInstanceAs (Decidable (_ ∧ _))
instance : Decidable (IsPositive str) := inferInstanceAs (Decidable (_ ∧ _))
instance : Decidable (IsPart str) := inferInstanceAs (Decidable (_ ∧ _))

/-! ### The readers of these numbers -/

theorem refuses_parseInRange (what : String) : Refuses (parseInRange what str) := by
  intro t
  rw [parseInRange, run_checked_erange, run_bind, run_failIf, if_pos (.inr rfl)]
  rfl

theorem run_parseInRange (what : String) :
    (parseInRange what str).run ⟨t, .clear⟩ =
      if InRange str then some ((strtol str).value, ⟨t, .clear⟩) else none := by
  rw [parseInRange, run_checked_clear, run_bind, run_failIf]
  by_cases h : InRange str
  · rw [if_pos h, h.1, if_neg (by simp only [not_or, not_lt]; exact ⟨h.2, Bool.false_ne_true⟩)]
    rfl
  · rw [if_neg h, if_pos]
    · rfl
    · rw [InRange, not_and_or, Bool.not_eq_false, not_le] at h
      exact h.symm

theorem accepts_parseInRange (what : String) (f : ℤ → Reader α) :
    Accepts (parseInRange what str >>= f) t ↔
      InRange str ∧ Accepts (f (strtol str).value) t := by
  unfold Accepts
  rw [run_bind, run_parseInRange]
  by_cases h : InRange str
  · rw [if_pos h, and_iff_right h]
    rfl
  · rw [if_neg h]
    exact iff_of_false (fun ⟨_, hr⟩ => nomatch hr) fun hf => h hf.1

/-- `parse_uint` of a token: -1 when `ERANGE` is left over. -/
theorem parseUint_erange (delim : Text) :
    (parseUint delim).run ⟨t, .erange⟩ = some (-1, ⟨(strtok delim t).2, .erange⟩) := by
  rw [parseUint, run_bind, run_token, Option.bind_some]
  cases (strtok delim t).1 with
  | none => rfl
  | some str =>
    dsimp only
    rw [run_checked_erange, if_neg fun h => Bool.noConfusion h.2.2]
    rfl

theorem parseUint_clear (delim : Text) :
    (parseUint delim).run ⟨t, .clear⟩ =
      match strtok delim t with
      | (none, u) => some (-1, ⟨u, .clear⟩)
      | (some str, u) => some (if IsUint str then ((strtol str).value) else -1,
          ⟨u, if (strtol str).range then .erange else .clear⟩) := by
  rw [parseUint, run_bind, run_token, Option.bind_some]
  cases strtok delim t with
  | mk tok u =>
    cases tok with
    | none => rfl
    | some str =>
      dsimp only
      rw [run_checked_clear]
      by_cases h : IsUint str
      · rw [if_pos ⟨h.2.1, h.2.2, h.1⟩]
        rw [if_pos h]
        rfl
      · rw [if_neg fun hc => h ⟨hc.2.2, hc.1, hc.2.1⟩]
        rw [if_neg h]
        rfl

theorem refuses_parseUintFrom {least : ℤ} (hleast : 0 ≤ least) (delim errstr : Text) :
    Refuses (parseUintFrom least delim errstr) := by
  intro t
  rw [parseUintFrom, run_bind, parseUint_erange, Option.bind_some, run_bind, run_failIf,
    if_pos (by omega)]
  rfl

theorem accepts_parseUintFrom {least : ℤ} (hleast : 0 ≤ least) (delim errstr : Text)
    (f : ℤ → Reader α) :
    Accepts (parseUintFrom least delim errstr >>= f) t ↔
      Next delim (fun str u => IsUint str ∧ least ≤ (strtol str).value ∧
        Accepts (f (strtol str).value) u) t := by
  unfold Accepts Next
  rw [parseUintFrom, run_bind, run_bind, parseUint_clear]
  cases strtok delim t with
  | mk tok u =>
    cases tok with
    | none =>
      rw [Option.bind_some, run_bind, run_failIf, if_pos (by omega)]
      exact iff_of_false (fun ⟨_, hr⟩ => nomatch hr) not_false
    | some str =>
      dsimp only
      rw [Option.bind_some, run_bind, run_failIf]
      by_cases h : IsUint str
      · rw [if_pos h, h.1, and_iff_right h]
        by_cases hn : (strtol str).value < least
        · rw [if_pos hn]
          exact iff_of_false (fun ⟨_, hr⟩ => nomatch hr) fun hf => absurd hf.1 (not_le.mpr hn)
        · rw [if_neg hn, and_iff_right (not_lt.mp hn)]
          rfl
      · rw [if_neg h, if_pos (by omega)]
        exact iff_of_false (fun ⟨_, hr⟩ => nomatch hr) fun hf => h hf.1

/-- `parse_float` of a token: the value for an invalid number when `ERANGE` is left
over. -/
theorem parseFloat_erange (delim : Text) :
    (parseFloat delim).run ⟨t, .erange⟩ =
      some (if (strtok delim t).1 = none then .fin (-1) else fltMin,
        ⟨(strtok delim t).2, .erange⟩) := by
  rw [parseFloat, run_bind, run_token, Option.bind_some]
  cases (strtok delim t).1 with
  | none => rfl
  | some str =>
    dsimp only
    rw [run_checked_erange, Bool.not_true, Bool.and_false, if_neg Bool.false_ne_true,
      if_neg (Option.some_ne_none str)]
    rfl

theorem parseFloat_clear (delim : Text) :
    (parseFloat delim).run ⟨t, .clear⟩ =
      match strtok delim t with
      | (none, u) => some (.fin (-1), ⟨u, .clear⟩)
      | (some str, u) =>
        some (if (strtof str).range = false ∧ (strtof str).value ≠ .inf false then
            (strtof str).value else fltMin,
          ⟨u, if (strtof str).range then .erange else .clear⟩) := by
  rw [parseFloat, run_bind, run_token, Option.bind_some]
  cases strtok delim t with
  | mk tok u =>
    cases tok with
    | none => rfl
    | some str =>
      dsimp only
      rw [run_checked_clear]
      have hinf : (strtof str).value.eq (.inf false) = true ↔ (strtof str).value = .inf false :=
        ⟨CFloat.eq_of_eq, fun h => by rw [h]; rfl⟩
      by_cases h : (strtof str).range = false ∧ (strtof str).value ≠ .inf false
      · rw [if_pos h, h.1, Bool.eq_false_iff.mpr fun hc => h.2 (hinf.mp hc)]
        rfl
      · rw [if_neg h, if_neg]
        · rfl
        · intro hc
          rw [Bool.and_eq_true, Bool.not_eq_true', Bool.not_eq_true', Bool.eq_false_iff] at hc
          exact h ⟨hc.2, fun hv => hc.1 (hinf.mpr hv)⟩

theorem fltMin_le_hundredth : CFloat.le fltMin hundredth = true := by
  simp only [fltMin, hundredth, CFloat.le, CFloat.lt, CFloat.eq, Bool.or_eq_true, decide_eq_true_eq]
  left
  norm_num

theorem neg_one_le_hundredth : CFloat.le (.fin (-1)) hundredth = true := by
  simp only [hundredth, CFloat.le, CFloat.lt, CFloat.eq, Bool.or_eq_true, decide_eq_true_eq]
  left
  norm_num

theorem neg_one_eq_fltMin : CFloat.eq (.fin (-1)) fltMin = false := by
  simp only [fltMin, CFloat.eq, decide_eq_false_iff_not, CFloat.fin.injEq]
  norm_num

theorem fltMin_eq : CFloat.eq fltMin fltMin = true := by
  simp only [fltMin, CFloat.eq, decide_true]

theorem refuses_parsePositive (errstr : Text) : Refuses (parsePositive errstr) := by
  intro t
  rw [parsePositive, run_bind, parseFloat_erange, Option.bind_some, run_bind, run_failIf, if_pos]
  · rfl
  · dsimp only
    split
    · exact neg_one_le_hundredth
    · exact fltMin_le_hundredth

theorem accepts_parsePositive (errstr : Text) (f : CFloat → Reader α) :
    Accepts (parsePositive errstr >>= f) t ↔
      Next space (fun str u => IsPositive str ∧ Accepts (f (strtof str).value) u) t := by
  unfold Accepts Next
  rw [parsePositive, run_bind, run_bind, parseFloat_clear]
  cases strtok space t with
  | mk tok u =>
    cases tok with
    | none =>
      rw [Option.bind_some, run_bind, run_failIf, if_pos neg_one_le_hundredth]
      exact iff_of_false (fun ⟨_, hr⟩ => nomatch hr) not_false
    | some str =>
      dsimp only
      rw [Option.bind_some, run_bind, run_failIf]
      by_cases h : (strtof str).range = false ∧ (strtof str).value ≠ .inf false
      · rw [if_pos h, h.1]
        cases hle : (strtof str).value.le hundredth with
        | true =>
          rw [if_pos rfl]
          exact iff_of_false (fun ⟨_, hr⟩ => nomatch hr) fun hf => by
            rw [hf.1.2.2] at hle
            cases hle
        | false =>
          rw [if_neg Bool.false_ne_true, and_iff_right ⟨h.1, h.2, hle⟩]
          rfl
      · rw [if_neg h, if_pos fltMin_le_hundredth]
        exact iff_of_false (fun ⟨_, hr⟩ => nomatch hr) fun hf => h ⟨hf.1.1, hf.1.2.1⟩

/-! ### Several numbers -/

/-- The text after `n` numbers that `parse_float` accepts; one that is missing
counts. -/
def afterFloats : ℕ → Text → Option Text
  | 0, t => some t
  | n + 1, t => (afterFloats n t).bind fun u =>
    match strtok space u with
    | (none, v) => some v
    | (some str, v) => if IsFloat str then some v else none

theorem run_parseFloats_succ (errstr : Text) (n : ℕ) :
    (parseFloats errstr (n + 1)).run s =
      ((parseFloats errstr n).run s).bind fun r => ((parseFloat space).run r.2).bind fun x =>
        if x.1.eq fltMin then none else some (r.1.push x.1, x.2) := by
  rw [parseFloats, run_bind]
  refine congrArg _ (funext fun r => ?_)
  rw [run_bind]
  refine congrArg _ (funext fun x => ?_)
  rw [run_bind, run_failIf]
  split <;> rfl

/-- With no number left all of them are missing, whatever `errno` is. -/
theorem parseFloats_none (errstr : Text) (h : (strtok space t).1 = none) (n : ℕ) :
    ∃ xs u, (strtok space u).1 = none ∧
      ∀ e, (parseFloats errstr n).run ⟨t, e⟩ = some (xs, ⟨u, e⟩) := by
  induction n with
  | zero => exact ⟨#v[], t, h, fun _ => rfl⟩
  | succ n ih =>
    obtain ⟨xs, u, hu, hrun⟩ := ih
    have hnil : (strtok space u).2 = [] := strtok_none (Prod.ext hu rfl)
    refine ⟨xs.push (.fin (-1)), [], rfl, fun e => ?_⟩
    have hfloat : (parseFloat space).run ⟨u, e⟩ = some (.fin (-1), ⟨[], e⟩) := by
      rw [parseFloat, run_bind, run_token, Option.bind_some, hu, hnil]
      rfl
    rw [run_parseFloats_succ, hrun, Option.bind_some, hfloat, Option.bind_some, neg_one_eq_fltMin,
      if_neg Bool.false_ne_true]

theorem parseFloats_erange (errstr : Text) (h : (strtok space t).1 ≠ none) (n : ℕ) :
    (parseFloats errstr (n + 1)).run ⟨t, .erange⟩ = none := by
  induction n with
  | zero =>
    rw [run_parseFloats_succ]
    show ((parseFloat space).run ⟨t, .erange⟩).bind _ = none
    rw [parseFloat_erange, if_neg h, Option.bind_some, if_pos fltMin_eq]
  | succ n ih =>
    rw [run_parseFloats_succ, ih]
    rfl

theorem parseFloats_clear (errstr : Text) (n : ℕ) :
    match afterFloats n t with
    | none => (parseFloats errstr n).run ⟨t, .clear⟩ = none
    | some u => ∃ xs, (parseFloats errstr n).run ⟨t, .clear⟩ = some (xs, ⟨u, .clear⟩) := by
  induction n with
  | zero => exact ⟨#v[], rfl⟩
  | succ n ih =>
    rw [afterFloats]
    cases hu : afterFloats n t with
    | none =>
      rw [hu] at ih
      rw [Option.bind_none, run_parseFloats_succ, ih]
      rfl
    | some u =>
      rw [hu] at ih
      obtain ⟨xs, hxs⟩ := ih
      rw [Option.bind_some, run_parseFloats_succ, hxs, Option.bind_some, parseFloat_clear]
      cases hv : strtok space u with
      | mk tok v =>
        cases tok with
        | none =>
          dsimp only
          rw [Option.bind_some, neg_one_eq_fltMin, if_neg Bool.false_ne_true]
          exact ⟨_, rfl⟩
        | some str =>
          dsimp only
          by_cases h : (strtof str).range = false ∧ (strtof str).value ≠ .inf false
          · rw [if_pos h, h.1, Option.bind_some]
            by_cases hmin : (strtof str).value = fltMin
            · rw [if_neg fun hf : IsFloat str => hf.2.2 hmin, hmin, if_pos fltMin_eq]
            · rw [if_pos ⟨h.1, h.2, hmin⟩, if_neg fun hc => hmin (CFloat.eq_of_eq hc)]
              exact ⟨_, rfl⟩
          · rw [if_neg h, if_neg fun hf : IsFloat str => h ⟨hf.1, hf.2.1⟩, Option.bind_some,
              if_pos fltMin_eq]

/-- The texts of which numbers are read differently: there is one, and all are
accepted. -/
def Floats (n : ℕ) (t : Text) : Prop :=
  (strtok space t).1 ≠ none ∧ afterFloats n t ≠ none

theorem differs_parseFloats (errstr : Text) (n : ℕ) :
    Differs (parseFloats errstr (n + 1)) t ↔ Floats (n + 1) t := by
  by_cases h : (strtok space t).1 = none
  · obtain ⟨xs, u, -, hrun⟩ := parseFloats_none errstr h (n + 1)
    refine iff_of_false ?_ fun hf => hf.1 h
    rw [Differs, result, result, hrun, hrun]
    exact fun hne => hne rfl
  · rw [Floats, and_iff_right h, Differs, result, result, parseFloats_erange errstr h]
    have hclear := @parseFloats_clear t errstr (n + 1)
    cases hu : afterFloats (n + 1) t with
    | none =>
      rw [hu] at hclear
      rw [hclear]
      exact iff_of_false (fun hne => hne rfl) fun hne => hne rfl
    | some u =>
      rw [hu] at hclear
      obtain ⟨xs, hxs⟩ := hclear
      rw [hxs]
      exact iff_of_true (Option.some_ne_none _).symm (Option.some_ne_none u)

end Parse

end Cagebreak
