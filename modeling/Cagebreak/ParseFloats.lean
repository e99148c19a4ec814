/-
The floating point arguments of commands (`parse.c`), and what is computed with them
(`keybinding_split_output`, `output_set_mode`).

`parse_float` reports a missing number and an invalid one by two numbers, of which its
callers test one.  Not a number is what no comparison rejects.

* `missingFloats_iff` — when a line with too few numbers is rejected;
* `floatsChecked_iff` — the tokens for which the checks of the parser do what they
  are there for.
-/
import Cagebreak.Lib.FloatArith
import Cagebreak.ParseLines
import Cagebreak.ParseNumbers

namespace Cagebreak

namespace Parse

open Strto Reader

variable {L : Libraries} {modes : List Text} {t u str : Text} {e : Errno} {n : ℕ}

/-! ### Missing numbers -/

/-- A number that `parse_float` reads and that its caller takes. -/
def Taken (e : Errno) (str : Text) : Prop := e = .clear ∧ IsFloat str

/-- What its caller makes of one number: nothing if there is one that it does not take. -/
theorem parseFloat_spec : ∃ x e',
    (parseFloat space).run ⟨t, e⟩ = some (x, ⟨(strtok space t).2, e'⟩) ∧
    (x.eq fltMin = true ↔ ∃ str, (strtok space t).1 = some str ∧ ¬Taken e str) ∧
    (x.eq fltMin = false → e' = e) := by
  cases e with
  | erange =>
    refine ⟨_, _, parseFloat_erange space, ?_, fun _ => rfl⟩
    cases (strtok space t).1 with
    | none => simp [neg_one_eq_fltMin]
    | some str => simp [fltMin_eq, Taken]
  | clear =>
    have hrun := @parseFloat_clear t space
    cases hv : strtok space t with
    | mk tok v =>
      rw [hv] at hrun
      cases tok with
      | none => exact ⟨_, _, hrun, by simp [neg_one_eq_fltMin], fun _ => rfl⟩
      | some str =>
        refine ⟨_, _, hrun, ?_, ?_⟩
        · simp only [Option.some.injEq, exists_eq_left', Taken, true_and]
          by_cases h : (strtof str).range = false ∧ (strtof str).value ≠ .inf false
          · rw [if_pos h]
            constructor
            · exact fun heq hf => hf.2.2 (CFloat.eq_of_eq heq)
            · intro hnot
              have hval : (strtof str).value = fltMin := by
                by_contra hne
                exact hnot ⟨h.1, h.2, hne⟩
              rw [hval, fltMin_eq]
          · rw [if_neg h]
            exact iff_of_true fltMin_eq fun hf => h ⟨hf.1, hf.2.1⟩
        · intro heq
          cases hrange : (strtof str).range with
          | false => rfl
          | true =>
            rw [if_neg (fun h => by rw [hrange] at h; exact absurd h.1 (by simp)), fltMin_eq] at heq
            cases heq

/-- **Several numbers.**  They are read, the missing ones too, unless one of those that
are there is not taken. -/
theorem run_parseFloats {errstr : Text} :
    ((∃ i < n, ∃ str, tokenAt space i t = some str ∧ ¬Taken e str) →
      (parseFloats errstr n).run ⟨t, e⟩ = none) ∧
    ((∀ i < n, ∀ str, tokenAt space i t = some str → Taken e str) →
      ∃ xs, (parseFloats errstr n).run ⟨t, e⟩ = some (xs, ⟨afterTokens space n t, e⟩)) := by
  induction n with
  | zero => exact ⟨fun ⟨_, hi, _⟩ => absurd hi (Nat.not_lt_zero _), fun _ => ⟨#v[], rfl⟩⟩
  | succ n ih =>
    obtain ⟨x, e', hx, hbad, herrno⟩ := @parseFloat_spec (afterTokens space n t) e
    rw [run_parseFloats_succ]
    constructor
    · rintro ⟨i, hi, str, htok, hnot⟩
      by_cases hprev : ∃ i < n, ∃ str, tokenAt space i t = some str ∧ ¬Taken e str
      · rw [ih.1 hprev]
        rfl
      · push Not at hprev
        obtain ⟨xs, hxs⟩ := ih.2 hprev
        have hin : i = n := by
          by_contra hne
          exact hnot (hprev i (by omega) str htok)
        subst hin
        rw [hxs, Option.bind_some, hx, Option.bind_some, if_pos (hbad.mpr ⟨str, htok, hnot⟩)]
    · intro hall
      obtain ⟨xs, hxs⟩ := ih.2 fun i hi => hall i (Nat.lt_succ_of_lt hi)
      have hgood : x.eq fltMin = false := by
        rw [Bool.eq_false_iff]
        intro heq
        obtain ⟨str, htok, hnot⟩ := hbad.mp heq
        exact hnot (hall n (Nat.lt_succ_self n) str htok)
      rw [hxs, Option.bind_some, hx, Option.bind_some, if_neg (by simp [hgood]), herrno hgood]
      exact ⟨_, rfl⟩

/-! ### Commands with floating point arguments -/

/-- How many floating point arguments a command requires, and the text that they are
read from. -/
def floatArguments (t : Text) : Option (ℕ × Text) :=
  if tokenAt space 0 t = some (ascii "input") then
    if tokenAt space 2 t = some (ascii "calibration_matrix") then some (6, afterTokens space 3 t)
    else if tokenAt space 2 t = some (ascii "pointer_accel") ∨
        tokenAt space 2 t = some (ascii "scroll_factor") then
      some (1, afterTokens space 3 t)
    else none
  else if tokenAt space 0 t = some (ascii "configure_message") then
    if tokenAt space 1 t = some (ascii "bg_color") ∨
      tokenAt space 1 t = some (ascii "fg_color") then
      some (4, afterTokens space 2 t)
    else none
  else none

theorem map_parseFloats_eq_none {β : Type} {errstr : Text} {f : Vector CFloat n → β} :
    (do let xs ← parseFloats errstr n; pure (f xs)).result t e = none ↔
      ∃ i < n, ∃ str, tokenAt space i t = some str ∧ ¬Taken e str := by
  rw [result_map, Option.map_eq_none_iff, result, Option.map_eq_none_iff]
  constructor
  · intro hnone
    by_contra hall
    push Not at hall
    obtain ⟨xs, hxs⟩ := run_parseFloats.2 hall
    rw [hxs] at hnone
    cases hnone
  · exact run_parseFloats.1

theorem parseInputConfig_result {ident setting : Text}
    (hident : (strtok space t).1 = some ident)
    (hsetting : (strtok space (strtok space t).2).1 = some setting) :
    (parseInputConfig L).result t e =
      (parseInputSetting L setting (afterTokens space 2 t)
        { emptyInputConfig with identifier := some ident }).result (afterTokens space 2 t) e := by
  rw [parseInputConfig, require_result (Prod.ext hident rfl),
    require_result (Prod.ext hsetting rfl)]
  rfl

/-- A command that requires floating point arguments is rejected if and only if one of
those that are there is not taken. -/
theorem floatArguments_result {room k : ℕ} (h : floatArguments t = some (k, u)) :
    (command L modes (room + 1)).result t e = none ↔
      ∃ i < k, ∃ str, tokenAt space i u = some str ∧ ¬Taken e str := by
  unfold floatArguments at h
  split at h
  · next hinput =>
    have hbranch : branchOf (ascii "input") = some .input := rfl
    have hword : strtok space t = (some (ascii "input"), afterTokens space 1 t) :=
      Prod.ext hinput rfl
    rw [command_result hword hbranch]
    have hmap : (parseBranch L modes (command L modes room) .input).result (afterTokens space 1 t) e
        = none ↔ (parseInputConfig L).result (afterTokens space 1 t) e = none := by
      rw [parseBranch, result_map, Option.map_eq_none_iff]
    rw [hmap]
    -- a setting comes after an identifier
    have hident : tokenAt space 2 t ≠ none → ∃ ident, tokenAt space 1 t = some ident := by
      intro hne
      refine Option.ne_none_iff_exists'.mp fun hnone => hne ?_
      exact tokenAt_eq_none hnone 2 (Nat.le_succ 1)
    split at h
    · next hmatrix =>
      obtain ⟨ident, hident⟩ := hident (by rw [hmatrix]; exact Option.some_ne_none _)
      cases h
      rw [parseInputConfig_result hident hmatrix]
      exact map_parseFloats_eq_none
    · split at h
      · next hfloat =>
        obtain hfloat | hfloat := hfloat
        · obtain ⟨ident, hident⟩ := hident (by rw [hfloat]; exact Option.some_ne_none _)
          cases h
          rw [parseInputConfig_result hident hfloat]
          exact map_parseFloats_eq_none
        · obtain ⟨ident, hident⟩ := hident (by rw [hfloat]; exact Option.some_ne_none _)
          cases h
          rw [parseInputConfig_result hident hfloat]
          exact map_parseFloats_eq_none
      · cases h
  · split at h
    · next hmessage =>
      have hbranch : branchOf (ascii "configure_message") = some .configureMessage := rfl
      have hword : strtok space t = (some (ascii "configure_message"), afterTokens space 1 t) :=
        Prod.ext hmessage rfl
      rw [command_result hword hbranch]
      have hmap : (parseBranch L modes (command L modes room) .configureMessage).result
          (afterTokens space 1 t) e = none ↔
          parseMessageConfig.result (afterTokens space 1 t) e = none := by
        rw [parseBranch, result_map, Option.map_eq_none_iff]
      rw [hmap, parseMessageConfig]
      split at h
      · next hcolor =>
        obtain hcolor | hcolor := hcolor
        · cases h
          rw [require_result (Prod.ext hcolor rfl)]
          exact map_parseFloats_eq_none
        · cases h
          rw [require_result (Prod.ext hcolor rfl)]
          exact map_parseFloats_eq_none
      · cases h
    · cases h

/-- A line with fewer numbers than its command requires is rejected. -/
def ShortRejected (L : Libraries) (modes : List Text) (room : ℕ) (t : Text) (e : Errno) : Prop :=
  ∀ k u, floatArguments t = some (k, u) → tokenAt space (k - 1) u = none →
    (command L modes (room + 1)).result t e = none

/-- **Missing numbers.**  A line with too few numbers is rejected if and only if one of
those that it has is invalid, or `ERANGE` is left over and it has one. -/
theorem missingFloats_iff {room : ℕ} : ShortRejected L modes room t e ↔
    ∀ k u, floatArguments t = some (k, u) → tokenAt space (k - 1) u = none →
      ∃ i str, tokenAt space i u = some str ∧ ¬Taken e str := by
  refine forall_congr' fun k => forall_congr' fun u => forall_congr' fun h => ?_
  refine forall_congr' fun hshort => ?_
  rw [floatArguments_result h]
  constructor
  · rintro ⟨i, -, str, htok, hnot⟩
    exact ⟨i, str, htok, hnot⟩
  · rintro ⟨i, str, htok, hnot⟩
    refine ⟨i, ?_, str, htok, hnot⟩
    by_contra hle
    rw [tokenAt_eq_none hshort i (by omega)] at htok
    cases htok

/-- `input mouse pointer_accel` is accepted. -/
theorem missingFloats_accepted : ¬ShortRejected ⟨fun _ => 0, fun _ => -1, fun _ => none⟩ [] 48
    (ascii "input mouse pointer_accel") .clear := by
  intro h
  have hargs : floatArguments (ascii "input mouse pointer_accel") = some (1, []) := by decide
  obtain ⟨i, -, str, htok, -⟩ := (floatArguments_result hargs).mp (h 1 [] hargs (by decide))
  rw [tokenAt_eq_none (n := 0) (by decide) i (Nat.zero_le i)] at htok
  cases htok

/-! ### Checked numbers -/

/-- The product that `keybinding_split_output` converts to `int`. -/
def splitProduct (size : ℤ) (percentage : CFloat) : CFloat := .mul (.ofInt size) percentage

/-- The product that `output_set_mode` converts to `int`. -/
def modeProduct (refreshRate : CFloat) : CFloat :=
  let millihertz := CFloat.mul refreshRate (.ofInt 1000)
  if CFloat.lt (.ofInt intMax) millihertz || millihertz.lt (.fin 0) then
    .mul (.fin 0) (.ofInt 1000)
  else millihertz

/-- A percentage of a tile. -/
def IsShare (x : CFloat) : Prop := ∃ q, x = .fin q ∧ 1 / 100 < q ∧ q < 1

/-- A component of a colour. -/
def IsIntensity (x : CFloat) : Prop := ∃ q, x = .fin q ∧ 0 ≤ q ∧ q ≤ 1

/-- A scale or a refresh rate. -/
def IsPositiveFloat (x : CFloat) : Prop := ∃ q, x = .fin q ∧ 1 / 100 < q

/-- The separators of `parse_background`. -/
def blanks : Text := ascii " \n"

/-- The text that the refresh rate is read from, after the position and the size. -/
def rateArgument (t : Text) : Option Text :=
  tokenAt space 2 (afterTokens (ascii "x") 1 (afterTokens space 5 t))

/-- A word without separators. -/
structure Token where
  text : Text
  nonempty : text ≠ []
  plain : ∀ c ∈ text, c ≠ 32 ∧ c ≠ 10

/-- What is accepted for a token is what the checks are there for, and no product that is
not finite is converted. -/
structure FloatsChecked (tok : Token) : Prop where
  split : ∀ t e action p, tokenAt space 0 t = some tok.text →
    (parseSplit action).result t e = some (action, .f p) →
    IsShare p ∧ ∀ size : ℤ, |size| ≤ 2 ^ 31 → (splitProduct size p).IsFinite
  background : ∀ t e xs (i : Fin 3), tokenAt blanks i t = some tok.text →
    parseBackground.result t e = some xs → IsIntensity xs[i]
  scale : ∀ t e cfg, tokenAt space 1 t = some (ascii "scale") → tokenAt space 2 t = some tok.text →
    parseOutputConfig.result t e = some cfg → IsPositiveFloat cfg.scale
  rate : ∀ t e cfg, tokenAt space 1 t = some (ascii "pos") → rateArgument t = some tok.text →
    parseOutputConfig.result t e = some cfg →
    IsPositiveFloat cfg.refreshRate ∧ (modeProduct cfg.refreshRate).IsFinite

theorem one_hundredth_lt_hundredth {q : ℚ} (h : CFloat.le (.fin q) hundredth = false) :
    1 / 100 < q := by
  simp only [hundredth, CFloat.le, CFloat.lt, CFloat.eq, Bool.or_eq_false_iff,
    decide_eq_false_iff_not, not_lt] at h
  refine lt_of_lt_of_le ?_ h.1
  norm_num

theorem isPositiveFloat_of_le {x : CFloat} (h : x.le hundredth = false) (hinf : x ≠ .inf false)
    (hnan : x ≠ .nan) : IsPositiveFloat x := by
  cases x with
  | fin q => exact ⟨q, rfl, one_hundredth_lt_hundredth h⟩
  | inf neg =>
    cases neg with
    | false => exact absurd rfl hinf
    | true => cases h
  | nan => exact absurd rfl hnan

/-- The number that a caller of `parse_float` takes when it asks for a positive one. -/
theorem parsePositive_cases {errstr : Text} {r : CFloat × Input}
    (h : (parsePositive errstr).run ⟨t, e⟩ = some r) :
    ∃ str, (strtok space t).1 = some str ∧ r.1 = (strtof str).value ∧ r.1.le hundredth = false ∧
      r.1 ≠ .inf false := by
  unfold parsePositive at h
  obtain ⟨⟨x, s⟩, hx, h⟩ := run_bind_eq_some.mp h
  obtain ⟨q, hq, h⟩ := run_bind_eq_some.mp h
  obtain ⟨hle, rfl⟩ := run_failIf_eq_some.mp hq
  cases h
  rw [Bool.not_eq_true] at hle
  -- the numbers for missing and invalid ones are too small
  have hcases : x = .fin (-1) ∨ x = fltMin ∨ ∃ str, (strtok space t).1 = some str ∧
      x = (strtof str).value ∧ x ≠ .inf false := by
    cases e with
    | erange =>
      rw [parseFloat_erange, Option.some_inj] at hx
      cases hx
      split
      · exact .inl rfl
      · exact .inr (.inl rfl)
    | clear =>
      rw [parseFloat_clear] at hx
      split at hx
      · cases hx
        exact .inl rfl
      · next str u htok =>
        cases hx
        split
        · next hvalue => exact .inr (.inr ⟨str, by rw [htok], rfl, hvalue.2⟩)
        · exact .inr (.inl rfl)
  obtain rfl | rfl | ⟨str, htok, hvalue, hinf⟩ := hcases
  · rw [neg_one_le_hundredth] at hle
    cases hle
  · rw [fltMin_le_hundredth] at hle
    cases hle
  · exact ⟨str, htok, hvalue, hle, hinf⟩

theorem parseSplit_cases {action : KeybindingAction} {p : CFloat}
    (htok : (strtok space t).1 = some str)
    (h : (parseSplit action).result t e = some (action, .f p)) :
    p = (strtof str).value ∧ CFloat.le (.fin 1) p = false ∧ p.le hundredth = false := by
  obtain ⟨s, h⟩ := result_eq_some.mp h
  unfold parseSplit at h
  obtain ⟨⟨tok, s'⟩, hs, h⟩ := run_bind_eq_some.mp h
  rw [run_token, htok] at hs
  cases hs
  obtain ⟨⟨x, s'⟩, hx, h⟩ := run_bind_eq_some.mp h
  cases hx
  obtain ⟨⟨range, s'⟩, hrange, h⟩ := run_bind_eq_some.mp h
  dsimp only at h
  rw [run_ite] at h
  split at h
  · cases h
  · rw [run_ite] at h
    split at h
    · cases h
    · next hcheck =>
      cases h
      rw [Bool.or_eq_true, not_or, Bool.not_eq_true, Bool.not_eq_true] at hcheck
      exact ⟨rfl, hcheck.1, hcheck.2⟩

theorem parseColor_cases {i : ℕ} {r : CFloat × Input} (h : (parseColor i).run ⟨t, e⟩ = some r) :
    ∃ str, (strtok blanks t).1 = some str ∧ r.1 = (strtof str).value ∧
      r.2.saveptr = (strtok blanks t).2 ∧ r.1.lt (.fin 0) = false ∧
      CFloat.lt (.fin 1) r.1 = false := by
  unfold parseColor at h
  obtain ⟨⟨tok, s⟩, hs, h⟩ := run_bind_eq_some.mp h
  cases hs
  obtain ⟨⟨str, s⟩, hs, h⟩ := run_bind_eq_some.mp h
  obtain ⟨htok, rfl⟩ := run_require_eq_some.mp hs
  obtain ⟨⟨x, s⟩, hs, h⟩ := run_bind_eq_some.mp h
  cases hs
  obtain ⟨q, hq, h⟩ := run_bind_eq_some.mp h
  obtain ⟨-, rfl⟩ := run_failIf_eq_some.mp hq
  obtain ⟨q, hq, h⟩ := run_bind_eq_some.mp h
  obtain ⟨hcheck, rfl⟩ := run_failIf_eq_some.mp hq
  cases h
  rw [Bool.or_eq_true, not_or, Bool.not_eq_true, Bool.not_eq_true] at hcheck
  exact ⟨str, htok, rfl, rfl, hcheck.1, hcheck.2⟩

theorem isIntensity_of_lt {x : CFloat} (h0 : x.lt (.fin 0) = false)
    (h1 : CFloat.lt (.fin 1) x = false)
    (hnan : x ≠ .nan) : IsIntensity x := by
  cases x with
  | fin q =>
    simp only [CFloat.lt, decide_eq_false_iff_not, not_lt] at h0 h1
    exact ⟨q, rfl, h0, h1⟩
  | inf neg =>
    cases neg with
    | false => cases h1
    | true => cases h0
  | nan => exact absurd rfl hnan

theorem isShare_of_le {x : CFloat} (h1 : CFloat.le (.fin 1) x = false) (h : x.le hundredth = false)
    (hnan : x ≠ .nan) : IsShare x := by
  cases x with
  | fin q =>
    refine ⟨q, rfl, one_hundredth_lt_hundredth h, ?_⟩
    simp only [CFloat.le, CFloat.lt, Bool.or_eq_false_iff, decide_eq_false_iff_not, not_lt] at h1
    refine lt_of_le_of_ne h1.1 ?_
    rintro rfl
    exact absurd h1.2 (by simp [CFloat.eq])
  | inf neg =>
    cases neg with
    | false => cases h1
    | true => cases h
  | nan => exact absurd rfl hnan

/-! ### Products -/

/-- A part of a size is finite. -/
theorem splitProduct_isFinite {size : ℤ} {p : CFloat} (hp : IsShare p) (hsize : |size| ≤ 2 ^ 31) :
    (splitProduct size p).IsFinite := by
  obtain ⟨q, rfl, hlow, hhigh⟩ := hp
  have hsize' : |(size : ℚ)| ≤ 2 ^ 31 := by exact_mod_cast hsize
  obtain ⟨r, hr, hrle⟩ := CFloat.round_le hsize' (by norm_num)
  have hprod : |r * q| ≤ 2 ^ 31 := by
    rw [abs_mul, abs_of_pos (by linarith : (0 : ℚ) < q)]
    nlinarith [abs_nonneg r]
  obtain ⟨x, hx, -⟩ := CFloat.round_le hprod (by norm_num)
  rw [splitProduct, CFloat.ofInt, hr, CFloat.mul, hx]
  trivial

/-- Unless the rate is not a number, its product is replaced when it is not finite. -/
theorem modeProduct_isFinite {x : CFloat} (hx : ∃ q, x = .fin q) : (modeProduct x).IsFinite := by
  obtain ⟨q, rfl⟩ := hx
  obtain ⟨k, hk, -⟩ := CFloat.round_le (q := ((1000 : ℤ) : ℚ)) (k := 10) (by norm_num) (by norm_num)
  obtain ⟨m, hm, -⟩ := CFloat.round_le (q := ((intMax : ℤ) : ℚ)) (k := 31) (by norm_num [intMax])
    (by norm_num)
  obtain ⟨z, hz, -⟩ := CFloat.round_le (q := 0 * k) (k := 0) (by norm_num) (by norm_num)
  have hzero : CFloat.mul (.fin 0) (.ofInt 1000) = .fin z := by
    rw [CFloat.ofInt, hk, CFloat.mul, hz]
  unfold modeProduct
  dsimp only
  have hk' : CFloat.ofInt 1000 = .fin k := hk
  have hm' : CFloat.ofInt intMax = .fin m := hm
  rw [hzero, hk', hm', CFloat.mul]
  cases hprod : CFloat.round (q * k) with
  | fin y =>
    split
    · trivial
    · trivial
  | inf neg =>
    cases neg with
    | false => trivial
    | true => trivial
  | nan => exact absurd hprod CFloat.round_ne_nan

/-! ### Outputs -/

theorem parseUintFrom_saveptr {least : ℤ} {delim errstr : Text} {r : ℤ × Input}
    (h : (parseUintFrom least delim errstr).run ⟨t, e⟩ = some r) :
    r.2.saveptr = (strtok delim t).2 := by
  unfold parseUintFrom at h
  obtain ⟨⟨n, s⟩, hn, h⟩ := run_bind_eq_some.mp h
  obtain ⟨q, hq, h⟩ := run_bind_eq_some.mp h
  obtain ⟨-, rfl⟩ := run_failIf_eq_some.mp hq
  cases h
  cases e with
  | erange =>
    rw [parseUint_erange] at hn
    cases hn
    rfl
  | clear =>
    rw [parseUint_clear] at hn
    split at hn
    · next u htok =>
      cases hn
      rw [htok]
    · next str u htok =>
      cases hn
      rw [htok]

theorem parseOutputConfig_scale {name v : Text} (hname : strtok space t = (some name, u))
    (hkey : strtok space u = (some (ascii "scale"), v)) :
    parseOutputConfig.result t e = (do
      let scale ← parsePositive
        (ascii "Error parsing scale of output configuration for output " ++ name ++
          ascii ", expected positive float")
      pure { emptyOutputConfig with scale := scale, outputName := some name } :
        Reader OutputConfig).result v e := by
  rw [parseOutputConfig, require_result hname, token_result hkey]
  rfl

theorem parseOutputConfig_pos {name v : Text} (hname : strtok space t = (some name, u))
    (hkey : strtok space u = (some (ascii "pos"), v)) :
    parseOutputConfig.result t e = (parseOutputPos name emptyOutputConfig).result v e := by
  rw [parseOutputConfig, require_result hname, token_result hkey]
  rfl

/-- The refresh rate of a position is read from its place in the line. -/
theorem parseOutputPos_cases {name : Text} {cfg cfg' : OutputConfig}
    (h : (parseOutputPos name cfg).result (afterTokens space 2 t) e = some cfg') :
    ∃ str, rateArgument t = some str ∧ cfg'.refreshRate = (strtof str).value ∧
      cfg'.refreshRate.le hundredth = false ∧ cfg'.refreshRate ≠ .inf false := by
  obtain ⟨s, h⟩ := result_eq_some.mp h
  unfold parseOutputPos at h
  obtain ⟨⟨x, sx⟩, hx, h⟩ := run_bind_eq_some.mp h
  have hx' := parseUintFrom_saveptr hx
  obtain ⟨⟨y, sy⟩, hy, h⟩ := run_bind_eq_some.mp h
  have hy' := parseUintFrom_saveptr hy
  obtain ⟨⟨res, sres⟩, hres, h⟩ := run_bind_eq_some.mp h
  cases hres
  obtain ⟨q, hq, h⟩ := run_bind_eq_some.mp h
  obtain ⟨-, rfl⟩ := run_failIf_eq_some.mp hq
  obtain ⟨⟨w, sw⟩, hw, h⟩ := run_bind_eq_some.mp h
  have hw' := parseUintFrom_saveptr hw
  obtain ⟨⟨height, sh⟩, hh, h⟩ := run_bind_eq_some.mp h
  have hh' := parseUintFrom_saveptr hh
  obtain ⟨⟨word, sword⟩, hword, h⟩ := run_bind_eq_some.mp h
  cases hword
  obtain ⟨q, hq, h⟩ := run_bind_eq_some.mp h
  obtain ⟨-, rfl⟩ := run_failIf_eq_some.mp hq
  obtain ⟨⟨rate, srate⟩, hrate, h⟩ := run_bind_eq_some.mp h
  obtain ⟨str, htok, hvalue, hle, hinf⟩ := parsePositive_cases hrate
  cases h
  refine ⟨str, ?_, hvalue, hle, hinf⟩
  rw [← htok]
  dsimp only at hx' hy' hw' hh' ⊢
  rw [hh', hw', hy', hx']
  rfl

/-! ### Tokens -/

theorem Token.strtok_space (tok : Token) : strtok space tok.text = (some tok.text, []) := by
  refine strtok_plain tok.nonempty fun c hc => ?_
  have hspace : space = [32] := by decide
  simp [hspace, (tok.plain c hc).1]

/-- What is not a number is taken for a percentage. -/
theorem parseSplit_nan {action : KeybindingAction} (htok : strtok space t = (some str, u))
    (hnan : (strtof str).value = .nan) :
    (parseSplit action).result t .clear = some (action, .f .nan) := by
  unfold result parseSplit
  rw [run_bind, run_token, Option.bind_some, htok]
  dsimp only
  rw [run_checked_clear, strtof_range_of_nan hnan, hnan]
  rfl

/-- The second token of a line comes after a first one. -/
theorem exists_token_of_next (h : tokenAt space 1 t = some str) :
    ∃ name, (strtok space t).1 = some name := by
  refine Option.ne_none_iff_exists'.mp fun hnone => ?_
  have hnext := tokenAt_eq_none (n := 0) hnone 1 (Nat.zero_le 1)
  rw [h] at hnext
  cases hnext

/-- **Checked numbers.**  The checks of the parser do what they are there for if and only if
the token does not stand for what is not a number. -/
theorem floatsChecked_iff (tok : Token) : FloatsChecked tok ↔ (strtof tok.text).value ≠ .nan := by
  constructor
  · intro h hnan
    obtain ⟨⟨q, hq, -⟩, -⟩ := h.split tok.text .clear .splitVertical .nan
      (congrArg Prod.fst tok.strtok_space) (parseSplit_nan tok.strtok_space hnan)
    cases hq
  · intro hnan
    constructor
    · intro t e action p htok hp
      obtain ⟨rfl, hlt, hle⟩ := parseSplit_cases htok hp
      have hshare := isShare_of_le hlt hle hnan
      exact ⟨hshare, fun size hsize => splitProduct_isFinite hshare hsize⟩
    · intro t e xs i htok hxs
      obtain ⟨s, hxs⟩ := result_eq_some.mp hxs
      unfold parseBackground at hxs
      obtain ⟨⟨r, sr⟩, hr, hxs⟩ := run_bind_eq_some.mp hxs
      obtain ⟨rstr, hrtok, hrvalue, hrest, hr0, hr1⟩ := parseColor_cases hr
      obtain ⟨⟨g, sg⟩, hg, hxs⟩ := run_bind_eq_some.mp hxs
      obtain ⟨gstr, hgtok, hgvalue, hgest, hg0, hg1⟩ := parseColor_cases hg
      obtain ⟨⟨b, sb⟩, hb, hxs⟩ := run_bind_eq_some.mp hxs
      obtain ⟨bstr, hbtok, hbvalue, -, hb0, hb1⟩ := parseColor_cases hb
      cases hxs
      dsimp only at *
      -- each component comes from the token at its place
      match i, htok with
      | 0, htok =>
        have heq : some rstr = some tok.text := hrtok.symm.trans htok
        rw [Option.some.inj heq] at hrvalue
        exact isIntensity_of_lt hr0 hr1 (hrvalue ▸ hnan)
      | 1, htok =>
        rw [hrest] at hgtok
        have heq : some gstr = some tok.text := hgtok.symm.trans htok
        rw [Option.some.inj heq] at hgvalue
        exact isIntensity_of_lt hg0 hg1 (hgvalue ▸ hnan)
      | 2, htok =>
        rw [hgest, hrest] at hbtok
        have heq : some bstr = some tok.text := hbtok.symm.trans htok
        rw [Option.some.inj heq] at hbvalue
        exact isIntensity_of_lt hb0 hb1 (hbvalue ▸ hnan)
    · intro t e cfg hkey htok hcfg
      obtain ⟨name, hname⟩ := exists_token_of_next hkey
      have hname' : strtok space t = (some name, afterTokens space 1 t) := Prod.ext hname rfl
      have hkey' : strtok space (afterTokens space 1 t) =
        (some (ascii "scale"), afterTokens space 2 t) := Prod.ext hkey rfl
      rw [parseOutputConfig_scale hname' hkey'] at hcfg
      obtain ⟨s, hcfg⟩ := result_eq_some.mp hcfg
      obtain ⟨⟨scale, s'⟩, hscale, hcfg⟩ := run_bind_eq_some.mp hcfg
      obtain ⟨str, hstr, hvalue, hle, hinf⟩ := parsePositive_cases hscale
      cases hcfg
      have heq : some str = some tok.text := hstr.symm.trans htok
      rw [Option.some.inj heq] at hvalue
      exact isPositiveFloat_of_le hle hinf (hvalue ▸ hnan)
    · intro t e cfg hkey htok hcfg
      obtain ⟨name, hname⟩ := exists_token_of_next hkey
      have hname' : strtok space t = (some name, afterTokens space 1 t) := Prod.ext hname rfl
      have hkey' : strtok space (afterTokens space 1 t) =
        (some (ascii "pos"), afterTokens space 2 t) := Prod.ext hkey rfl
      rw [parseOutputConfig_pos hname' hkey'] at hcfg
      obtain ⟨str, hstr, hvalue, hle, hinf⟩ := parseOutputPos_cases hcfg
      have heq : some str = some tok.text := hstr.symm.trans htok
      rw [Option.some.inj heq] at hvalue
      have hpositive := isPositiveFloat_of_le hle hinf (hvalue ▸ hnan)
      obtain ⟨q, hq, -⟩ := id hpositive
      exact ⟨hpositive, modeProduct_isFinite ⟨q, hq⟩⟩

/-- `vsplit nan` is accepted. -/
theorem floatsChecked_nan : ¬FloatsChecked ⟨ascii "nan", by decide, by decide⟩ := by
  intro h
  have htok : strtok space (ascii "nan") = (some (ascii "nan"), []) := by decide
  have hnan : (strtof (ascii "nan")).value = .nan := by decide
  obtain ⟨⟨q, hq, -⟩, -⟩ := h.split (ascii "nan") .clear .splitVertical .nan (by decide)
    (parseSplit_nan htok hnan)
  cases hq

end Parse

end Cagebreak
