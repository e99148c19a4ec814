/-
The commands that configure outputs, as they are documented (`parse_output_config`).

* `OutputClause` — what is written after the name of the output, with operands that may
  be missing;
* `OutputClause.config` — the configuration that it documents, if its operands are all
  there and in range;
* `parseOutputConfig_grammar` — it is what the parser reads, but for the scale after a
  position, which is ignored, for a rotation without its operand, which is accepted, and
  for a scale of `0.01`, which is rejected.
-/
import Cagebreak.ParseFloats
import Cagebreak.ParseLines

namespace Cagebreak

namespace Parse

open Strto Reader

variable {t u : Text} {e : Errno} {name : Word}

/-! ### The grammar -/

/-- The width and the height of a resolution, with an `x` between them. -/
def resolution (width height : Option Numeral) : Word where
  text := width.elim [] Numeral.text ++ 120 :: height.elim [] Numeral.text
  nonempty h := List.cons_ne_nil _ _ (List.append_eq_nil_iff.mp h).2
  plain c hc := by
    have hoperand : ∀ n : Option Numeral, c ∈ n.elim [] Numeral.text → c ≠ 32 := by
      intro n hn
      cases n with
      | none => exact absurd hn List.not_mem_nil
      | some n => exact n.ne_of_mem_text hn rfl (by decide)
    obtain hc | hc := List.mem_append.mp hc
    · exact hoperand width hc
    · obtain rfl | hc := List.mem_cons.mp hc
      · decide
      · exact hoperand height hc

/-- What is written after the name of an output. -/
inductive OutputClause
  | pos (x y width height : Option Numeral) (rate scale : Option Decimal)
  | prio (n : Option Numeral)
  | scale (s : Option Decimal)
  | rotate (n : Option Numeral)
  | enable
  | disable
  | permanent
  | peripheral

def floatOperand (d : Option Decimal) : List Word := d.toList.map .decimal

/-- The scale after a position. -/
def scaleWords : Option Decimal → List Word
  | none => []
  | some s => [.ofString "scale", .decimal s]

/-- The words after `pos`. -/
def posWords (x y width height : Option Numeral) (rate scale : Option Decimal) : List Word :=
  operand x ++ (operand y ++ .ofString "res" :: resolution width height :: .ofString "rate" ::
    (floatOperand rate ++ scaleWords scale))

def OutputClause.words : OutputClause → List Word
  | .pos x y width height rate s => .ofString "pos" :: posWords x y width height rate s
  | .prio n => .ofString "prio" :: operand n
  | .scale s => .ofString "scale" :: floatOperand s
  | .rotate n => .ofString "rotate" :: operand n
  | .enable => [.ofString "enable"]
  | .disable => [.ofString "disable"]
  | .permanent => [.ofString "permanent"]
  | .peripheral => [.ofString "peripheral"]

/-- The line after `output`. -/
def outputLine (name : Word) (c : OutputClause) : Text := line (name :: c.words)

/-! ### Its meaning -/

/-- The value of a refresh rate, which is above `0.01`. -/
def rateValue (d : Option Decimal) : Option CFloat :=
  d.bind fun d => if IsPositive d.text then some d.float else none

/-- The value of a scale; the documented minimum is `0.01` and the maximum `10`. -/
def scaleValue (d : Option Decimal) : Option CFloat :=
  d.bind fun d => if 1 / 100 ≤ d.value ∧ d.value ≤ 10 then some d.float else none

/-- The value of the scale after a position, which need not be there. -/
def optionalScale : Option Decimal → Option CFloat
  | none => some emptyOutputConfig.scale
  | some s => scaleValue (some s)

/-- What is documented for a command, if its operands are there and in range: the
written fields are set, and the others are not. -/
def OutputClause.config (name : Word) : OutputClause → Option OutputConfig
  | .pos x y width height rate s => do
    let x ← natural 0 x
    let y ← natural 0 y
    let width ← natural 1 width
    let height ← natural 1 height
    let rate ← rateValue rate
    let scale ← optionalScale s
    some { emptyOutputConfig with
      pos := ⟨x, y, width, height⟩
      refreshRate := rate
      scale := scale
      outputName := some name.text }
  | .prio n => (natural 0 n).map fun n =>
    { emptyOutputConfig with priority := n, outputName := some name.text }
  | .scale s => (scaleValue s).map fun s =>
    { emptyOutputConfig with scale := s, outputName := some name.text }
  | .rotate n => (natural 0 n).map fun n =>
    { emptyOutputConfig with angle := n % 4, outputName := some name.text }
  | .enable => some { emptyOutputConfig with status := .enable, outputName := some name.text }
  | .disable => some { emptyOutputConfig with status := .disable, outputName := some name.text }
  | .permanent => some { emptyOutputConfig with role := .permanent, outputName := some name.text }
  | .peripheral => some { emptyOutputConfig with role := .peripheral, outputName := some name.text }

/-- An operand is missing or negative. -/
def Unwritten (n : Option Numeral) : Prop := ∀ k ∈ n, k.value < 0

def FloatUnwritten (d : Option Decimal) : Prop := ∀ k ∈ d, k.value < 0

/-- A required operand is missing or negative. -/
def OutputClause.Faulty : OutputClause → Prop
  | .pos x y width height rate _ =>
    Unwritten x ∨ Unwritten y ∨ Unwritten width ∨ Unwritten height ∨ FloatUnwritten rate
  | .prio n => Unwritten n
  | .scale s => FloatUnwritten s
  | .rotate n => Unwritten n
  | _ => False

/-- A command is read as it is documented. -/
def AsDocumented (name : Word) (c : OutputClause) (e : Errno) : Prop :=
  (∀ cfg, c.config name = some cfg → parseOutputConfig.result (outputLine name c) e = some cfg) ∧
    (c.Faulty → parseOutputConfig.result (outputLine name c) e = none)

/-! ### Operands -/

/-- A refresh rate goes on if it is in range. -/
theorem decimal_result {errstr : Text} {d : Decimal} {α : Type} {f : CFloat → Reader α}
    (htok : strtok space t = (some d.text, u)) :
    (parsePositive errstr >>= f).result t .clear =
      (rateValue (some d)).bind fun x => (f x).result u .clear := by
  have hfloat : (strtof d.text).value = d.float := by rw [d.strtof_text]
  rw [positive_result htok, hfloat]
  show _ = (if IsPositive d.text then some d.float else none).bind _
  by_cases h : IsPositive d.text
  · rw [if_pos ⟨rfl, h⟩, if_pos h]
    rfl
  · rw [if_neg fun hand => h hand.2, if_neg h]
    rfl

/-! ### What is read -/

/-- A refresh rate that is at the end of its line. -/
theorem floatOperand_result {errstr : Text} {d : Option Decimal} {α : Type}
    {f : CFloat → Reader α} :
    (parsePositive errstr >>= f).result (line (floatOperand d)) .clear =
      (rateValue d).bind fun x => (f x).result [] .clear := by
  cases d with
  | none => exact positive_missing rfl
  | some d => exact decimal_result (strtok_line (.decimal d) [])

/-- The priority is read if `errno` is clear. -/
theorem prio_result (n : Option Numeral) :
    parseOutputConfig.result (outputLine name (.prio n)) e =
      if e = .clear then (OutputClause.prio n).config name else none := by
  show parseOutputConfig.result (line (name :: .ofString "prio" :: operand n)) e = _
  rw [parseOutputConfig, require_result (strtok_line name _),
    token_result (strtok_keyword _)]
  show (parseUintFrom 0 space _ >>= fun priority => pure _).result (line (operand n)) e = _
  cases e with
  | erange => exact uintFrom_erange le_rfl
  | clear =>
    rw [operand_result le_rfl, if_pos rfl, OutputClause.config]
    cases natural 0 n with
    | none => rfl
    | some k => rfl

/-- The scale is read if `errno` is clear and the number that it is rounded to is above
`0.01`. -/
theorem scale_result (s : Option Decimal) :
    parseOutputConfig.result (outputLine name (.scale s)) e =
      if e = .clear then (rateValue s).map fun s =>
        { emptyOutputConfig with scale := s, outputName := some name.text } else none := by
  show parseOutputConfig.result (line (name :: .ofString "scale" :: floatOperand s)) e = _
  rw [parseOutputConfig, require_result (strtok_line name _),
    token_result (strtok_keyword _)]
  show (parsePositive _ >>= fun scale => pure _).result (line (floatOperand s)) e = _
  cases e with
  | erange =>
    unfold result
    rw [run_bind, refuses_parsePositive]
    rfl
  | clear =>
    rw [floatOperand_result, if_pos rfl]
    cases rateValue s with
    | none => rfl
    | some x => rfl

/-- What `parse_uint` returns for an operand, or for none. -/
def uintValue (e : Errno) (n : Option Numeral) : ℤ :=
  if e = .clear then (natural 0 n).getD (-1) else -1

theorem parseUint_operand (n : Option Numeral) :
    ∃ e', (parseUint space).run ⟨line (operand n), e⟩ = some (uintValue e n, ⟨[], e'⟩) := by
  cases n with
  | none =>
    cases e with
    | erange => exact ⟨_, parseUint_erange space⟩
    | clear => exact ⟨_, parseUint_clear space⟩
  | some n =>
    have htok : strtok space (line (operand (some n))) = (some n.text, []) :=
      strtok_line (.numeral n) []
    cases e with
    | erange => exact ⟨.erange, by rw [parseUint_erange, htok]; rfl⟩
    | clear =>
      rw [parseUint_clear, htok]
      dsimp only
      refine ⟨if (strtol n.text).range then .erange else .clear, ?_⟩
      unfold uintValue
      rw [if_pos rfl, natural_some]
      by_cases h : 0 ≤ n.value ∧ n.value ≤ intMax
      · rw [if_pos (isUint_numeral.mpr h), if_pos h, (strtol_value h.1 h.2).1]
        rfl
      · have hnot : ¬IsUint n.text := fun hu => h (isUint_numeral.mp hu)
        rw [if_neg hnot, if_neg h]
        rfl

/-- A rotation is accepted, whatever `parse_uint` returns for it. -/
theorem rotate_result (n : Option Numeral) :
    parseOutputConfig.result (outputLine name (.rotate n)) e =
      some { emptyOutputConfig with
        angle := uintValue e n % 2 ^ 32 % 4
        outputName := some name.text } := by
  show parseOutputConfig.result (line (name :: .ofString "rotate" :: operand n)) e = _
  rw [parseOutputConfig, require_result (strtok_line name _),
    token_result (strtok_keyword _)]
  show (parseUint space >>= fun n => _).result (line (operand n)) e = _
  obtain ⟨e', hrun⟩ := @parseUint_operand e n
  have hangle : ¬uintValue e n % 2 ^ 32 % 4 < 0 := not_lt.mpr (Int.emod_nonneg _ (by decide))
  unfold result
  rw [run_bind, hrun, Option.bind_some, run_bind, run_failIf, if_neg hangle]
  rfl

theorem enable_result :
    parseOutputConfig.result (outputLine name .enable) e = OutputClause.enable.config name := by
  show parseOutputConfig.result (line [name, .ofString "enable"]) e = _
  rw [parseOutputConfig, require_result (strtok_line name _), token_result (strtok_keyword _)]
  rfl

theorem disable_result :
    parseOutputConfig.result (outputLine name .disable) e = OutputClause.disable.config name := by
  show parseOutputConfig.result (line [name, .ofString "disable"]) e = _
  rw [parseOutputConfig, require_result (strtok_line name _), token_result (strtok_keyword _)]
  rfl

theorem permanent_result :
    parseOutputConfig.result (outputLine name .permanent) e =
      OutputClause.permanent.config name := by
  show parseOutputConfig.result (line [name, .ofString "permanent"]) e = _
  rw [parseOutputConfig, require_result (strtok_line name _), token_result (strtok_keyword _)]
  rfl

theorem peripheral_result :
    parseOutputConfig.result (outputLine name .peripheral) e =
      OutputClause.peripheral.config name := by
  show parseOutputConfig.result (line [name, .ofString "peripheral"]) e = _
  rw [parseOutputConfig, require_result (strtok_line name _), token_result (strtok_keyword _)]
  rfl

/-! ### A position -/

/-- A resolution is not the keyword before it. -/
theorem resolution_ne (w h : Option Numeral) : (resolution w h).text ≠ ascii "res" := by
  intro heq
  have hmem : (120 : UInt8) ∈ (resolution w h).text := List.mem_append_right _ List.mem_cons_self
  rw [heq] at hmem
  exact absurd hmem (by decide)

/-- The words after a resolution have no `x` in them. -/
theorem not_mem_rest {rate s : Option Decimal} {c : UInt8}
    (h : c ∈ line (.ofString "rate" :: (floatOperand rate ++ scaleWords s))) : c ≠ 120 := by
  have hdecimal : ∀ d : Decimal, c ∈ (Word.decimal d).text → c ≠ 120 := fun d hc =>
    d.ne_of_mem_text hc rfl (by decide) (by decide)
  obtain rfl | ⟨w, hw, hc⟩ := mem_line h
  · decide
  · obtain rfl | hw := List.mem_cons.mp hw
    · exact (show ∀ c ∈ ascii "rate", c ≠ 120 by decide) c hc
    · obtain hw | hw := List.mem_append.mp hw
      · obtain ⟨d, -, rfl⟩ := List.mem_map.mp hw
        exact hdecimal d hc
      · cases s with
        | none => exact absurd hw List.not_mem_nil
        | some s =>
          obtain rfl | hw := List.mem_cons.mp hw
          · exact (show ∀ c ∈ ascii "scale", c ≠ 120 by decide) c hc
          · obtain rfl := List.mem_singleton.mp hw
            exact hdecimal s hc

/-- The refresh rate, after its keyword; what follows it is not read. -/
theorem rate_result {errstr₁ errstr₂ : Text} (rate s : Option Decimal) (g : CFloat → OutputConfig) :
    (do
      let rateStr ← token space
      failIf (rateStr ≠ some (ascii "rate")) errstr₁
      let refreshRate ← parsePositive errstr₂
      pure (g refreshRate) : Reader OutputConfig).result
        (line (.ofString "rate" :: (floatOperand rate ++ scaleWords s))) .clear =
      (rateValue rate).map g := by
  rw [token_result (strtok_keyword _), failIf_result, if_neg (not_not_intro rfl)]
  cases rate with
  | some d =>
    have hd : strtok space (line (floatOperand (some d) ++ scaleWords s)) =
        (some d.text, line (scaleWords s)) := strtok_line (.decimal d) _
    rw [decimal_result hd]
    exact Option.map_eq_bind.symm
  | none =>
    cases s with
    | none => exact positive_missing rfl
    | some s =>
      -- the next keyword stands in place of the number
      have hword : ¬IsPositive (ascii "scale") := by
        rintro ⟨-, -, hle⟩
        have hzero : (strtof (ascii "scale")).value = .fin 0 := rfl
        rw [hzero, zero_le_hundredth le_rfl] at hle
        exact Bool.false_ne_true hle.symm
      show (parsePositive errstr₂ >>= _).result (line [.ofString "scale", .decimal s]) .clear = none
      rw [positive_result (strtok_keyword _), if_neg fun hand => hword hand.2]

/-- The resolution and the refresh rate, after the keyword `res`. -/
theorem resolution_result {errstr₁ errstr₂ errstr₃ errstr₄ : Text} (w h : Option Numeral)
    (rate s : Option Decimal) (g : ℤ → ℤ → CFloat → OutputConfig) :
    (do
      let width ← parseUintFrom 1 (ascii "x") errstr₁
      let height ← parseUintFrom 1 space errstr₂
      let rateStr ← token space
      failIf (rateStr ≠ some (ascii "rate")) errstr₃
      let refreshRate ← parsePositive errstr₄
      pure (g width height refreshRate) : Reader OutputConfig).result
        (line (resolution w h :: .ofString "rate" :: (floatOperand rate ++ scaleWords s))) .clear =
      (natural 1 w).bind fun w => (natural 1 h).bind fun h => (rateValue rate).map (g w h) := by
  have hline : line (resolution w h :: .ofString "rate" :: (floatOperand rate ++ scaleWords s)) =
      w.elim [] Numeral.text ++ 120 :: (h.elim [] Numeral.text ++
        32 :: line (.ofString "rate" :: (floatOperand rate ++ scaleWords s))) :=
    List.append_assoc _ _ _
  rw [hline]
  cases w with
  | some w =>
    have hw : strtok (ascii "x") (w.text ++ 120 :: (h.elim [] Numeral.text ++
        32 :: line (.ofString "rate" :: (floatOperand rate ++ scaleWords s)))) =
        (some w.text, h.elim [] Numeral.text ++
          32 :: line (.ofString "rate" :: (floatOperand rate ++ scaleWords s))) :=
      strtok_word w.text_ne_nil (fun c hc => by
        have hne : c ≠ 120 := w.ne_of_mem_text hc rfl (by decide)
        rw [show ascii "x" = [120] by decide]
        simp [hne]) (by decide)
    show (parseUintFrom 1 (ascii "x") errstr₁ >>= _).result (w.text ++ 120 :: _) .clear = _
    rw [numeral_result (by decide) hw]
    congr 1
    funext width
    cases h with
    | some h =>
      have hh : strtok space (h.text ++
          32 :: line (.ofString "rate" :: (floatOperand rate ++ scaleWords s))) =
          (some h.text, line (.ofString "rate" :: (floatOperand rate ++ scaleWords s))) :=
        (Word.numeral h).strtok_blank
      show (parseUintFrom 1 space errstr₂ >>= _).result (h.text ++ 32 :: line _) .clear = _
      rw [numeral_result (by decide) hh]
      congr 1
      funext height
      exact rate_result rate s (g width height)
    | none =>
      -- the next keyword stands in place of the height
      have hrate : strtok space (32 :: line (.ofString "rate" ::
        (floatOperand rate ++ scaleWords s))) =
          (some (ascii "rate"), line (floatOperand rate ++ scaleWords s)) := by
        rw [strtok_skip (by decide)]
        exact strtok_keyword _
      show (parseUintFrom 1 space errstr₂ >>= _).result (32 :: line _) .clear = none
      rw [uintFrom_result (by decide) hrate, if_neg]
      rintro ⟨-, -, hle⟩
      exact absurd hle (by decide)
  | none =>
    -- the token goes to the end of the line, so that the height is missing
    have hrest : (strtok (ascii "x") (120 :: (h.elim [] Numeral.text ++
        32 :: line (.ofString "rate" :: (floatOperand rate ++ scaleWords s))))).2 = [] := by
      rw [strtok_skip (by decide)]
      refine strtok_rest fun c hc => ?_
      have hne : c ≠ 120 := by
        obtain hc | hc := List.mem_append.mp hc
        · cases h with
          | none => exact absurd hc List.not_mem_nil
          | some h => exact h.ne_of_mem_text hc rfl (by decide)
        · obtain rfl | hc := List.mem_cons.mp hc
          · decide
          · exact not_mem_rest hc
      rw [show ascii "x" = [120] by decide]
      simp [hne]
    show (parseUintFrom 1 (ascii "x") errstr₁ >>= _).result (120 :: _) .clear = none
    generalize 120 :: (h.elim [] Numeral.text ++
      32 :: line (.ofString "rate" :: (floatOperand rate ++ scaleWords s))) = t at hrest ⊢
    cases htok : strtok (ascii "x") t with
    | mk tok u =>
      rw [htok] at hrest
      obtain rfl : u = [] := hrest
      cases tok with
      | none => exact uintFrom_missing (by decide) htok
      | some tok =>
        rw [uintFrom_result (by decide) htok]
        split
        · exact uintFrom_missing (by decide) rfl
        · rfl

/-- Without one of the coordinates, the resolution stands in place of its keyword. -/
theorem coordinate_missing {errstr₁ errstr₂ : Text} {α : Type} (w h : Option Numeral)
    (rest : List Word) (g : ℤ → Reader α) :
    (do
      let y ← parseUintFrom 0 space errstr₁
      let resStr ← token space
      failIf (resStr ≠ some (ascii "res")) errstr₂
      g y).result (line (.ofString "res" :: resolution w h :: rest)) e = none := by
  have hne : some (resolution w h).text ≠ some (ascii "res") := fun heq =>
    resolution_ne w h (Option.some_inj.mp heq)
  rw [uintFrom_result le_rfl (strtok_keyword _)]
  split
  · rw [token_result (strtok_line (resolution w h) rest), failIf_result, if_pos hne]
  · rfl

/-- The position is read if `errno` is clear; the scale after it is not. -/
theorem pos_result (x y w h : Option Numeral) (rate s : Option Decimal) :
    parseOutputConfig.result (outputLine name (.pos x y w h rate s)) e =
      if e = .clear then (OutputClause.pos x y w h rate none).config name else none := by
  have hstart : parseOutputConfig.result (outputLine name (.pos x y w h rate s)) e =
      (parseOutputPos name.text emptyOutputConfig).result (line (posWords x y w h rate s)) e := by
    show parseOutputConfig.result (line (name :: .ofString "pos" :: posWords x y w h rate s)) e = _
    exact parseOutputConfig_pos (strtok_line name _) (strtok_keyword _)
  rw [hstart]
  unfold parseOutputPos
  cases e with
  | erange => exact uintFrom_erange le_rfl
  | clear =>
    rw [if_pos rfl, OutputClause.config]
    generalize hrest : Word.ofString "rate" :: (floatOperand rate ++ scaleWords s) = rest
    have hwords : posWords x y w h rate s =
        operand x ++ (operand y ++ .ofString "res" :: resolution w h :: rest) := by
      rw [posWords, hrest]
    rw [hwords]
    cases x with
    | some x =>
      have hx : strtok space (line (operand (some x) ++
          (operand y ++ .ofString "res" :: resolution w h :: rest))) =
          (some x.text, line (operand y ++ .ofString "res" :: resolution w h :: rest)) :=
        strtok_line (.numeral x) _
      rw [numeral_result le_rfl hx]
      show Option.bind _ _ = Option.bind _ _
      congr 1
      funext x
      cases y with
      | some y =>
        have hy :
            strtok space (line (operand (some y) ++ .ofString "res" :: resolution w h :: rest)) =
            (some y.text, line (.ofString "res" :: resolution w h :: rest)) :=
          strtok_line (.numeral y) _
        rw [numeral_result le_rfl hy]
        show Option.bind _ _ = Option.bind _ _
        congr 1
        funext y
        rw [token_result (strtok_keyword _), failIf_result, if_neg (not_not_intro rfl), ← hrest]
        rw [resolution_result w h rate s fun w h r => { emptyOutputConfig with
          pos := ⟨x, y, w, h⟩
          refreshRate := r
          outputName := some name.text }]
        show Option.bind _ _ = Option.bind _ _
        congr 1
        funext w
        show Option.bind _ _ = Option.bind _ _
        congr 1
        funext h
        exact Option.map_eq_bind
      | none => exact coordinate_missing w h rest _
    | none =>
      show _ = none
      cases y with
      | some y =>
        have hy : strtok space (line (operand none ++
            (operand (some y) ++ .ofString "res" :: resolution w h :: rest))) =
            (some y.text, line (.ofString "res" :: resolution w h :: rest)) :=
          strtok_line (.numeral y) _
        rw [uintFrom_result le_rfl hy]
        split
        · exact coordinate_missing w h rest _
        · rfl
      | none =>
        -- the keyword and the resolution stand in place of the coordinates
        have hres : strtok space (line (operand none ++
            (operand none ++ .ofString "res" :: resolution w h :: rest))) =
            (some (ascii "res"), line (resolution w h :: rest)) := strtok_keyword _
        rw [uintFrom_result le_rfl hres]
        split
        · rw [uintFrom_result le_rfl (strtok_line (resolution w h) rest)]
          split
          · rw [← hrest, token_result (strtok_keyword _), failIf_result, if_pos (by decide)]
          · rfl
        · rfl

/-! ### The grammar is kept -/

theorem natural_eq_none {least : ℤ} {n : Option Numeral} (hleast : 0 ≤ least) (h : Unwritten n) :
    natural least n = none := by
  cases n with
  | none => rfl
  | some n =>
    have hneg : n.value < 0 := h n rfl
    rw [natural_some, if_neg (by omega)]

theorem rateValue_eq_none {d : Option Decimal} (h : FloatUnwritten d) : rateValue d = none := by
  cases d with
  | none => rfl
  | some d =>
    have hneg : d.value < 0 := h d rfl
    show (if IsPositive d.text then some d.float else none) = none
    rw [if_neg (not_isPositive_of_negative (d.negative_of_value_neg hneg))]

/-- A documented scale is not the one that stands for none. -/
theorem scaleValue_ne {d : Option Decimal} {x : CFloat} (h : scaleValue d = some x) :
    x ≠ emptyOutputConfig.scale := by
  obtain ⟨d, rfl, hd⟩ := Option.bind_eq_some_iff.mp h
  split at hd
  · next hrange =>
    obtain rfl := Option.some_inj.mp hd
    have hpos : d.negative = false := by
      by_contra hneg
      have hvalue : d.value = -d.size := if_pos (Bool.not_eq_false _ ▸ hneg)
      have hsize : 0 ≤ d.size := div_nonneg (Nat.cast_nonneg _) (by positivity)
      linarith [hrange.1]
    have hfloat : d.float = (roundFloat d.size).1 := by
      rw [Decimal.float, hpos, if_neg Bool.false_ne_true]
    rw [hfloat]
    intro heq
    obtain hr | ⟨r, hr0, hr⟩ := Decimal.roundFloat_nonneg d.size
    · rw [hr] at heq
      cases heq
    · rw [hr] at heq
      have hvalue : r = -1 := CFloat.fin.inj heq
      linarith
  · cases hd

/-- The scale is the last field of a position. -/
theorem config_pos (x y w h : Option Numeral) (rate s : Option Decimal) :
    (OutputClause.pos x y w h rate s).config name =
      ((OutputClause.pos x y w h rate none).config name).bind fun cfg =>
        (optionalScale s).map fun scale => { cfg with scale := scale } := by
  show (natural 0 x).bind _ = ((natural 0 x).bind _).bind _
  simp only [Option.bind_eq_bind, Option.bind_assoc, Option.map_eq_bind]
  rfl

/-- Without a scale, it is unset. -/
theorem scale_of_config {x y w h : Option Numeral} {rate : Option Decimal} {cfg : OutputConfig}
    (hcfg : (OutputClause.pos x y w h rate none).config name = some cfg) :
    cfg.scale = emptyOutputConfig.scale := by
  obtain ⟨_, _, hcfg⟩ := Option.bind_eq_some_iff.mp hcfg
  obtain ⟨_, _, hcfg⟩ := Option.bind_eq_some_iff.mp hcfg
  obtain ⟨_, _, hcfg⟩ := Option.bind_eq_some_iff.mp hcfg
  obtain ⟨_, _, hcfg⟩ := Option.bind_eq_some_iff.mp hcfg
  obtain ⟨_, _, hcfg⟩ := Option.bind_eq_some_iff.mp hcfg
  obtain ⟨_, hscale, hcfg⟩ := Option.bind_eq_some_iff.mp hcfg
  obtain rfl := Option.some_inj.mp hcfg
  exact (Option.some_inj.mp hscale).symm

/-- When a documented command is read as it is documented. -/
def OutputClause.Kept (e : Errno) : OutputClause → Prop
  | .pos _ _ _ _ _ s => e = .clear ∧ s = none
  | .prio _ => e = .clear
  | .scale s => e = .clear ∧ ∀ d ∈ s, IsPositive d.text
  | .rotate n => e = .clear ∨ ∀ k ∈ n, k.value % 4 = 3
  | _ => True

theorem result_eq_config {c : OutputClause} {cfg : OutputConfig} (h : c.config name = some cfg) :
    parseOutputConfig.result (outputLine name c) e = some cfg ↔ c.Kept e := by
  cases c with
  | pos x y width height rate s =>
    rw [pos_result]
    rw [config_pos] at h
    obtain ⟨base, hbase, hs⟩ := Option.bind_eq_some_iff.mp h
    obtain ⟨scale, hscale, rfl⟩ := Option.map_eq_some_iff.mp hs
    have hunset := scale_of_config hbase
    rw [hbase]
    cases s with
    | none =>
      obtain rfl := Option.some_inj.mp hscale
      rw [← hunset]
      simp [OutputClause.Kept]
    | some s =>
      -- the scale that is read is unset
      refine iff_of_false (fun heq => ?_) fun hkept => nomatch hkept.2
      split at heq
      · have hscale' : base.scale = scale := congrArg OutputConfig.scale (Option.some_inj.mp heq)
        exact scaleValue_ne hscale (hscale'.symm.trans hunset)
      · cases heq
  | prio n =>
    rw [prio_result, h]
    simp [OutputClause.Kept]
  | scale s =>
    obtain ⟨x, hx, rfl⟩ := Option.map_eq_some_iff.mp h
    obtain ⟨d, rfl, hd⟩ := Option.bind_eq_some_iff.mp hx
    rw [scale_result]
    show (if e = .clear then (if IsPositive d.text then some d.float else none).map _ else none) =
      _ ↔ e = .clear ∧ ∀ k ∈ some d, IsPositive k.text
    have hfloat : x = d.float := by
      split at hd
      · exact (Option.some_inj.mp hd).symm
      · cases hd
    rw [hfloat]
    by_cases he : e = .clear
    · by_cases hpos : IsPositive d.text
      · simp [he, hpos]
      · simp [he, hpos]
    · simp [he]
  | rotate n =>
    obtain ⟨k, hk, rfl⟩ := Option.map_eq_some_iff.mp h
    rw [rotate_result]
    show _ ↔ e = .clear ∨ ∀ k ∈ n, k.value % 4 = 3
    have hn : ∃ m, n = some m ∧ m.value = k ∧ 0 ≤ k := by
      obtain ⟨m, rfl, hm⟩ := Option.bind_eq_some_iff.mp hk
      split at hm
      · next hrange =>
        obtain rfl := Option.some_inj.mp hm
        exact ⟨m, rfl, rfl, hrange.1⟩
      · cases hm
    obtain ⟨m, rfl, rfl, h0⟩ := hn
    have hangle : uintValue e (some m) % 2 ^ 32 % 4 = m.value % 4 ↔
        e = .clear ∨ m.value % 4 = 3 := by
      unfold uintValue
      rw [hk]
      cases e with
      | clear => exact iff_of_true (by rw [if_pos rfl]; simp) (.inl rfl)
      | erange =>
        rw [if_neg (by decide)]
        simp
        omega
    have hkept : (∀ k ∈ some m, k.value % 4 = 3) ↔ m.value % 4 = 3 := by simp
    rw [hkept, ← hangle, Option.some_inj]
    constructor
    · intro heq
      exact congrArg OutputConfig.angle heq
    · intro heq
      rw [heq]
  | enable => exact iff_of_true (enable_result.trans h) trivial
  | disable => exact iff_of_true (disable_result.trans h) trivial
  | permanent => exact iff_of_true (permanent_result.trans h) trivial
  | peripheral => exact iff_of_true (peripheral_result.trans h) trivial

/-- Without one of its operands, a command is rejected, but for a rotation. -/
theorem result_eq_none {c : OutputClause} (h : c.Faulty) :
    parseOutputConfig.result (outputLine name c) e = none ↔ ∀ n, c ≠ .rotate n := by
  cases c with
  | pos x y width height rate s =>
    refine iff_of_true ?_ fun n heq => nomatch heq
    rw [pos_result]
    have hnone : (OutputClause.pos x y width height rate none).config name = none := by
      show ((natural 0 x).bind fun x => (natural 0 y).bind fun y => (natural 1 width).bind fun w =>
        (natural 1 height).bind fun h => (rateValue rate).bind fun r => some _) = none
      obtain h | h | h | h | h := h
      · rw [natural_eq_none le_rfl h]
        rfl
      · rw [natural_eq_none le_rfl h]
        simp
      · rw [natural_eq_none (by decide) h]
        simp
      · rw [natural_eq_none (by decide) h]
        simp
      · rw [rateValue_eq_none h]
        simp
    rw [hnone, ite_self]
  | prio n =>
    refine iff_of_true ?_ fun n heq => nomatch heq
    rw [prio_result, OutputClause.config, natural_eq_none le_rfl h]
    exact ite_self none
  | scale s =>
    refine iff_of_true ?_ fun n heq => nomatch heq
    rw [scale_result, rateValue_eq_none h]
    exact ite_self none
  | rotate n =>
    rw [rotate_result]
    exact iff_of_false (fun heq => nomatch heq) fun hne => hne n rfl
  | enable => exact absurd h not_false
  | disable => exact absurd h not_false
  | permanent => exact absurd h not_false
  | peripheral => exact absurd h not_false

/-- **The grammar of outputs.**  A command is read as it is documented exactly if its
numbers are accepted, no scale follows its position, and it is no rotation without an
operand. -/
theorem parseOutputConfig_grammar (name : Word) (c : OutputClause) (e : Errno) :
    AsDocumented name c e ↔
      (c.config name ≠ none → c.Kept e) ∧ (c.Faulty → ∀ n, c ≠ .rotate n) := by
  constructor
  · rintro ⟨hread, hrejected⟩
    constructor
    · intro hne
      obtain ⟨cfg, hcfg⟩ := Option.ne_none_iff_exists'.mp hne
      exact (result_eq_config hcfg).mp (hread cfg hcfg)
    · intro hfaulty
      exact (result_eq_none hfaulty).mp (hrejected hfaulty)
  · rintro ⟨hkept, hfaulty⟩
    constructor
    · intro cfg hcfg
      exact (result_eq_config hcfg).mpr (hkept (hcfg ▸ Option.some_ne_none cfg))
    · intro h
      exact (result_eq_none h).mpr (hfaulty h)

/-- A rotation without its operand is accepted as one by three. -/
theorem rotate_without_operand :
    outputLine (.ofString "DP-1") (.rotate none) = ascii "DP-1 rotate" ∧
      parseOutputConfig.result (ascii "DP-1 rotate") .clear =
        some { emptyOutputConfig with angle := 3, outputName := some (ascii "DP-1") } ∧
      ¬AsDocumented (.ofString "DP-1") (.rotate none) .clear := by
  have hline : outputLine (.ofString "DP-1") (.rotate none) = ascii "DP-1 rotate" := by decide
  have hread : parseOutputConfig.result (ascii "DP-1 rotate") .clear =
      some { emptyOutputConfig with angle := 3, outputName := some (ascii "DP-1") } := by
    rw [← hline]
    exact rotate_result none
  refine ⟨hline, hread, fun h => ?_⟩
  have hrejected := h.2 fun k hk => nomatch hk
  rw [hline, hread] at hrejected
  cases hrejected

end Parse

end Cagebreak
