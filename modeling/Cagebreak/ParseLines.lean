/-
Lines as they are written: words with blanks between them.

* `Word` — a word, which is read as one token;
* `line` — words with blanks between them, which are read one after the other;
* `command_result` — a command is read by the branch of its first word;
* `uintFrom_result`, `positive_result` — a number goes on if it is accepted.
-/
import Cagebreak.Lib.Numeral
import Cagebreak.ParseNumbers

namespace Cagebreak

namespace Parse

open Strto Reader

variable {L : Libraries} {modes : List Text} {t u : Text} {e : Errno} {α : Type}

/-! ### Words -/

/-- A text that is read as one token. -/
structure Word where
  text : Text
  nonempty : text ≠ []
  plain : ∀ c ∈ text, c ≠ 32

theorem space_eq : space = [32] := by decide

theorem contains_space {c : UInt8} (hc : c ≠ 32) : space.contains c = false := by
  simp [space_eq, hc]

/-- A word at the end of a line. -/
theorem Word.strtok_end (w : Word) : strtok space w.text = (some w.text, []) :=
  strtok_plain w.nonempty fun c hc => contains_space (w.plain c hc)

/-- A word with a blank after it. -/
theorem Word.strtok_blank (w : Word) : strtok space (w.text ++ 32 :: t) = (some w.text, t) :=
  strtok_word w.nonempty (fun c hc => contains_space (w.plain c hc)) (by decide)

/-- A word of the program. -/
def Word.ofString (s : String) (h : ascii s ≠ [] ∧ ∀ c ∈ ascii s, c ≠ 32 := by decide) : Word :=
  ⟨ascii s, h.1, h.2⟩

/-- A word of the program with a blank after it. -/
theorem strtok_ascii (s : String) (h : ascii s ≠ [] ∧ ∀ c ∈ ascii s, c ≠ 32 := by decide) :
    strtok space (ascii s ++ 32 :: t) = (some (ascii s), t) :=
  (Word.ofString s h).strtok_blank

/-- Words with blanks between them. -/
def line : List Word → Text
  | [] => []
  | [w] => w.text
  | w :: v :: ws => w.text ++ 32 :: line (v :: ws)

/-- A line is read word by word. -/
theorem strtok_line (w : Word) (ws : List Word) :
    strtok space (line (w :: ws)) = (some w.text, line ws) := by
  cases ws with
  | nil => exact w.strtok_end
  | cons v ws => exact w.strtok_blank

/-- A line that begins with a word of the program. -/
theorem strtok_keyword {s : String} {h : ascii s ≠ [] ∧ ∀ c ∈ ascii s, c ≠ 32} (ws : List Word) :
    strtok space (line (.ofString s h :: ws)) = (some (ascii s), line ws) :=
  strtok_line (.ofString s h) ws

theorem mem_line {ws : List Word} {c : UInt8} (h : c ∈ line ws) :
    c = 32 ∨ ∃ w ∈ ws, c ∈ w.text := by
  induction ws with
  | nil => exact absurd h List.not_mem_nil
  | cons w ws ih =>
    cases ws with
    | nil => exact .inr ⟨w, List.mem_cons_self, h⟩
    | cons v ws =>
      obtain h | h := List.mem_append.mp h
      · exact .inr ⟨w, List.mem_cons_self, h⟩
      · obtain rfl | h := List.mem_cons.mp h
        · exact .inl rfl
        · obtain h | ⟨u, hu, h⟩ := ih h
          · exact .inl h
          · exact .inr ⟨u, List.mem_cons_of_mem _ hu, h⟩

/-! ### Reading them -/

/-- A command is read by the branch of its first word. -/
theorem command_result {room : ℕ} {word : Text} {branch : Branch}
    (hword : strtok space t = (some word, u)) (hbranch : branchOf word = some branch) :
    (command L modes (room + 1)).result t e =
      (parseBranch L modes (command L modes room) branch).result u e := by
  unfold result
  rw [command, run_bind, run_token, Option.bind_some]
  dsimp only
  rw [hword, run_bind, run_require, Option.bind_some, hbranch]

/-- An argument that is there goes on to what reads the rest. -/
theorem require_result {errstr tok : Text} {f : Text → Reader α}
    (htok : strtok space t = (some tok, u)) :
    (do let tok ← token space; let tok ← require tok errstr; f tok).result t e =
      (f tok).result u e := by
  unfold result
  rw [run_bind, run_token, Option.bind_some]
  dsimp only
  rw [htok]
  rfl

/-- A token goes on to what reads the rest. -/
theorem token_result {delim tok : Text} {f : Option Text → Reader α}
    (htok : strtok delim t = (some tok, u)) :
    (token delim >>= f).result t e = (f (some tok)).result u e := by
  unfold result
  rw [run_bind, run_token, Option.bind_some]
  dsimp only
  rw [htok]

/-! ### Reading numbers -/

/-- A numeral is a word. -/
def Word.numeral (n : Numeral) : Word :=
  ⟨n.text, n.text_ne_nil, fun _ hc => n.ne_of_mem_text hc rfl (by decide)⟩

def Word.decimal (d : Decimal) : Word :=
  ⟨d.text, d.text_ne_nil, fun _ hc => d.ne_of_mem_text hc rfl (by decide) (by decide)⟩

/-- A numeral in the range of `int` is read as its value. -/
theorem strtol_value {n : Numeral} (h0 : 0 ≤ n.value) (hmax : n.value ≤ intMax) :
    (strtol n.text).value = n.value ∧ (strtol n.text).range = false := by
  rw [n.strtol_text]
  simp only [decide_eq_false_iff_not]
  unfold longMin longMax
  unfold intMax at hmax
  omega

theorem isUint_numeral {n : Numeral} : IsUint n.text ↔ 0 ≤ n.value ∧ n.value ≤ intMax := by
  constructor
  · rintro ⟨hrange, h0, hmax⟩
    rw [n.strtol_text] at hrange h0 hmax
    simp only [decide_eq_false_iff_not] at hrange h0 hmax
    unfold longMin longMax at *
    unfold intMax at *
    omega
  · rintro ⟨h0, hmax⟩
    obtain ⟨hvalue, hrange⟩ := strtol_value h0 hmax
    rw [IsUint, hvalue]
    exact ⟨hrange, h0, hmax⟩

theorem zero_le_hundredth {q : ℚ} (h : q ≤ 0) : CFloat.le (.fin q) hundredth = true := by
  simp only [hundredth, CFloat.le, CFloat.lt, CFloat.eq, Bool.or_eq_true, decide_eq_true_eq]
  left
  linarith [show (0 : ℚ) < 5764607523034235 / 2 ^ 59 by norm_num]

/-- A negative number is not accepted. -/
theorem not_isPositive_of_negative {d : Decimal} (h : d.negative = true) : ¬IsPositive d.text := by
  rintro ⟨-, -, hle⟩
  rw [d.strtof_text] at hle
  dsimp only at hle
  obtain hd | ⟨r, hr, hd⟩ := d.float_of_negative h
  · rw [hd] at hle
    exact absurd hle (by decide)
  · rw [hd, zero_le_hundredth hr] at hle
    exact absurd hle (by decide)

/-- A number from `parse_uint`, in a range, goes on to what reads the rest. -/
theorem uintFrom_result {least : ℤ} {delim errstr tok : Text} {f : ℤ → Reader α}
    (hleast : 0 ≤ least) (htok : strtok delim t = (some tok, u)) :
    (parseUintFrom least delim errstr >>= f).result t e =
      if e = .clear ∧ IsUint tok ∧ least ≤ (strtol tok).value then
        (f (strtol tok).value).result u .clear else none := by
  cases e with
  | erange =>
    rw [if_neg fun h => nomatch h.1]
    unfold result
    rw [run_bind, refuses_parseUintFrom hleast]
    rfl
  | clear =>
    unfold result
    rw [parseUintFrom, run_bind, run_bind, parseUint_clear, htok]
    dsimp only
    rw [Option.bind_some, run_bind, run_failIf]
    by_cases h : IsUint tok
    · rw [if_pos h, h.1, if_neg Bool.false_ne_true]
      by_cases hle : least ≤ (strtol tok).value
      · rw [if_neg (not_lt.mpr hle), if_pos ⟨rfl, h, hle⟩]
        rfl
      · rw [if_pos (not_le.mp hle), if_neg fun hand => hle hand.2.2]
        rfl
    · have hnot : ¬(Errno.clear = .clear ∧ IsUint tok ∧ least ≤ (strtol tok).value) :=
        fun hand => h hand.2.1
      rw [if_neg h, if_pos (by omega), if_neg hnot]
      rfl

/-- A missing number is rejected. -/
theorem uintFrom_missing {least : ℤ} {delim errstr : Text} {f : ℤ → Reader α}
    (hleast : 0 ≤ least) (htok : strtok delim t = (none, u)) :
    (parseUintFrom least delim errstr >>= f).result t e = none := by
  unfold result
  cases e with
  | erange =>
    rw [run_bind, refuses_parseUintFrom hleast]
    rfl
  | clear =>
    rw [parseUintFrom, run_bind, run_bind, parseUint_clear, htok]
    dsimp only
    rw [Option.bind_some, run_bind, run_failIf, if_pos (by omega)]
    rfl

/-! ### Operands -/

/-- An operand, if it is written. -/
def operand (n : Option Numeral) : List Word := n.toList.map .numeral

/-- The value of an operand from `least` on. -/
def natural (least : ℤ) (n : Option Numeral) : Option ℤ :=
  n.bind fun n => if least ≤ n.value ∧ n.value ≤ intMax then some n.value else none

theorem natural_some {least : ℤ} {n : Numeral} :
    natural least (some n) =
      if least ≤ n.value ∧ n.value ≤ intMax then some n.value else none := rfl

/-- A numeral goes on to what reads the rest if it is in range. -/
theorem numeral_result {least : ℤ} {delim errstr : Text} {n : Numeral} {α : Type} {f : ℤ → Reader α}
    (hleast : 0 ≤ least) (htok : strtok delim t = (some n.text, u)) :
    (parseUintFrom least delim errstr >>= f).result t .clear =
      (natural least (some n)).bind fun k => (f k).result u .clear := by
  rw [uintFrom_result hleast htok, natural_some]
  by_cases h : least ≤ n.value ∧ n.value ≤ intMax
  · have hrange := isUint_numeral.mpr ⟨hleast.trans h.1, h.2⟩
    obtain ⟨hvalue, -⟩ := strtol_value (hleast.trans h.1) h.2
    rw [hvalue, if_pos ⟨rfl, hrange, h.1⟩, if_pos h]
    rfl
  · rw [if_neg h, if_neg]
    · rfl
    · rintro ⟨-, hrange, hle⟩
      obtain ⟨h0, hmax⟩ := isUint_numeral.mp hrange
      rw [(strtol_value h0 hmax).1] at hle
      exact h ⟨hle, hmax⟩

/-- No number is accepted when `ERANGE` is left over. -/
theorem uintFrom_erange {least : ℤ} {delim errstr : Text} {α : Type} {f : ℤ → Reader α}
    (hleast : 0 ≤ least) : (parseUintFrom least delim errstr >>= f).result t .erange = none := by
  unfold result
  rw [run_bind, refuses_parseUintFrom hleast]
  rfl

theorem failIf_result {c : Prop} [Decidable c] {errstr : Text} {α : Type} {f : Unit → Reader α} :
    (failIf c errstr >>= f).result t e = if c then none else (f ()).result t e := by
  unfold result
  rw [run_bind, run_failIf]
  split
  · rfl
  · rfl

/-- An operand that is at the end of its line. -/
theorem operand_result {least : ℤ} {errstr : Text} {n : Option Numeral} {α : Type}
    {f : ℤ → Reader α}
    (hleast : 0 ≤ least) :
    (parseUintFrom least space errstr >>= f).result (line (operand n)) .clear =
      (natural least n).bind fun k => (f k).result [] .clear := by
  cases n with
  | none => exact uintFrom_missing hleast rfl
  | some n => exact numeral_result hleast (strtok_line (.numeral n) [])

/-! ### Floating point numbers -/

/-- A number from `parse_float` that has to be positive goes on to what reads the rest. -/
theorem positive_result {errstr tok : Text} {f : CFloat → Reader α}
    (htok : strtok space t = (some tok, u)) :
    (parsePositive errstr >>= f).result t e =
      if e = .clear ∧ IsPositive tok then (f (strtof tok).value).result u .clear else none := by
  cases e with
  | erange =>
    rw [if_neg fun h => nomatch h.1]
    unfold result
    rw [run_bind, refuses_parsePositive]
    rfl
  | clear =>
    unfold result
    rw [parsePositive, run_bind, run_bind, parseFloat_clear, htok]
    dsimp only
    rw [Option.bind_some, run_bind, run_failIf]
    by_cases h : (strtof tok).range = false ∧ (strtof tok).value ≠ .inf false
    · rw [if_pos h, h.1, if_neg Bool.false_ne_true]
      cases hle : (strtof tok).value.le hundredth with
      | true =>
        rw [if_pos rfl, if_neg fun hand => by
          rw [hand.2.2.2] at hle
          exact Bool.false_ne_true hle]
        rfl
      | false =>
        rw [if_neg Bool.false_ne_true, if_pos ⟨rfl, h.1, h.2, hle⟩]
        rfl
    · have hnot : ¬(Errno.clear = .clear ∧ IsPositive tok) :=
        fun hand => h ⟨hand.2.1, hand.2.2.1⟩
      rw [if_neg h, if_pos fltMin_le_hundredth, if_neg hnot]
      rfl

theorem positive_missing {errstr : Text} {f : CFloat → Reader α}
    (htok : strtok space t = (none, u)) : (parsePositive errstr >>= f).result t e = none := by
  unfold result
  cases e with
  | erange =>
    rw [run_bind, refuses_parsePositive]
    rfl
  | clear =>
    rw [parsePositive, run_bind, run_bind, parseFloat_clear, htok]
    dsimp only
    rw [Option.bind_some, run_bind, run_failIf, if_pos neg_one_le_hundredth]
    rfl

end Parse

end Cagebreak
