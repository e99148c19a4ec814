/-
The settings of input devices, as they are documented (`parse_input_config`).

* `WordSetting` — the settings whose values are words, each with its words and its field;
* `InputClause` — a setting with its value, as it is written;
* `InputClause.config` — the configuration that it documents;
* `parseInputConfig_grammar` — it is what the parser reads, but for `click_method`, whose
  comparisons are inverted, for `tap_button_map`, which is stored as `tap`, and for a
  button that is given by its code, which is rejected.
-/
import Cagebreak.ParseFloats
import Cagebreak.ParseLines

namespace Cagebreak

namespace Parse

open Strto Reader

variable {L : Libraries} {events : Text → Option ℤ} {ident : Word} {e : Errno} {α : Type}

/-! ### Settings -/

/-- The settings that have words for their values. -/
inductive WordSetting
  | accelProfile
  | clickMethod
  | drag
  | dragLock
  | dwt
  | sendEvents
  | keybindings
  | leftHanded
  | middleEmulation
  | naturalScroll
  | scrollMethod
  | tap
  | tapButtonMap

namespace WordSetting

def keyword : WordSetting → String
  | accelProfile => "accel_profile"
  | clickMethod => "click_method"
  | drag => "drag"
  | dragLock => "drag_lock"
  | dwt => "dwt"
  | sendEvents => "events"
  | keybindings => "keybindings"
  | leftHanded => "left_handed"
  | middleEmulation => "middle_emulation"
  | naturalScroll => "natural_scroll"
  | scrollMethod => "scroll_method"
  | tap => "tap"
  | tapButtonMap => "tap_button_map"

/-- The documented words, with the constants that they stand for. -/
def words : WordSetting → List (String × ℤ)
  | accelProfile => [("adaptive", 2), ("flat", 1)]
  | clickMethod => [("none", 0), ("button_areas", 1), ("clickfinger", 2)]
  | sendEvents => [("enabled", 0), ("disabled", 1), ("disabled_on_external_mouse", 2)]
  | scrollMethod => [("none", 0), ("two_finger", 1), ("edge", 2), ("on_button_down", 4)]
  | tapButtonMap => [("lrm", 0), ("lmr", 1)]
  | drag | dragLock | dwt | keybindings | leftHanded | middleEmulation | naturalScroll | tap =>
    [("enabled", 1), ("disabled", 0)]

/-- The value that a word stands for. -/
def value (s : WordSetting) (word : Text) : Option ℤ :=
  (s.words.find? fun o => ascii o.1 = word).map Prod.snd

/-- The field that belongs to a setting is set. -/
def set (n : ℤ) (cfg : InputConfig) : WordSetting → InputConfig
  | accelProfile => { cfg with accelProfile := n }
  | clickMethod => { cfg with clickMethod := n }
  | drag => { cfg with drag := n }
  | dragLock => { cfg with dragLock := n }
  | dwt => { cfg with dwt := n }
  | sendEvents => { cfg with sendEvents := n }
  | keybindings => { cfg with enableKeybindings := n }
  | leftHanded => { cfg with leftHanded := n }
  | middleEmulation => { cfg with middleEmulation := n }
  | naturalScroll => { cfg with naturalScroll := n }
  | scrollMethod => { cfg with scrollMethod := n }
  | tap => { cfg with tap := n }
  | tapButtonMap => { cfg with tapButtonMap := n }

end WordSetting

/-- A setting of an input device with its value. -/
inductive InputClause
  | word (s : WordSetting) (value : Text)
  | calibrationMatrix (xs : Vector Decimal 6)
  | pointerAccel (x : Decimal)
  | scrollFactor (x : Decimal)
  | repeatDelay (n : Numeral)
  | repeatRate (n : Numeral)
  | button (name : Text)
  | buttonCode (n : Numeral)
  | noButton
  | other (setting : Word) (value : Text)

namespace InputClause

def setting : InputClause → Text
  | .word s _ => ascii s.keyword
  | .calibrationMatrix _ => ascii "calibration_matrix"
  | .pointerAccel _ => ascii "pointer_accel"
  | .scrollFactor _ => ascii "scroll_factor"
  | .repeatDelay _ => ascii "repeat_delay"
  | .repeatRate _ => ascii "repeat_rate"
  | .button _ | .buttonCode _ | .noButton => ascii "scroll_button"
  | .other setting _ => setting.text

def value : InputClause → Text
  | .word _ value => value
  | .calibrationMatrix xs => line (xs.toList.map .decimal)
  | .pointerAccel x | .scrollFactor x => x.text
  | .repeatDelay n | .repeatRate n => n.text
  | .button name => name
  | .buttonCode n => n.text
  | .noButton => ascii "disable"
  | .other _ value => value

end InputClause

/-- The line after `input`. -/
def inputLine (ident : Word) (c : InputClause) : Text :=
  ident.text ++ 32 :: (c.setting ++ 32 :: c.value)

/-- The documented settings. -/
def documentedSettings : List String :=
  ["accel_profile", "calibration_matrix", "click_method", "drag", "drag_lock", "dwt", "events",
    "keybindings", "left_handed", "middle_emulation", "natural_scroll", "pointer_accel",
    "scroll_button", "scroll_factor", "scroll_method", "repeat_delay", "repeat_rate", "tap",
    "tap_button_map"]

/-! ### Their meaning -/

/-- The library knows the codes of these events, and no others; their names begin with
`BTN_` or `KEY_`. -/
structure Evdev (L : Libraries) (events : Text → Option ℤ) : Prop where
  code : ∀ name, L.libevdevEventCodeFromName name = (events name).getD (-1)
  nonneg : ∀ name c, events name = some c → 0 ≤ c
  named : ∀ name c, events name = some c →
    name.take 4 = ascii "BTN_" ∨ name.take 4 = ascii "KEY_"

/-- A number that a `float` has room for. -/
def InFloatRange (x : Decimal) : Prop := (strtof x.text).range = false

instance {x : Decimal} : Decidable (InFloatRange x) := inferInstanceAs (Decidable (_ = _))

/-- The event with this code is a button. -/
def IsButton (L : Libraries) (code : ℤ) : Prop :=
  ∃ name, L.libevdevEventCodeGetName code = some name ∧ name.take 4 = ascii "BTN_"

/-- What is documented for a setting and its value: the field of the setting has the
value, and the others are those of the empty configuration. -/
def InputClause.Documents (L : Libraries) (events : Text → Option ℤ) (ident : Word)
    (c : InputClause) (cfg : InputConfig) : Prop :=
  let base := { emptyInputConfig with identifier := some ident.text }
  match c with
  | .word s value => ∃ n, s.value value = some n ∧ cfg = s.set n base
  | .calibrationMatrix xs => (∀ x ∈ xs, InFloatRange x) ∧
    cfg = { base with calibrationMatrix := ⟨true, xs.map Decimal.float⟩ }
  | .pointerAccel x => InFloatRange x ∧ -1 ≤ x.value ∧ x.value ≤ 1 ∧
    cfg = { base with pointerAccel := x.float }
  | .scrollFactor x => InFloatRange x ∧ 0 ≤ x.value ∧ cfg = { base with scrollFactor := x.float }
  | .repeatDelay n => 0 ≤ n.value ∧ n.value ≤ intMax ∧ cfg = { base with repeatDelay := n.value }
  | .repeatRate n => 0 ≤ n.value ∧ n.value ≤ intMax ∧ cfg = { base with repeatRate := n.value }
  | .button name => ∃ code, events name = some code ∧ cfg = { base with scrollButton := code }
  | .buttonCode n => 0 < n.value ∧ n.value ≤ intMax ∧ IsButton L n.value ∧
    cfg = { base with scrollButton := n.value }
  | .noButton => cfg = { base with scrollButton := 0 }
  | .other _ _ => False

/-- A word that is documented neither as a setting nor as a value of its setting. -/
def InputClause.Undocumented (events : Text → Option ℤ) : InputClause → Prop
  | .word s value => s.value value = none
  | .button name => events name = none ∧ name ≠ ascii "disable" ∧ ∀ n : Numeral, name ≠ n.text
  | .other setting _ => ∀ s ∈ documentedSettings, setting.text ≠ ascii s
  | _ => False

/-- A setting is read as it is documented. -/
def ReadAsDocumented (L : Libraries) (events : Text → Option ℤ) (ident : Word) (c : InputClause)
    (e : Errno) : Prop :=
  (∀ cfg, c.Documents L events ident cfg →
    (parseInputConfig L).result (inputLine ident c) e = some cfg) ∧
    (c.Undocumented events → (parseInputConfig L).result (inputLine ident c) e = none)

/-! ### What is read -/

theorem choose_result {options : List (String × ℤ)} {value errstr t : Text} {f : ℤ → α} :
    (do let n ← choose options value errstr; pure (f n)).result t e =
      ((options.find? fun o => ascii o.1 = value).map Prod.snd).map f := by
  unfold choose
  cases options.find? fun o => ascii o.1 = value with
  | none => rfl
  | some o => rfl

/-- The field that the parser sets. -/
def WordSetting.store (n : ℤ) (cfg : InputConfig) : WordSetting → InputConfig
  | .tapButtonMap => { cfg with tap := n }
  | s => s.set n cfg

/-- The word of a setting is looked up, but that of `click_method`. -/
theorem parseInputSetting_word {s : WordSetting} {value t : Text} {cfg : InputConfig}
    (hs : s ≠ .clickMethod) :
    (parseInputSetting L (ascii s.keyword) value cfg).result t e =
      (s.value value).map fun n => s.store n cfg := by
  cases s with
  | clickMethod => exact absurd rfl hs
  | accelProfile => exact choose_result
  | drag => exact choose_result
  | dragLock => exact choose_result
  | dwt => exact choose_result
  | sendEvents => exact choose_result
  | keybindings => exact choose_result
  | leftHanded => exact choose_result
  | middleEmulation => exact choose_result
  | naturalScroll => exact choose_result
  | scrollMethod => exact choose_result
  | tap => exact choose_result
  | tapButtonMap => exact choose_result

/-- Its methods are compared with the wrong sense. -/
theorem parseInputSetting_clickMethod {value t : Text} {cfg : InputConfig} :
    (parseInputSetting L (ascii "click_method") value cfg).result t e =
      some { cfg with clickMethod := if value = ascii "none" then 1 else 0 } := by
  show (if value ≠ ascii "none" then (pure { cfg with clickMethod := 0 } : Reader InputConfig)
    else if value ≠ ascii "button_areas" then pure { cfg with clickMethod := 1 }
    else _).result t e = _
  by_cases h : value = ascii "none"
  · rw [if_neg (not_not_intro h), if_pos h, if_pos (by rw [h]; decide)]
    rfl
  · rw [if_pos h, if_neg h]
    rfl

theorem documented_plain : ∀ s ∈ documentedSettings, ascii s ≠ [] ∧ ∀ a ∈ ascii s, a ≠ 32 := by
  decide

theorem WordSetting.keyword_mem (s : WordSetting) : s.keyword ∈ documentedSettings := by
  cases s <;> decide

/-- A setting is a word. -/
theorem InputClause.setting_plain (c : InputClause) :
    c.setting ≠ [] ∧ ∀ a ∈ c.setting, a ≠ 32 := by
  cases c with
  | word s => exact documented_plain _ s.keyword_mem
  | calibrationMatrix => exact documented_plain "calibration_matrix" (by decide)
  | pointerAccel => exact documented_plain "pointer_accel" (by decide)
  | scrollFactor => exact documented_plain "scroll_factor" (by decide)
  | repeatDelay => exact documented_plain "repeat_delay" (by decide)
  | repeatRate => exact documented_plain "repeat_rate" (by decide)
  | button | buttonCode | noButton => exact documented_plain "scroll_button" (by decide)
  | other setting => exact ⟨setting.nonempty, setting.plain⟩

/-- A setting is read with the rest of its line. -/
theorem inputLine_result (c : InputClause) :
    (parseInputConfig L).result (inputLine ident c) e =
      (parseInputSetting L c.setting c.value
        { emptyInputConfig with identifier := some ident.text }).result c.value e := by
  have hsetting : strtok space (c.setting ++ 32 :: c.value) = (some c.setting, c.value) :=
    Word.strtok_blank ⟨c.setting, c.setting_plain.1, c.setting_plain.2⟩
  rw [parseInputConfig, inputLine, require_result ident.strtok_blank, require_result hsetting]
  rfl

/-! ### Floating point numbers -/

theorem float_ne_inf {x : Decimal} (h : InFloatRange x) : x.float ≠ .inf false := by
  have hrange : (roundFloat x.size).2 = false := by
    rw [InFloatRange, x.strtof_text] at h
    exact h
  have hfin : ∀ neg, (roundFloat x.size).1 ≠ .inf neg := by
    intro neg
    unfold roundFloat at hrange ⊢
    dsimp only at hrange ⊢
    split at hrange
    · cases hrange
    · next hlt =>
      rw [if_neg hlt]
      simp
  unfold Decimal.float
  split
  · intro heq
    cases hr : (roundFloat x.size).1 with
    | fin q =>
      rw [hr] at heq
      cases heq
    | inf neg => exact hfin neg hr
    | nan => exact roundFloat_ne_nan _ hr
  · exact hfin false

/-- A number in range is read as the nearest one of 24 bits. -/
theorem parseFloat_decimal {x : Decimal} (h : InFloatRange x) (rest : List Word) :
    (parseFloat space).run ⟨line (.decimal x :: rest), .clear⟩ =
      some (x.float, ⟨line rest, .clear⟩) := by
  have htok : strtok space (line (.decimal x :: rest)) = (some x.text, line rest) :=
    strtok_line (.decimal x) rest
  have hvalue : (strtof x.text).value = x.float := by rw [x.strtof_text]
  have hrange : (strtof x.text).range = false := h
  rw [parseFloat_clear, htok]
  dsimp only
  rw [hvalue, hrange, if_pos ⟨rfl, float_ne_inf h⟩, if_neg Bool.false_ne_true]

/-- Numbers in range are read, unless one of them is the one that stands for an invalid
number. -/
theorem run_parseFloats_decimals {n : ℕ} (errstr : Text) (xs : Vector Decimal n) (rest : List Word)
    (h : ∀ x ∈ xs, InFloatRange x) :
    (parseFloats errstr n).run ⟨line (xs.toList.map .decimal ++ rest), .clear⟩ =
      if ∀ x ∈ xs, x.float ≠ fltMin then some (xs.map Decimal.float, ⟨line rest, .clear⟩)
      else none := by
  induction n generalizing rest with
  | zero =>
    obtain rfl : xs = #v[] := Vector.eq_empty
    have hline : (#v[] : Vector Decimal 0).toList.map Word.decimal ++ rest = rest := by simp
    have hmap : (#v[] : Vector Decimal 0).map Decimal.float = #v[] := Vector.eq_empty
    rw [if_pos (by simp), hline, hmap]
    rfl
  | succ n ih =>
    obtain ⟨ys, x, hxs⟩ : ∃ (ys : Vector Decimal n) (x : Decimal), xs = ys.push x :=
      Vector.exists_push
    subst hxs
    have hline : (ys.push x).toList.map Word.decimal ++ rest =
        ys.toList.map Word.decimal ++ .decimal x :: rest := by
      rw [Vector.toList_push, List.map_append, List.append_assoc]
      rfl
    have hys := ih ys (.decimal x :: rest) fun y hy => h y (Vector.mem_push.mpr (.inl hy))
    have hx : InFloatRange x := h x Vector.mem_push_self
    have hall : (∀ y ∈ ys.push x, y.float ≠ fltMin) ↔
        (∀ y ∈ ys, y.float ≠ fltMin) ∧ x.float ≠ fltMin := by
      simp only [Vector.mem_push, or_imp, forall_and, forall_eq]
    rw [run_parseFloats_succ, hline, hys]
    by_cases hbefore : ∀ y ∈ ys, y.float ≠ fltMin
    · rw [if_pos hbefore, Option.bind_some, parseFloat_decimal hx, Option.bind_some]
      by_cases hmin : x.float = fltMin
      · rw [if_neg fun hand => (hall.mp hand).2 hmin, hmin, fltMin_eq, if_pos rfl]
      · have heq : ¬x.float.eq fltMin = true := fun heq => hmin (CFloat.eq_of_eq heq)
        rw [if_neg heq, if_pos (hall.mpr ⟨hbefore, hmin⟩), Vector.map_push]
    · rw [if_neg hbefore, if_neg fun hand => hbefore (hall.mp hand).1]
      rfl

/-- Numbers that are documented are read if `errno` is clear. -/
theorem parseFloats_result {n : ℕ} {errstr : Text} {xs : Vector Decimal (n + 1)}
    {f : Vector CFloat (n + 1) → InputConfig} (h : ∀ x ∈ xs, InFloatRange x) :
    (do let ys ← parseFloats errstr (n + 1); pure (f ys)).result
        (line (xs.toList.map .decimal)) e = some (f (xs.map Decimal.float)) ↔
      e = .clear ∧ ∀ x ∈ xs, x.float ≠ fltMin := by
  rw [result_map]
  unfold result
  cases e with
  | erange =>
    have htok : (strtok space (line (xs.toList.map .decimal))).1 ≠ none := by
      have hlen : xs.toList.length = n + 1 := Vector.length_toList
      obtain ⟨x, ys, hcons⟩ := List.exists_cons_of_length_eq_add_one hlen
      rw [hcons, List.map_cons, strtok_line]
      exact Option.some_ne_none _
    rw [parseFloats_erange errstr htok]
    exact iff_of_false (fun heq => nomatch heq) fun hand => nomatch hand.1
  | clear =>
    have hrun := run_parseFloats_decimals errstr xs [] h
    rw [List.append_nil] at hrun
    rw [hrun]
    by_cases hall : ∀ x ∈ xs, x.float ≠ fltMin
    · rw [if_pos hall]
      exact iff_of_true rfl ⟨rfl, hall⟩
    · rw [if_neg hall]
      exact iff_of_false (fun heq => nomatch heq) fun hand => hall hand.2

/-! ### Buttons -/

/-- The name of an event is no number. -/
theorem Evdev.strtol (h : Evdev L events) {name : Text} {code : ℤ}
    (hname : events name = some code) :
    Strto.strtol name = ⟨0, name, false⟩ := by
  have hhead : ∃ c t, name = c :: t ∧ (c = 66 ∨ c = 75) := by
    cases name with
    | nil =>
      obtain hn | hn := h.named [] code hname
      · cases hn
      · cases hn
    | cons c t =>
      obtain hn | hn := h.named (c :: t) code hname
      · exact ⟨c, t, rfl, .inl (List.cons.inj hn).1⟩
      · exact ⟨c, t, rfl, .inr (List.cons.inj hn).1⟩
  obtain ⟨c, t, rfl, rfl | rfl⟩ := hhead
  · rfl
  · rfl

/-- A button that is given by the name of an event, unless its code is zero. -/
theorem parseInputSetting_button (h : Evdev L events) {name t : Text} {cfg : InputConfig} :
    (parseInputSetting L (ascii "scroll_button") name cfg).result t e =
      (events name).bind fun code =>
        if code = 0 then none else some { cfg with scrollButton := code } := by
  show (inputManagerGetMouseButton L name >>= _).result t e = _
  cases hname : events name with
  | none =>
    have hcode : L.libevdevEventCodeFromName name = -1 := by rw [h.code, hname, Option.getD_none]
    have hget : inputManagerGetMouseButton L name =
        pure (.error (ascii "Unknown event " ++ name)) := by
      unfold inputManagerGetMouseButton getMouseBindsym
      rw [hcode]
      rfl
    rw [hget]
    rfl
  | some code =>
    have hcode : L.libevdevEventCodeFromName name = code := by rw [h.code, hname, Option.getD_some]
    have hnonneg := h.nonneg name code hname
    have hsym : getMouseBindsym L name = .ok code := by
      unfold getMouseBindsym
      rw [hcode]
      exact if_neg (by omega)
    rw [Option.bind_some]
    by_cases hzero : code = 0
    · subst hzero
      have hget : inputManagerGetMouseButton L name = getMouseBindcode L name := by
        unfold inputManagerGetMouseButton
        rw [hsym]
        rfl
      -- the name is not the code of a button either
      have hbind : (getMouseBindcode L name).run ⟨t, e⟩ =
          some (.error (ascii "Button event code must be a positive integer."), ⟨t, .clear⟩) := by
        unfold getMouseBindcode
        rw [h.strtol hname, run_bind]
        show (Reader.run _ ⟨t, .clear⟩) = _
        rw [run_bind, run_convert, Option.bind_some]
        dsimp only
        rw [run_bind, run_isErange, Option.bind_some, if_pos ⟨rfl, by decide⟩]
        rfl
      rw [hget, if_pos rfl, result, run_bind, hbind]
      rfl
    · have hget : inputManagerGetMouseButton L name = pure (.ok code) := by
        unfold inputManagerGetMouseButton
        rw [hsym]
        split
        · next heq => exact absurd (Except.ok.inj heq) hzero
        · rfl
      rw [hget, if_neg hzero]
      rfl

/-! ### What is kept of the documentation -/

theorem WordSetting.exists_of_value {s : WordSetting} {word : Text} {n : ℤ}
    (h : s.value word = some n) : ∃ o ∈ s.words, ascii o.1 = word ∧ o.2 = n := by
  obtain ⟨o, ho, rfl⟩ := Option.map_eq_some_iff.mp h
  exact ⟨o, List.mem_of_find?_eq_some ho, by simpa using List.find?_some ho, rfl⟩

/-- No word of `click_method` is read as the method that it stands for. -/
theorem clickMethod_ne {word : Text} {n : ℤ} (h : WordSetting.clickMethod.value word = some n) :
    (if word = ascii "none" then 1 else 0) ≠ n := by
  obtain ⟨o, ho, rfl, rfl⟩ := WordSetting.exists_of_value h
  have hwords : ∀ o ∈ WordSetting.clickMethod.words,
      (if ascii o.1 = ascii "none" then 1 else 0) ≠ o.2 := by decide
  exact hwords o ho

/-- The unset mapping of buttons is none of the documented ones. -/
theorem tapButtonMap_ne {word : Text} {n : ℤ} (h : WordSetting.tapButtonMap.value word = some n) :
    intMin ≠ n := by
  obtain ⟨o, ho, rfl, rfl⟩ := WordSetting.exists_of_value h
  have hwords : ∀ o ∈ WordSetting.tapButtonMap.words, intMin ≠ o.2 := by decide
  exact hwords o ho

/-- When a documented setting is read as it is documented. -/
def InputClause.Kept (events : Text → Option ℤ) (e : Errno) : InputClause → Prop
  | .word s _ => s ≠ .clickMethod ∧ s ≠ .tapButtonMap
  | .calibrationMatrix xs => e = .clear ∧ ∀ x ∈ xs, x.float ≠ fltMin
  | .pointerAccel x | .scrollFactor x => e = .clear ∧ x.float ≠ fltMin
  | .repeatDelay _ | .repeatRate _ => e = .clear
  | .button name => events name ≠ some 0
  | .buttonCode _ | .noButton => False
  | .other _ _ => True

theorem word_kept {s : WordSetting} {word : Text} {n : ℤ} {cfg : InputConfig} {t : Text}
    (hunset : cfg.tapButtonMap = intMin) (h : s.value word = some n) :
    (parseInputSetting L (ascii s.keyword) word cfg).result t e = some (s.set n cfg) ↔
      s ≠ .clickMethod ∧ s ≠ .tapButtonMap := by
  by_cases hclick : s = .clickMethod
  · subst hclick
    refine iff_of_false (fun heq => ?_) fun hand => hand.1 rfl
    have hread : (parseInputSetting L (ascii "click_method") word cfg).result t e =
        some { cfg with clickMethod := n } := heq
    rw [parseInputSetting_clickMethod] at hread
    exact clickMethod_ne h (congrArg InputConfig.clickMethod (Option.some_inj.mp hread))
  · rw [parseInputSetting_word hclick, h, Option.map_some, Option.some_inj, and_iff_right hclick]
    by_cases htap : s = .tapButtonMap
    · subst htap
      refine iff_of_false (fun heq => ?_) fun hne => hne rfl
      have hfield : cfg.tapButtonMap = n := congrArg InputConfig.tapButtonMap heq
      exact tapButtonMap_ne h (hunset.symm.trans hfield)
    · refine iff_of_true ?_ htap
      cases s with
      | tapButtonMap => exact absurd rfl htap
      | accelProfile | clickMethod | drag | dragLock | dwt | sendEvents | keybindings => rfl
      | leftHanded | middleEmulation | naturalScroll | scrollMethod | tap => rfl

/-- A number of milliseconds, or a rate. -/
theorem uint_kept {n : Numeral} {errstr : Text} {f : ℤ → InputConfig} (h0 : 0 ≤ n.value)
    (hmax : n.value ≤ intMax) :
    (do let k ← parseUintFrom 0 space errstr; pure (f k)).result n.text e = some (f n.value) ↔
      e = .clear := by
  cases e with
  | erange =>
    rw [uintFrom_erange le_rfl]
    exact iff_of_false (fun heq => nomatch heq) fun heq => nomatch heq
  | clear =>
    have htok : strtok space n.text = (some n.text, []) := (Word.numeral n).strtok_end
    rw [numeral_result le_rfl htok, natural_some, if_pos ⟨h0, hmax⟩]
    exact iff_of_true rfl rfl

theorem float_kept {x : Decimal} {errstr : Text} {f : CFloat → InputConfig} (h : InFloatRange x) :
    (do let ys ← parseFloats errstr 1; pure (f (ys.get 0))).result x.text e = some (f x.float) ↔
      e = .clear ∧ x.float ≠ fltMin := by
  have hxs : ∀ y ∈ #v[x], InFloatRange y := by
    intro y hy
    obtain rfl : y = x := by simpa using hy
    exact h
  have hall : (∀ y ∈ #v[x], y.float ≠ fltMin) ↔ x.float ≠ fltMin := by simp
  have hget : ((#v[x] : Vector Decimal 1).map Decimal.float)[0] = x.float := by simp
  rw [← hall, ← hget]
  exact @parseFloats_result e 0 errstr #v[x] (fun ys => f ys[0]) hxs

/-- A numeral is no event. -/
theorem Evdev.numeral (h : Evdev L events) (n : Numeral) : events n.text = none := by
  cases hcode : events n.text with
  | none => rfl
  | some code =>
    -- it would be read as a number
    have hend := h.strtol hcode
    rw [n.strtol_text] at hend
    exact absurd (congrArg Converted.endptr hend).symm n.text_ne_nil

theorem Evdev.disable (h : Evdev L events) : events (ascii "disable") = none := by
  cases hcode : events (ascii "disable") with
  | none => rfl
  | some code =>
    obtain hn | hn := h.named _ code hcode
    · exact absurd hn (by decide)
    · exact absurd hn (by decide)

/-- **What is kept.** -/
theorem documents_kept (hL : Evdev L events) {c : InputClause} {cfg : InputConfig}
    (h : c.Documents L events ident cfg) :
    (parseInputConfig L).result (inputLine ident c) e = some cfg ↔ c.Kept events e := by
  rw [inputLine_result]
  cases c with
  | word s word =>
    obtain ⟨n, hn, rfl⟩ := h
    exact word_kept rfl hn
  | calibrationMatrix xs =>
    obtain ⟨hrange, rfl⟩ := h
    exact parseFloats_result (f := fun ys => { emptyInputConfig with
      identifier := some ident.text
      calibrationMatrix := ⟨true, ys⟩ }) hrange
  | pointerAccel x =>
    obtain ⟨hrange, -, -, rfl⟩ := h
    exact float_kept (f := fun y => { emptyInputConfig with
      identifier := some ident.text
      pointerAccel := y }) hrange
  | scrollFactor x =>
    obtain ⟨hrange, -, rfl⟩ := h
    exact float_kept (f := fun y => { emptyInputConfig with
      identifier := some ident.text
      scrollFactor := y }) hrange
  | repeatDelay n =>
    obtain ⟨h0, hmax, rfl⟩ := h
    exact uint_kept (f := fun k => { emptyInputConfig with
      identifier := some ident.text
      repeatDelay := k }) h0 hmax
  | repeatRate n =>
    obtain ⟨h0, hmax, rfl⟩ := h
    exact uint_kept (f := fun k => { emptyInputConfig with
      identifier := some ident.text
      repeatRate := k }) h0 hmax
  -- the code 0 counts as an unknown event
  | button name =>
    obtain ⟨code, hcode, rfl⟩ := h
    have hread := @parseInputSetting_button L events e hL name name
      { emptyInputConfig with identifier := some ident.text }
    rw [hcode, Option.bind_some] at hread
    show (parseInputSetting L (ascii "scroll_button") name _).result name e = _ ↔
      events name ≠ some 0
    rw [hread, hcode]
    by_cases hzero : code = 0
    · rw [if_pos hzero]
      exact iff_of_false (fun heq => nomatch heq) fun hne => hne (congrArg some hzero)
    · rw [if_neg hzero]
      exact iff_of_true rfl fun heq => hzero (Option.some_inj.mp heq)
  -- a code is looked up as if it were a name
  | buttonCode n =>
    show (parseInputSetting L (ascii "scroll_button") n.text _).result n.text e = _ ↔ False
    rw [parseInputSetting_button hL, hL.numeral]
    exact iff_of_false (fun heq => nomatch heq) not_false
  | noButton =>
    show (parseInputSetting L (ascii "scroll_button") (ascii "disable") _).result _ e = _ ↔ False
    rw [parseInputSetting_button hL, hL.disable]
    exact iff_of_false (fun heq => nomatch heq) not_false
  | other setting value => exact absurd h not_false

/-- A word that is not documented is rejected, but for a method of `click_method`. -/
theorem undocumented_rejected (hL : Evdev L events) {c : InputClause} (h : c.Undocumented events) :
    (parseInputConfig L).result (inputLine ident c) e = none ↔
      ∀ word, c ≠ .word .clickMethod word := by
  rw [inputLine_result]
  cases c with
  | word s word =>
    by_cases hclick : s = .clickMethod
    · subst hclick
      show (parseInputSetting L (ascii "click_method") word _).result word e = none ↔ _
      rw [parseInputSetting_clickMethod]
      exact iff_of_false (fun heq => nomatch heq) fun hne => hne word rfl
    · have hnone : s.value word = none := h
      show (parseInputSetting L (ascii s.keyword) word _).result word e = none ↔ _
      rw [parseInputSetting_word hclick, hnone]
      refine iff_of_true rfl fun word' heq => hclick ?_
      cases heq
      rfl
  | button name =>
    show (parseInputSetting L (ascii "scroll_button") name _).result name e = none ↔ _
    rw [parseInputSetting_button hL, h.1]
    exact iff_of_true rfl fun word heq => nomatch heq
  | other setting value =>
    refine iff_of_true ?_ fun word heq => nomatch heq
    show (parseInputSetting L setting.text value _).result value e = none
    have hsetting : ∀ s ∈ documentedSettings, setting.text ≠ ascii s := h
    simp only [documentedSettings, List.forall_mem_cons, List.not_mem_nil, false_implies,
      implies_true, and_true] at hsetting
    simp only [parseInputSetting, hsetting, if_false]
    rfl
  | calibrationMatrix | pointerAccel | scrollFactor => exact absurd h not_false
  | repeatDelay | repeatRate | buttonCode | noButton => exact absurd h not_false

/-- **The settings of input devices.**  A setting is read as it is documented exactly if it
is kept, and an undocumented word is rejected but for `click_method`. -/
theorem parseInputConfig_grammar (L : Libraries) (events : Text → Option ℤ) (hL : Evdev L events)
    (ident : Word) (c : InputClause) (e : Errno) :
    ReadAsDocumented L events ident c e ↔
      ((∃ cfg, c.Documents L events ident cfg) → c.Kept events e) ∧
      (c.Undocumented events → ∀ word, c ≠ .word .clickMethod word) := by
  constructor
  · rintro ⟨hread, hrejected⟩
    constructor
    · rintro ⟨cfg, hcfg⟩
      exact (documents_kept hL hcfg).mp (hread cfg hcfg)
    · intro h
      exact (undocumented_rejected hL h).mp (hrejected h)
  · rintro ⟨hkept, hrejected⟩
    constructor
    · intro cfg hcfg
      exact (documents_kept hL hcfg).mpr (hkept ⟨cfg, hcfg⟩)
    · intro h
      exact (undocumented_rejected hL h).mpr (hrejected h)

/-- The left and the right button. -/
def buttons (name : Text) : Option ℤ :=
  if name = ascii "BTN_LEFT" then some 272
  else if name = ascii "BTN_RIGHT" then some 273
  else none

/-- A library that knows them. -/
def twoButtons : Libraries where
  xkbKeysymFromName _ := 0
  libevdevEventCodeFromName name := (buttons name).getD (-1)
  libevdevEventCodeGetName code :=
    if code = 272 then some (ascii "BTN_LEFT")
    else if code = 273 then some (ascii "BTN_RIGHT")
    else none

theorem buttons_cases {name : Text} {code : ℤ} (h : buttons name = some code) :
    name = ascii "BTN_LEFT" ∧ code = 272 ∨ name = ascii "BTN_RIGHT" ∧ code = 273 := by
  unfold buttons at h
  split at h
  · next hname => exact .inl ⟨hname, (Option.some_inj.mp h).symm⟩
  · split at h
    · next hname => exact .inr ⟨hname, (Option.some_inj.mp h).symm⟩
    · cases h

theorem twoButtons_evdev : Evdev twoButtons buttons where
  code _ := rfl
  nonneg name code h := by
    obtain ⟨-, rfl⟩ | ⟨-, rfl⟩ := buttons_cases h
    · decide
    · decide
  named name code h := by
    obtain ⟨rfl, -⟩ | ⟨rfl, -⟩ := buttons_cases h
    · decide
    · decide

/-- The left button is asked for by its name. -/
theorem parseInputConfig_grammar_twoButtons :
    ReadAsDocumented twoButtons buttons (.ofString "*") (.button (ascii "BTN_LEFT")) .clear ∧
      (parseInputConfig twoButtons).result
          (inputLine (.ofString "*") (.button (ascii "BTN_LEFT"))) .clear =
        some { emptyInputConfig with identifier := some (ascii "*"), scrollButton := 272 } := by
  have hkept : (InputClause.button (ascii "BTN_LEFT")).Kept buttons .clear := by
    show buttons (ascii "BTN_LEFT") ≠ some 0
    decide
  have h := (parseInputConfig_grammar twoButtons buttons twoButtons_evdev (.ofString "*")
    (.button (ascii "BTN_LEFT")) .clear).mpr ⟨fun _ => hkept, fun _ _ => nofun⟩
  exact ⟨h, h.1 _ ⟨272, by decide, rfl⟩⟩

/-- The method `clickfinger` is read as no method. -/
theorem clickfinger_none :
    inputLine (.ofString "*") (.word .clickMethod (ascii "clickfinger")) =
        ascii "* click_method clickfinger" ∧
      (parseInputConfig twoButtons).result (ascii "* click_method clickfinger") .clear =
        some { emptyInputConfig with identifier := some (ascii "*"), clickMethod := 0 } ∧
      ¬ReadAsDocumented twoButtons buttons (.ofString "*")
        (.word .clickMethod (ascii "clickfinger")) .clear := by
  have hline : inputLine (.ofString "*") (.word .clickMethod (ascii "clickfinger")) =
      ascii "* click_method clickfinger" := by decide
  have hread : (parseInputConfig twoButtons).result (ascii "* click_method clickfinger") .clear =
      some { emptyInputConfig with identifier := some (ascii "*"), clickMethod := 0 } := by
    rw [← hline, inputLine_result]
    exact parseInputSetting_clickMethod
  refine ⟨hline, hread, fun h => ?_⟩
  have hdocumented := h.1 { emptyInputConfig with identifier := some (ascii "*"), clickMethod := 2 }
    ⟨2, by decide, rfl⟩
  rw [hline, hread] at hdocumented
  have hmethod : (0 : ℤ) = 2 := congrArg InputConfig.clickMethod (Option.some_inj.mp hdocumented)
  exact absurd hmethod (by decide)

end Parse

end Cagebreak
