/-
Lines parsed after other lines.

`errno` is not reset between two lines.  A number out of range leaves `ERANGE`
there, and from then on the branches of `parse_command` that consult `errno`
take every number for one out of range.

* `Exposed` — the lines that are read differently then: `command_differs_iff`;
* `parse_history_iff` — after two histories, a line is parsed alike if and only
  if both leave the same `errno` or the line is not exposed.
-/
import Cagebreak.ParseNumbers

namespace Cagebreak

namespace Parse

open Strto Reader

variable {L : Libraries} {modes : List Text} {t str : Text} {α : Type}

/-! ### Lines that are exposed -/

/-- A position and a mode of an output. -/
def ExposedPos : Text → Prop :=
  Next space fun x u => IsUint x ∧ (Next space fun y u => IsUint y ∧
    (Next space fun res u => res = ascii "res" ∧
      (Next (ascii "x") fun w u => IsUint w ∧ 1 ≤ (strtol w).value ∧
        (Next space fun h u => IsUint h ∧ 1 ≤ (strtol h).value ∧
          (Next space fun rate u => rate = ascii "rate" ∧
            (Next space fun r _ => IsPositive r) u) u) u) u) u) u

/-- A setting of an output that is given by numbers. -/
def ExposedOutput : Text → Prop :=
  Next space fun _ => Next space fun key u =>
    -- what is no number stands for the angle 3
    (key = ascii "rotate" ∧ Next space (fun n _ => IsUint n ∧ (strtol n).value % 4 ≠ 3) u) ∨
    (key = ascii "prio" ∧ Next space (fun n _ => IsUint n) u) ∨
    (key = ascii "scale" ∧ Next space (fun x _ => IsPositive x) u) ∨
    (key = ascii "pos" ∧ ExposedPos u)

/-- A setting of an input device that is given by numbers. -/
def ExposedInput : Text → Prop :=
  Next space fun _ => Next space fun setting u =>
    (setting = ascii "calibration_matrix" ∧ Floats 6 u) ∨
    ((setting = ascii "pointer_accel" ∨ setting = ascii "scroll_factor") ∧ Floats 1 u) ∨
    ((setting = ascii "repeat_delay" ∨ setting = ascii "repeat_rate") ∧
      Next space (fun n _ => IsUint n) u)

/-- A setting of messages that is given by numbers. -/
def ExposedMessage : Text → Prop :=
  Next space fun setting u =>
    (setting = ascii "display_time" ∧ Next space (fun n _ => IsUint n) u) ∨
    ((setting = ascii "bg_color" ∨ setting = ascii "fg_color") ∧ Floats 4 u)

/-- A key definition that `parse_key` accepts. -/
def IsKey (L : Libraries) (key : Text) : Prop :=
  ∃ modifiers name, parseModifiers 0 key = .ok (modifiers, name) ∧ L.xkbKeysymFromName name ≠ 0

/-- The rest of a command whose numbers are checked; `Nested` says it of a nested
command. -/
def ExposedBranch (L : Libraries) (modes : List Text) (Nested : Text → Prop) :
    Branch → Text → Prop
  | .split _ => Next space fun str _ => IsPart str
  | .movetotile => Next space fun str u => InRange str ∧ TakesFollow u
  | .merge _ => Next space fun str _ => InRange str
  | .exchangeTowards _ => Next space fun str u =>
    str ≠ ascii "true" ∧ str ≠ ascii "false" ∧ InRange str ∧ TakesFollow u
  | .exchange => Next space fun str u => InRange str ∧
    Next space (fun str' v => InRange str' ∧ TakesFollow v) u
  | .switchvt => Next space fun str _ => (strtol str).range = false
  | .bind => Next space fun key u => IsKey L key ∧ Nested u
  | .definekey => Next space fun mode u => getModeIndexFromName modes mode ≠ none ∧
    Next space (fun key v => IsKey L key ∧ Nested v) u
  | .output => ExposedOutput
  | .input => ExposedInput
  | .configureMessage => ExposedMessage
  | _ => fun _ => False

/-- A command whose numbers are checked, when commands may be nested `room` times
more. -/
def Exposed (L : Libraries) (modes : List Text) : ℕ → Text → Prop
  | 0 => fun _ => False
  | room + 1 => Next space fun action u =>
    ∃ branch, branchOf action = some branch ∧
      ExposedBranch L modes (Exposed L modes room) branch u

/-! ### Branches whose numbers are checked -/

theorem blind_followValue : Blind (followValue str) :=
  .ite (.pure 1) (.ite (.pure 0) (.fail _))

theorem blind_parseFollow : Blind parseFollow := by
  refine .bind (.token space) fun tok => ?_
  cases tok with
  | none => exact .pure 1
  | some str => exact blind_followValue

theorem accepts_pure {a : α} : Accepts (pure a) t := ⟨_, rfl⟩

theorem accepts_parseFollow (f : UInt32 → Reader α) (hf : ∀ a u, Accepts (f a) u) :
    Accepts (parseFollow >>= f) t ↔ TakesFollow t := by
  unfold Accepts TakesFollow
  rw [run_bind, parseFollow, run_bind, run_token, Option.bind_some]
  cases (strtok space t).1 with
  | none =>
    refine iff_of_true (hf 1 _) fun str h => ?_
    cases h
  | some str =>
    dsimp only
    rw [followValue, run_ite, run_ite]
    by_cases htrue : str = ascii "true"
    · rw [if_pos htrue]
      refine iff_of_true (hf 1 _) fun str' h => ?_
      rw [← Option.some.inj h]
      exact .inl htrue
    · rw [if_neg htrue]
      by_cases hfalse : str = ascii "false"
      · rw [if_pos hfalse]
        refine iff_of_true (hf 0 _) fun str' h => ?_
        rw [← Option.some.inj h]
        exact .inr hfalse
      · rw [if_neg hfalse]
        exact iff_of_false (fun ⟨_, hr⟩ => nomatch hr) fun h => (h str rfl).elim htrue hfalse

theorem differs_parseSplit (action : KeybindingAction) :
    Differs (parseSplit action) t ↔ Next space (fun str _ => IsPart str) t := by
  refine differs_next (.pure _) fun str u => ?_
  have hrefuses : Refuses (do
      let percentage ← convert (strtof str)
      let range ← isErange
      if percentage.eq (.inf false) || range then failSilently
      else if CFloat.le (.fin 1) percentage || percentage.le hundredth then failSilently
      else pure (action, KeybindingParams.f percentage)) := by
    intro t
    rw [run_checked_erange, Bool.or_true, if_pos rfl]
    rfl
  rw [hrefuses.differs_iff, Accepts, run_checked_clear, IsPart]
  have hinf : (strtof str).value.eq (.inf false) = true →
      CFloat.le (.fin 1) (strtof str).value = true := fun h => by rw [CFloat.eq_of_eq h]; rfl
  cases hr : (strtof str).range with
  | true =>
    rw [Bool.or_true, if_pos rfl]
    exact iff_of_false (fun ⟨_, h⟩ => nomatch h) fun h => nomatch h.1
  | false =>
    rw [Bool.or_false]
    cases hle : CFloat.le (.fin 1) (strtof str).value with
    | true =>
      rw [Bool.true_or, if_pos rfl, ite_self]
      exact iff_of_false (fun ⟨_, h⟩ => nomatch h) fun h => nomatch h.2.1
    | false =>
      rw [Bool.eq_false_iff.mpr fun h => Bool.noConfusion (hle.symm.trans (hinf h)),
        if_neg Bool.false_ne_true, Bool.false_or]
      cases (strtof str).value.le hundredth with
      | true => exact iff_of_false (fun ⟨_, h⟩ => nomatch h) fun h => nomatch h.2.2
      | false => exact iff_of_true accepts_pure ⟨rfl, rfl, rfl⟩

theorem differs_parseMerge (action : KeybindingAction) :
    Differs (parseMerge action) t ↔ Next space (fun str _ => InRange str) t := by
  refine differs_next (.pure _) fun str u => ?_
  rw [((refuses_parseInRange _).bind).differs_iff, accepts_parseInRange,
    and_iff_left accepts_pure]

theorem differs_parseMovetotile :
    Differs parseMovetotile t ↔ Next space (fun str u => InRange str ∧ TakesFollow u) t := by
  refine differs_require fun str u => ?_
  rw [((refuses_parseInRange _).bind).differs_iff, accepts_parseInRange,
    accepts_parseFollow _ fun _ _ => accepts_pure]

theorem differs_parseExchangeTowards (action : KeybindingAction) :
    Differs (parseExchangeTowards action) t ↔
      Next space (fun str u =>
        str ≠ ascii "true" ∧ str ≠ ascii "false" ∧ InRange str ∧ TakesFollow u) t := by
  refine differs_next (.pure _) fun str u => ?_
  dsimp only
  by_cases h : str ≠ ascii "true" ∧ str ≠ ascii "false"
  · rw [if_pos h, ((refuses_parseInRange _).bind).differs_iff, accepts_parseInRange,
      accepts_parseFollow _ fun _ _ => accepts_pure, and_iff_right h.1, and_iff_right h.2]
  · rw [if_neg h]
    exact iff_of_false (Blind.bind blind_followValue fun _ => .pure _).not_differs
      fun hc => h ⟨hc.1, hc.2.1⟩

theorem accepts_require {delim errstr : Text} {f : Text → Reader α} :
    Accepts (do let tok ← token delim; let tok ← require tok errstr; f tok) t ↔
      Next delim (fun tok u => Accepts (f tok) u) t := by
  unfold Accepts Next
  rw [run_bind, run_token, Option.bind_some]
  cases strtok delim t with
  | mk tok u =>
    cases tok with
    | none => exact iff_of_false (fun ⟨_, hr⟩ => nomatch hr) not_false
    | some tok => rfl

/-- `argument` and what follows it, as one reader of a required token. -/
theorem argument_bind (missing : String) (f : Text → Reader α) :
    (argument missing >>= f) =
      (do let tok ← token space; let tok ← require tok (ascii missing); f tok) := rfl

theorem next_congr {delim : Text} {P Q : Text → Text → Prop} (h : ∀ tok u, P tok u ↔ Q tok u) :
    Next delim P t ↔ Next delim Q t := by
  unfold Next
  split
  · exact h _ _
  · rfl

theorem differs_parseExchange :
    Differs parseExchange t ↔
      Next space (fun str u => InRange str ∧
        Next space (fun str' v => InRange str' ∧ TakesFollow v) u) t := by
  refine differs_require fun str u => ?_
  rw [((refuses_parseInRange _).bind).differs_iff, accepts_parseInRange, argument_bind,
    accepts_require]
  refine and_congr_right fun _ => next_congr fun str' v => ?_
  rw [accepts_parseInRange, accepts_parseFollow _ fun _ _ => accepts_pure]

theorem differs_parseSwitchvt :
    Differs parseSwitchvt t ↔ Next space (fun str _ => (strtol str).range = false) t := by
  refine differs_require fun str u => ?_
  have hrefuses : Refuses (do
      let tty ← convert (strtol str)
      let range ← isErange
      failIf range (ascii "TTY number out of range.")
      pure (KeybindingAction.changeTty, KeybindingParams.u (.ofInt tty))) := by
    intro t
    rw [run_checked_erange, run_bind, run_failIf, if_pos rfl]
    rfl
  rw [hrefuses.differs_iff, Accepts, run_checked_clear, run_bind, run_failIf]
  cases (strtol str).range with
  | true => exact iff_of_false (fun ⟨_, h⟩ => nomatch h) Bool.noConfusion
  | false => exact iff_of_true accepts_pure rfl

/-! ### Settings given by numbers -/

theorem differs_parseUintFrom {least : ℤ} (hleast : 0 ≤ least) (delim errstr : Text)
    (f : ℤ → Reader α) :
    Differs (parseUintFrom least delim errstr >>= f) t ↔
      Next delim (fun str u => IsUint str ∧ least ≤ (strtol str).value ∧
        Accepts (f (strtol str).value) u) t := by
  rw [((refuses_parseUintFrom hleast delim errstr).bind).differs_iff,
    accepts_parseUintFrom hleast]

/-- A number and nothing after it. -/
theorem differs_uint (errstr : Text) (f : ℤ → α) :
    Differs (do let n ← parseUintFrom 0 space errstr; pure (f n)) t ↔
      Next space (fun n _ => IsUint n) t := by
  rw [differs_parseUintFrom le_rfl]
  exact next_congr fun n u => ⟨fun h => h.1, fun h => ⟨h, h.2.1, accepts_pure⟩⟩

theorem differs_positive (errstr : Text) (f : CFloat → α) :
    Differs (do let x ← parsePositive errstr; pure (f x)) t ↔
      Next space (fun x _ => IsPositive x) t := by
  rw [((refuses_parsePositive errstr).bind).differs_iff, accepts_parsePositive]
  exact next_congr fun x u => and_iff_left accepts_pure

theorem accepts_token_failIf {errstr : Text} {word : String} {f : Reader α} :
    Accepts (do
      let str ← token space
      failIf (str ≠ some (ascii word)) errstr
      f) t ↔ Next space (fun str u => str = ascii word ∧ Accepts f u) t := by
  unfold Accepts Next
  rw [run_bind, run_token, Option.bind_some, run_bind, run_failIf]
  cases strtok space t with
  | mk tok u =>
    cases tok with
    | none => exact iff_of_false (fun ⟨_, hr⟩ => nomatch hr) not_false
    | some tok =>
      by_cases h : tok = ascii word
      · rw [if_neg fun hc => hc (congrArg some h)]
        exact (and_iff_right h).symm
      · rw [if_pos fun hc => h (Option.some.inj hc)]
        exact iff_of_false (fun ⟨_, hr⟩ => nomatch hr) fun hf => h hf.1

theorem differs_parseOutputPos (name : Text) (cfg : OutputConfig) :
    Differs (parseOutputPos name cfg) t ↔ ExposedPos t := by
  rw [parseOutputPos, differs_parseUintFrom le_rfl]
  refine next_congr fun x u => and_congr_right fun hx => ?_
  rw [and_iff_right hx.2.1, accepts_parseUintFrom le_rfl]
  refine next_congr fun y u => and_congr_right fun hy => ?_
  rw [and_iff_right hy.2.1, accepts_token_failIf]
  refine next_congr fun res u => and_congr_right fun _ => ?_
  rw [accepts_parseUintFrom zero_le_one]
  refine next_congr fun w u => and_congr_right fun _ => and_congr_right fun _ => ?_
  rw [accepts_parseUintFrom zero_le_one]
  refine next_congr fun h u => and_congr_right fun _ => and_congr_right fun _ => ?_
  rw [accepts_token_failIf]
  refine next_congr fun rate u => and_congr_right fun _ => ?_
  rw [accepts_parsePositive]
  exact next_congr fun r u => and_iff_left accepts_pure

/-- `rotate`: what is no number stands for the angle 3. -/
theorem differs_rotate (errstr : Text) (cfg : OutputConfig) (name : Option Text) :
    Differs (do
      let n ← parseUint space
      let angle := n % 2 ^ 32 % 4
      failIf (angle < 0) errstr
      pure { cfg with angle := angle, outputName := name }) t ↔
      Next space (fun n _ => IsUint n ∧ (strtol n).value % 4 ≠ 3) t := by
  let rotated := fun n : ℤ => { cfg with angle := n % 2 ^ 32 % 4, outputName := name }
  have hrotated : ∀ n m : ℤ, rotated n = rotated m ↔ n % 2 ^ 32 % 4 = m % 2 ^ 32 % 4 := by
    intro n m
    constructor
    · intro h
      exact congrArg OutputConfig.angle h
    · intro h
      simp only [rotated, h]
  have hreader : (do
      let n ← parseUint space
      let angle := n % 2 ^ 32 % 4
      failIf (angle < 0) errstr
      pure { cfg with angle := angle, outputName := name }) =
      (do let n ← parseUint space; pure (rotated n)) := by
    refine congrArg _ (funext fun n => ?_)
    have hn : ¬n % 2 ^ 32 % 4 < 0 := by omega
    show (failIf (n % 2 ^ 32 % 4 < 0) errstr >>= fun _ => pure (rotated n)) = _
    rw [failIf, if_neg hn]
    rfl
  rw [hreader, Differs, result_map, result_map, result, result, parseUint_erange,
    parseUint_clear, Next]
  cases strtok space t with
  | mk tok u =>
    cases tok with
    | none => exact iff_of_false (fun h => h rfl) not_false
    | some n =>
      dsimp only
      rw [Option.map_some, Option.map_some, Option.map_some, Option.map_some, Ne,
        Option.some_inj, hrotated]
      by_cases h : IsUint n
      · obtain ⟨-, h0, hmax⟩ := id h
        rw [if_pos h, and_iff_right h]
        unfold intMax at hmax
        omega
      · rw [if_neg h]
        exact iff_of_false (fun hne => hne rfl) fun hf => h hf.1

theorem keyword_cases {key : Text} {status : OutputStatus}
    (h : parseOutputConfigKeyword (some key) = some status) :
    status = .enable ∨ status = .disable ∨ key = ascii "rotate" ∨ key = ascii "prio" ∨
      key = ascii "scale" ∨ key = ascii "peripheral" ∨ key = ascii "permanent" ∨
      key = ascii "pos" := by
  unfold parseOutputConfigKeyword at h
  dsimp only at h
  split at h
  · simp [*]
  split at h
  · simp [*]
  split at h
  · simp [*]
  split at h
  · simp [*]
  split at h
  · exact .inl (Option.some.inj h).symm
  split at h
  · simp [*]
  split at h
  · simp [*]
  split at h
  · exact .inr (.inl (Option.some.inj h).symm)
  · cases h

theorem differs_parseOutputConfig : Differs parseOutputConfig t ↔ ExposedOutput t := by
  refine differs_require fun name u => differs_next (.fail _) fun key u => ?_
  by_cases hrotate : key = ascii "rotate"
  · subst hrotate
    refine (differs_rotate _ emptyOutputConfig (some name)).trans ?_
    have h1 : ascii "rotate" ≠ ascii "prio" := by decide
    have h2 : ascii "rotate" ≠ ascii "scale" := by decide
    have h3 : ascii "rotate" ≠ ascii "pos" := by decide
    simp [h1, h2, h3]
  by_cases hprio : key = ascii "prio"
  · subst hprio
    refine (differs_uint _ fun n =>
      { emptyOutputConfig with priority := n, outputName := some name }).trans ?_
    have h1 : ascii "prio" ≠ ascii "scale" := by decide
    have h2 : ascii "prio" ≠ ascii "pos" := by decide
    simp [hrotate, h1, h2]
  by_cases hscale : key = ascii "scale"
  · subst hscale
    refine (differs_positive _ fun x =>
      { emptyOutputConfig with scale := x, outputName := some name }).trans ?_
    have h1 : ascii "scale" ≠ ascii "pos" := by decide
    simp [hrotate, hprio, h1]
  by_cases hpos : key = ascii "pos"
  · subst hpos
    refine (differs_parseOutputPos name emptyOutputConfig).trans ?_
    simp [hrotate, hprio, hscale]
  refine iff_of_false (Blind.not_differs ?_) (by simp [hrotate, hprio, hscale, hpos])
  cases hkey : parseOutputConfigKeyword (some key) with
  | none => exact .fail _
  | some status =>
    have hstatus := keyword_cases hkey
    simp only [Option.some_inj, hrotate, hprio, hscale, hpos, false_or, or_false, if_false]
      at hstatus ⊢
    rcases hstatus with rfl | rfl | rfl | rfl
    · exact .pure _
    · exact .pure _
    · rw [if_pos (rfl : ascii "peripheral" = ascii "peripheral")]
      exact .ite (.pure _) (.pure _)
    · rw [if_pos (rfl : ascii "permanent" = ascii "permanent")]
      exact .ite (.pure _) (.ite (.pure _) (.pure _))

theorem blind_choose (options : List (String × ℤ)) (value errstr : Text) :
    Blind (choose options value errstr) := by
  unfold choose
  split
  · exact .pure _
  · exact .fail _

/-- A button is found whatever `errno` was before. -/
theorem blind_inputManagerGetMouseButton (name : Text) :
    Blind (inputManagerGetMouseButton L name) := by
  unfold inputManagerGetMouseButton
  split
  · exact .clearErrno_bind
  · exact .pure _

theorem differs_parseFloats_map {β : Type} (errstr : Text) (n : ℕ) {f : Vector CFloat (n + 1) → β}
    (hf : Function.Injective f) :
    Differs (do let xs ← parseFloats errstr (n + 1); pure (f xs)) t ↔ Floats (n + 1) t := by
  rw [differs_map hf, differs_parseFloats]

theorem eq_of_head {xs ys : Vector CFloat 1} (h : xs.get 0 = ys.get 0) : xs = ys := by
  refine Vector.ext fun i hi => ?_
  obtain rfl : i = 0 := by omega
  exact h

theorem differs_parseInputSetting (setting value : Text) (cfg : InputConfig) :
    Differs (parseInputSetting L setting value cfg) t ↔
      (setting = ascii "calibration_matrix" ∧ Floats 6 t) ∨
      ((setting = ascii "pointer_accel" ∨ setting = ascii "scroll_factor") ∧ Floats 1 t) ∨
      ((setting = ascii "repeat_delay" ∨ setting = ascii "repeat_rate") ∧
        Next space (fun n _ => IsUint n) t) := by
  have hchoose : ∀ (options : List (String × ℤ)) (errstr : Text) (f : ℤ → InputConfig),
      Blind (do let n ← choose options value errstr; pure (f n)) :=
    fun options errstr f => .bind (blind_choose options value errstr) fun _ => .pure _
  by_cases hmatrix : setting = ascii "calibration_matrix"
  · subst hmatrix
    refine (differs_parseFloats_map _ 5 fun xs ys h => ?_).trans (by simp +decide)
    exact congrArg (fun c => c.calibrationMatrix.matrix) h
  by_cases haccel : setting = ascii "pointer_accel"
  · subst haccel
    refine (differs_parseFloats_map _ 0 fun xs ys h => ?_).trans (by simp +decide)
    exact eq_of_head (congrArg InputConfig.pointerAccel h)
  by_cases hfactor : setting = ascii "scroll_factor"
  · subst hfactor
    refine (differs_parseFloats_map _ 0 fun xs ys h => ?_).trans (by simp +decide)
    exact eq_of_head (congrArg InputConfig.scrollFactor h)
  by_cases hdelay : setting = ascii "repeat_delay"
  · subst hdelay
    refine (differs_uint _ fun n => { cfg with repeatDelay := n }).trans ?_
    simp +decide
  by_cases hrate : setting = ascii "repeat_rate"
  · subst hrate
    refine (differs_uint _ fun n => { cfg with repeatRate := n }).trans ?_
    simp +decide
  refine iff_of_false (Blind.not_differs ?_) (by simp [hmatrix, haccel, hfactor, hdelay, hrate])
  unfold parseInputSetting
  rw [if_neg hmatrix, if_neg haccel, if_neg hfactor, if_neg hdelay, if_neg hrate]
  refine .ite (hchoose _ _ _) (.ite (.ite (.pure _) (.ite (.pure _) (.ite (.pure _) (.fail _))))
    (.ite (hchoose _ _ _) (.ite (hchoose _ _ _)
      (.ite (hchoose _ _ _) (.ite (hchoose _ _ _) (.ite (hchoose _ _ _)
    (.ite (hchoose _ _ _) (.ite (hchoose _ _ _) (.ite ?_ (.ite (hchoose _ _ _)
    (.ite (hchoose _ _ _) (.ite (hchoose _ _ _) (.ite (hchoose _ _ _) (.fail _))))))))))))))
  refine .bind (blind_inputManagerGetMouseButton value) fun button => ?_
  cases button with
  | ok button => exact .pure _
  | error err => exact .fail _

theorem differs_parseInputConfig : Differs (parseInputConfig L) t ↔ ExposedInput t := by
  refine differs_require fun ident u => differs_require fun setting u => ?_
  exact differs_parseInputSetting setting u _

theorem differs_parseMessageConfig : Differs parseMessageConfig t ↔ ExposedMessage t := by
  refine differs_require fun setting u => ?_
  by_cases htime : setting = ascii "display_time"
  · subst htime
    refine (differs_uint _ fun n => { emptyMessageConfig with displayTime := n }).trans ?_
    simp +decide
  by_cases hbg : setting = ascii "bg_color"
  · subst hbg
    refine (differs_parseFloats_map _ 3 fun xs ys h => ?_).trans (by simp +decide)
    exact congrArg MessageConfig.bgColor h
  by_cases hfg : setting = ascii "fg_color"
  · subst hfg
    refine (differs_parseFloats_map _ 3 fun xs ys h => ?_).trans (by simp +decide)
    exact congrArg MessageConfig.fgColor h
  refine iff_of_false (Blind.not_differs ?_) (by simp [htime, hbg, hfg])
  dsimp only
  rw [if_neg htime, if_neg hbg, if_neg hfg]
  refine .ite (.bind .rest fun font => .pure _) (.ite (.bind .rest fun value => ?_)
    (.ite (.pure _) (.ite (.pure _) (.fail _))))
  split
  · exact .pure _
  · exact .fail _

/-! ### Commands -/

theorem parseKey_run (key : Text) :
    (IsKey L key ∧ ∃ r, ∀ s, (parseKey L (some key)).run s = some (r, s)) ∨
      (¬IsKey L key ∧ ∀ s, (parseKey L (some key)).run s = none) := by
  simp only [parseKey, run_bind, run_require, Option.bind_some]
  cases hm : parseModifiers 0 key with
  | error errstr =>
    refine .inr ⟨fun hk => ?_, fun s => rfl⟩
    obtain ⟨_, _, hok, -⟩ := hk
    rw [hm] at hok
    cases hok
  | ok r =>
    obtain ⟨modifiers, name⟩ := r
    simp only [run_bind, run_failIf]
    by_cases h0 : L.xkbKeysymFromName name = 0
    · simp only [if_pos h0]
      refine .inr ⟨fun hk => ?_, fun s => rfl⟩
      obtain ⟨_, _, hok, hne⟩ := hk
      rw [hm] at hok
      obtain ⟨-, rfl⟩ := Prod.mk.inj (Except.ok.inj hok)
      exact hne h0
    · simp only [if_neg h0]
      exact .inl ⟨⟨modifiers, name, hm, h0⟩, _, fun s => rfl⟩

/-- A binding is read differently if its command is. -/
theorem differs_parseKeybinding (mode : UInt16) {p : Reader Command} {P : Text → Prop}
    (hp : ∀ u, Differs p u ↔ P u) :
    Differs (parseKeybinding L mode p) t ↔ Next space (fun key u => IsKey L key ∧ P u) t := by
  refine differs_next (fun _ _ _ => rfl) fun key u => ?_
  have hrun : ∀ e, (parseKey L (some key) >>= fun r => p >>= fun c =>
      pure (KeybindingParams.kb mode r.1 r.2 c.1 c.2)).result u e =
      ((parseKey L (some key)).run ⟨u, e⟩).bind fun r =>
        (p.result r.2.saveptr r.2.errno).map fun c => .kb mode r.1.1 r.1.2 c.1 c.2 := by
    intro e
    rw [result, run_bind]
    cases (parseKey L (some key)).run ⟨u, e⟩ with
    | none => rfl
    | some r => exact result_map _
  rcases parseKey_run (L := L) key with ⟨hkey, r, hr⟩ | ⟨hkey, hr⟩
  · rw [and_iff_right hkey, ← hp u, Differs, hrun, hrun, hr, hr, Option.bind_some,
      Option.bind_some, Ne, (Option.map_injective _).eq_iff]
    · rfl
    · intro c d h
      obtain ⟨-, -, -, haction, hdata⟩ := KeybindingParams.kb.inj h
      exact Prod.ext haction hdata
  · rw [Differs, hrun, hrun, hr, hr]
    exact iff_of_false (fun h => h rfl) fun h => hkey h.1

theorem differs_parseDefinekey {p : Reader Command} {P : Text → Prop}
    (hp : ∀ u, Differs p u ↔ P u) :
    Differs (parseDefinekey L modes p) t ↔
      Next space (fun mode u => getModeIndexFromName modes mode ≠ none ∧
        Next space (fun key v => IsKey L key ∧ P v) u) t := by
  refine differs_require fun mode u => ?_
  cases getModeIndexFromName modes mode with
  | none => exact iff_of_false (Blind.fail _).not_differs fun h => h.1 rfl
  | some modeIdx =>
    rw [and_iff_right (Option.some_ne_none modeIdx)]
    exact differs_parseKeybinding _ hp

theorem blind_parseFromOne (what : String) : Blind (parseFromOne what str) := by
  refine .bind (.convert _) fun n => ?_
  exact .bind (.failIf (n < 1) _) fun _ => .pure n

theorem blind_parseOptional (what : String) : Blind (parseOptional what) := by
  refine .bind (.token space) fun tok => ?_
  cases tok with
  | none => exact .pure none
  | some str => exact .bind (blind_parseFromOne what) fun n => .pure _

theorem blind_argument (missing : String) : Blind (argument missing) :=
  .bind (.token space) fun tok => .require tok _

theorem blind_parseOnly : Blind parseOnly := by
  refine .bind (blind_parseOptional _) fun screen => ?_
  cases screen with
  | none => exact .pure _
  | some screen =>
    exact .bind (blind_argument _) fun str => .bind (blind_parseFromOne _) fun _ => .pure _

theorem blind_parseColor (i : ℕ) : Blind (parseColor i) := by
  refine .bind (.token _) fun tok => .bind (.require tok _) fun nstr => ?_
  refine .bind (.convert _) fun nval => .bind (.failIf ((strtof nstr).endptr ≠ []) _) fun _ => ?_
  exact .bind (.failIf ((nval.lt (.fin 0) || CFloat.lt (.fin 1) nval) = true) _) fun _ => .pure nval

theorem blind_parseMode (missing unknown : String) : Blind (parseMode modes missing unknown) := by
  refine .bind (blind_argument missing) fun mode => ?_
  split
  · exact .fail _
  · exact .pure _

theorem blind_parseEscape : Blind (parseEscape L) := by
  refine .bind (.token space) fun tok => .bind ?_ fun r => .pure _
  cases tok with
  | none => exact .fail _
  | some key =>
    intro t e e'
    unfold outcome
    rcases parseKey_run (L := L) key with ⟨-, r, hr⟩ | ⟨-, hr⟩
    · rw [hr, hr]
      rfl
    · rw [hr, hr]

theorem blind_parseCursor : Blind parseCursor :=
  .bind .rest fun _ => .ite (.pure 1) (.ite (.pure 0) (.fail _))

theorem blind_parseWorkspaces : Blind parseWorkspaces := by
  refine .bind (.token space) fun tok => .bind (.require tok _) fun str => ?_
  refine .bind (.convert _) fun nws => ?_
  exact .bind (.failIf (¬(1 ≤ nws ∧ nws ≤ 30)) _) fun _ => .pure nws

theorem differs_parseBranch {p : Reader Command} {P : Text → Prop}
    (hp : ∀ u, Differs p u ↔ P u) (branch : Branch) :
    Differs (parseBranch L modes p branch) t ↔ ExposedBranch L modes P branch t := by
  have hdata : ∀ {α : Type} (action : KeybindingAction) {f : α → KeybindingParams},
      Function.Injective f → Function.Injective fun a => (action, f a) :=
    fun action f hf a b h => hf (Prod.mk.inj h).2
  cases branch with
  | split action => exact differs_parseSplit action
  | movetotile => exact differs_parseMovetotile
  | merge action => exact differs_parseMerge action
  | exchangeTowards action => exact differs_parseExchangeTowards action
  | exchange => exact differs_parseExchange
  | switchvt => exact differs_parseSwitchvt
  | bind => exact (differs_map (hdata _ fun _ _ h => h)).trans (differs_parseKeybinding 1 hp)
  | definekey => exact (differs_map (hdata _ fun _ _ h => h)).trans (differs_parseDefinekey hp)
  | output =>
    exact (differs_map (hdata _ fun _ _ => KeybindingParams.oCfg.inj)).trans
      differs_parseOutputConfig
  | input =>
    exact (differs_map (hdata _ fun _ _ => KeybindingParams.iCfg.inj)).trans
      differs_parseInputConfig
  | configureMessage =>
    exact (differs_map (hdata _ fun _ _ => KeybindingParams.mCfg.inj)).trans
      differs_parseMessageConfig
  -- the commands that do not look at `errno`
  | plain action => exact iff_of_false (Blind.pure _).not_differs not_false
  | flag action b => exact iff_of_false (Blind.pure _).not_differs not_false
  | cycleBack action => exact iff_of_false (Blind.pure _).not_differs not_false
  | cycle action what =>
    exact iff_of_false (Blind.bind (blind_parseOptional what) fun _ => .pure _).not_differs
      not_false
  | only => exact iff_of_false blind_parseOnly.not_differs not_false
  | line action => exact iff_of_false (Blind.bind .rest fun _ => .pure _).not_differs not_false
  | resize action sign =>
    refine iff_of_false (Blind.not_differs ?_) not_false
    exact .bind (blind_parseOptional _) fun _ => .bind (blind_parseOptional _) fun _ => .pure _
  | number action missing what first =>
    refine iff_of_false (Blind.not_differs ?_) not_false
    exact .bind (blind_argument missing) fun _ => .bind (blind_parseFromOne what) fun _ => .pure _
  | moveView action missing what missing' what' first =>
    refine iff_of_false (Blind.not_differs ?_) not_false
    refine .bind (blind_argument missing) fun _ => .bind (blind_parseFromOne what) fun _ => ?_
    refine .bind (blind_argument missing') fun _ => .bind (blind_parseFromOne what') fun _ => ?_
    exact .bind blind_parseFollow fun _ => .pure _
  | move action missing what first =>
    refine iff_of_false (Blind.not_differs ?_) not_false
    refine .bind (blind_argument missing) fun _ => .bind (blind_parseFromOne what) fun _ => ?_
    exact .bind blind_parseFollow fun _ => .pure _
  | mode action missing unknown =>
    refine iff_of_false (Blind.not_differs ?_) not_false
    exact .bind (blind_parseMode missing unknown) fun _ => .pure _
  | setmodecursor =>
    refine iff_of_false (Blind.not_differs ?_) not_false
    exact .bind (blind_argument _) fun _ => .bind (blind_argument _) fun _ => .pure _
  | background =>
    refine iff_of_false (Blind.not_differs ?_) not_false
    refine .bind ?_ fun _ => .pure _
    exact .bind (blind_parseColor 0) fun _ => .bind (blind_parseColor 1) fun _ =>
      .bind (blind_parseColor 2) fun _ => .pure _
  | escape =>
    exact iff_of_false (Blind.bind blind_parseEscape fun _ => .pure _).not_differs not_false
  | cursor =>
    exact iff_of_false (Blind.bind blind_parseCursor fun _ => .pure _).not_differs not_false
  | definemode =>
    refine iff_of_false (Blind.not_differs ?_) not_false
    exact .bind (.bind (.token space) fun tok => .require tok _) fun _ => .pure _
  | workspaces =>
    exact iff_of_false (Blind.bind blind_parseWorkspaces fun _ => .pure _).not_differs not_false

/-- The commands that are read differently when `ERANGE` is left over. -/
theorem command_differs_iff (room : ℕ) :
    Differs (command L modes room) t ↔ Exposed L modes room t := by
  induction room generalizing t with
  | zero => exact iff_of_false (Blind.bind (.token space) fun _ => .fail _).not_differs not_false
  | succ room ih =>
    refine differs_require fun action u => ?_
    cases hbranch : branchOf action with
    | none => exact iff_of_false (Blind.fail _).not_differs fun ⟨_, h, _⟩ => nomatch h
    | some branch =>
      rw [differs_parseBranch fun u => ih]
      exact ⟨fun h => ⟨branch, rfl, h⟩, fun ⟨_, h, hb⟩ => Option.some.inj h ▸ hb⟩

/-! ### Histories -/

/-- `errno` after the lines parsed so far, each with the modes of its time. -/
def errnoOf (L : Libraries) (history : List (List Text × Text)) : Errno :=
  history.foldl (fun e line => (parseCommand L line.1 1).errnoAfter line.2 e) .clear

/-- **History independence.**  After two histories a line is accepted or rejected
alike, with the same action and operands, if and only if both histories leave
`ERANGE` in `errno`, or none of them does, or the line is not exposed. -/
theorem parse_history_iff (L : Libraries) (modes : List Text) (nestingLevel : ℕ) (line : Text)
    (history history' : List (List Text × Text)) :
    (parseCommand L modes nestingLevel).result line (errnoOf L history) =
        (parseCommand L modes nestingLevel).result line (errnoOf L history') ↔
      errnoOf L history = errnoOf L history' ∨
        ¬Exposed L modes (maxNestingLevel - nestingLevel) line := by
  rw [parseCommand, result_eq_iff, command_differs_iff]

/-- A tile number that is out of range, in any earlier line, and `mergeleft 2` is
rejected. -/
theorem parse_history_stale :
    ¬∀ (L : Libraries) (modes : List Text) (line : Text)
        (history history' : List (List Text × Text)),
      (parseCommand L modes 1).result line (errnoOf L history) =
        (parseCommand L modes 1).result line (errnoOf L history') := by
  intro h
  have hne := h ⟨fun _ => 1, fun _ => -1, fun _ => none⟩ [] (ascii "mergeleft 2") []
    [([], ascii "focus 99999999999999999999")]
  have hsome := congrArg Option.isSome hne
  revert hsome
  decide +kernel

end Parse

end Cagebreak
