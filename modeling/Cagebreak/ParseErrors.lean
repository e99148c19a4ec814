/-
The error texts of command lines (`parse.c`).

`parse_rc_line` is given a pointer that its callers have not initialised.  When a line
is rejected, they print and free what the pointer leads to.

* `silent_parseBranch` — all branches but those that split a tile or define a key leave
  a text when they fail;
* `SilentLine` — the lines that are rejected without one: `errstr_assigned_iff`.
-/
import Cagebreak.Lib.Exec
import Cagebreak.ParseHistory

namespace Cagebreak

namespace Parse

open Strto Reader

variable {L : Libraries} {modes : List Text} {t str : Text} {e : Errno} {s : Input}

/-- What the callers of `parse_rc_line` print and free (`set_configuration`,
`ipc_client_handle_command`); what `errstr` holds before is undefined. -/
def reportError (L : Libraries) (modes : List Text) (line : Text) (e : Errno) :
    Exec (Option Text) :=
  match parseCommand L modes 1 ⟨line, e⟩ with
  | .ok _ _ => .ok none
  | .error none _ => .error .undefined
  | .error (some errstr) _ => .ok (some errstr)

/-- The rest of a command that is rejected without a text; `Nested` says it of a nested
command. -/
def SilentBranch (L : Libraries) (modes : List Text) (e : Errno) (Nested : Text → Prop) :
    Branch → Text → Prop
  | .split _ => Next space fun str _ => ¬(e = .clear ∧ IsPart str)
  | .bind => Next space fun key u => IsKey L key ∧ Nested u
  | .definekey => Next space fun mode u => getModeIndexFromName modes mode ≠ none ∧
    Next space (fun key v => IsKey L key ∧ Nested v) u
  | _ => fun _ => False

/-- A command that is rejected without a text, when commands may be nested `room` times
more. -/
def SilentLine (L : Libraries) (modes : List Text) (e : Errno) : ℕ → Text → Prop
  | 0 => fun _ => False
  | room + 1 => Next space fun action u =>
    ∃ branch, branchOf action = some branch ∧
      SilentBranch L modes e (SilentLine L modes e room) branch u

/-! ### Arguments -/

theorem explains_argument (missing : String) : Explains (argument missing) :=
  .bind (.token space) fun tok => .require tok _

theorem explains_parseFromOne (what : String) : Explains (parseFromOne what str) := by
  refine .bind (.convert _) fun n => ?_
  exact .bind (.failIf _ _) fun _ => .pure n

theorem explains_parseInRange (what : String) : Explains (parseInRange what str) := by
  refine .bind (.convert _) fun n => .bind .isErange fun range => ?_
  exact .bind (.failIf _ _) fun _ => .pure n

theorem explains_parseOptional (what : String) : Explains (parseOptional what) := by
  refine .bind (.token space) fun tok => ?_
  cases tok with
  | none => exact .pure none
  | some str => exact .bind (explains_parseFromOne what) fun n => .pure _

theorem explains_followValue : Explains (followValue str) :=
  .ite (.pure 1) (.ite (.pure 0) (.fail _))

theorem explains_parseFollow : Explains parseFollow := by
  refine .bind (.token space) fun tok => ?_
  cases tok with
  | none => exact .pure 1
  | some str => exact explains_followValue

theorem explains_parseMode (missing unknown : String) :
    Explains (parseMode modes missing unknown) := by
  refine .bind (explains_argument missing) fun mode => ?_
  split
  · exact .fail _
  · exact .pure _

theorem explains_parseKey (key : Option Text) : Explains (parseKey L key) := by
  refine .bind (.require key _) fun key => ?_
  cases parseModifiers 0 key with
  | error errstr => exact .fail errstr
  | ok r => exact .bind (.failIf _ _) fun _ => .pure _

theorem explains_parseColor (i : ℕ) : Explains (parseColor i) := by
  refine .bind (.token _) fun tok => .bind (.require tok _) fun nstr => ?_
  refine .bind (.convert _) fun nval => .bind (.failIf _ _) fun _ => ?_
  exact .bind (.failIf _ _) fun _ => .pure nval

/-! ### Settings -/

theorem explains_parseUint (delim : Text) : Explains (parseUint delim) := by
  refine .bind (.token delim) fun tok => ?_
  cases tok with
  | none => exact .pure _
  | some str => exact .bind (.convert _) fun n => .bind .isErange fun _ => .ite (.pure n) (.pure _)

theorem explains_parseFloat (delim : Text) : Explains (parseFloat delim) := by
  refine .bind (.token delim) fun tok => ?_
  cases tok with
  | none => exact .pure _
  | some str => exact .bind (.convert _) fun x => .bind .isErange fun _ => .ite (.pure x) (.pure _)

theorem explains_parseFloats (errstr : Text) (n : ℕ) : Explains (parseFloats errstr n) := by
  induction n with
  | zero => exact .pure _
  | succ n ih =>
    refine .bind ih fun xs => .bind (explains_parseFloat space) fun x => ?_
    exact .bind (.failIf _ _) fun _ => .pure _

theorem explains_parseUintFrom (least : ℤ) (delim errstr : Text) :
    Explains (parseUintFrom least delim errstr) :=
  .bind (explains_parseUint delim) fun n => .bind (.failIf _ _) fun _ => .pure n

theorem explains_parsePositive (errstr : Text) : Explains (parsePositive errstr) :=
  .bind (explains_parseFloat space) fun x => .bind (.failIf _ _) fun _ => .pure x

theorem explains_parseOutputPos (name : Text) (cfg : OutputConfig) :
    Explains (parseOutputPos name cfg) := by
  refine .bind (explains_parseUintFrom _ _ _) fun x => ?_
  refine .bind (explains_parseUintFrom _ _ _) fun y => ?_
  refine .bind (.token space) fun res => .bind (.failIf _ _) fun _ => ?_
  refine .bind (explains_parseUintFrom _ _ _) fun width => ?_
  refine .bind (explains_parseUintFrom _ _ _) fun height => ?_
  refine .bind (.token space) fun rate => .bind (.failIf _ _) fun _ => ?_
  exact .bind (explains_parsePositive _) fun refreshRate => .pure _

theorem explains_parseOutputConfig : Explains parseOutputConfig := by
  refine .bind (.token space) fun nameStr => .bind (.require nameStr _) fun name => ?_
  refine .bind (.token space) fun keyStr => ?_
  cases parseOutputConfigKeyword keyStr with
  | none => exact .fail _
  | some status =>
    refine .ite (.pure _) (.ite ?_ (.ite ?_ (.ite ?_ (.ite (.pure _) (.ite (.pure _) ?_)))))
    · exact .bind (explains_parseUint space) fun n => .bind (.failIf _ _) fun _ => .pure _
    · exact .bind (explains_parseUintFrom _ _ _) fun priority => .pure _
    · exact .bind (explains_parsePositive _) fun scale => .pure _
    · exact explains_parseOutputPos name _

theorem explains_choose (options : List (String × ℤ)) (value errstr : Text) :
    Explains (choose options value errstr) := by
  unfold choose
  split
  · exact .pure _
  · exact .fail _

theorem explains_inputManagerGetMouseButton (name : Text) :
    Explains (inputManagerGetMouseButton L name) := by
  unfold inputManagerGetMouseButton
  split
  · refine .bind .clearErrno fun _ => .bind (.convert _) fun n => .bind .isErange fun range => ?_
    exact .ite (.pure _) (.ite (.pure _) (.ite (.pure _) (.pure _)))
  · exact .pure _

theorem explains_parseInputSetting (setting value : Text) (cfg : InputConfig) :
    Explains (parseInputSetting L setting value cfg) := by
  have hchoose : ∀ (options : List (String × ℤ)) (errstr : Text) (f : ℤ → InputConfig),
      Explains (do let n ← choose options value errstr; pure (f n)) :=
    fun options errstr f => .bind (explains_choose options value errstr) fun _ => .pure _
  have hfloats : ∀ (errstr : Text) (n : ℕ) (f : Vector CFloat n → InputConfig),
      Explains (do let xs ← parseFloats errstr n; pure (f xs)) :=
    fun errstr n f => .bind (explains_parseFloats errstr n) fun _ => .pure _
  have huint : ∀ (errstr : Text) (f : ℤ → InputConfig),
      Explains (do let n ← parseUintFrom 0 space errstr; pure (f n)) :=
    fun errstr f => .bind (explains_parseUintFrom 0 space errstr) fun _ => .pure _
  unfold parseInputSetting
  refine .ite (hchoose _ _ _) (.ite (hfloats _ _ _) (.ite ?_ ?_))
  · exact .ite (.pure _) (.ite (.pure _) (.ite (.pure _) (.fail _)))
  refine .ite (hchoose _ _ _) (.ite (hchoose _ _ _) (.ite (hchoose _ _ _) ?_))
  refine .ite (hchoose _ _ _) (.ite (hchoose _ _ _) (.ite (hchoose _ _ _) ?_))
  refine .ite (hchoose _ _ _) (.ite (hfloats _ _ _) (.ite ?_ (.ite (hfloats _ _ _) ?_)))
  · refine .bind (explains_inputManagerGetMouseButton value) fun button => ?_
    cases button with
    | ok button => exact .pure _
    | error err => exact .fail _
  · refine .ite (hchoose _ _ _) (.ite (hchoose _ _ _) (.ite (hchoose _ _ _) ?_))
    exact .ite (hchoose _ _ _) (.ite (huint _ _) (.ite (huint _ _) (.fail _)))

theorem explains_parseInputConfig : Explains (parseInputConfig L) := by
  refine .bind (.token space) fun identStr => .bind (.require identStr _) fun ident => ?_
  refine .bind (.token space) fun settingStr => .bind (.require settingStr _) fun setting => ?_
  exact .bind .rest fun value => explains_parseInputSetting setting value _

theorem explains_parseMessageConfig : Explains parseMessageConfig := by
  refine .bind (.token space) fun settingStr => .bind (.require settingStr _) fun setting => ?_
  refine .ite (.bind .rest fun font => .pure _) (.ite ?_ (.ite ?_ (.ite ?_ (.ite ?_ ?_))))
  · exact .bind (explains_parseUintFrom _ _ _) fun n => .pure _
  · exact .bind (explains_parseFloats _ _) fun color => .pure _
  · exact .bind (explains_parseFloats _ _) fun color => .pure _
  · refine .bind .rest fun value => ?_
    split
    · exact .pure _
    · exact .fail _
  · exact .ite (.pure _) (.ite (.pure _) (.fail _))

/-! ### Commands -/

/-- A percentage is rejected without a text. -/
theorem silent_parseSplit (action : KeybindingAction) :
    Silent (parseSplit action) ⟨t, e⟩ ↔
      Next space (fun str _ => ¬(e = .clear ∧ IsPart str)) t := by
  refine silent_next (.pure _) fun str u => ?_
  show Silent (if (strtof str).value.eq (.inf false) ||
        decide ((if (strtof str).range then .erange else e) = Errno.erange) then failSilently
      else if CFloat.le (.fin 1) (strtof str).value || (strtof str).value.le hundredth then
        failSilently
      else pure (action, KeybindingParams.f (strtof str).value) : Reader Command) _ ↔ _
  rw [silent_ite, silent_ite]
  -- an infinity is not below 1 either
  have hinf : (strtof str).value.eq (.inf false) = true →
      CFloat.le (.fin 1) (strtof str).value = true := fun h => by rw [CFloat.eq_of_eq h]; rfl
  by_cases hread : (e = .clear ∧ IsPart str)
  · obtain ⟨rfl, hrange, hlt, hle⟩ := hread
    have hfin : (strtof str).value.eq (.inf false) = false := by
      rw [Bool.eq_false_iff]
      intro h
      rw [hinf h] at hlt
      cases hlt
    rw [hrange, hfin, hlt, hle]
    exact iff_of_false (Explains.pure _ _) fun h => h ⟨rfl, hrange, hlt, hle⟩
  · refine iff_of_true ?_ hread
    by_cases hbounds : (CFloat.le (.fin 1) (strtof str).value ||
        (strtof str).value.le hundredth) = true
    · rw [if_pos hbounds, ite_self]
      exact silent_failSilently
    · have hpart : (strtof str).range = false → IsPart str := by
        intro hrange
        rw [Bool.or_eq_true, not_or, Bool.not_eq_true, Bool.not_eq_true] at hbounds
        exact ⟨hrange, hbounds⟩
      have herrno : (if (strtof str).range then .erange else e) = Errno.erange := by
        cases hrange : (strtof str).range with
        | true => rfl
        | false =>
          cases e with
          | clear => exact absurd ⟨rfl, hpart hrange⟩ hread
          | erange => rfl
      rw [if_pos (by rw [herrno]; simp)]
      exact silent_failSilently

/-- What is done with the value does not matter. -/
theorem silent_map {α β : Type} {p : Reader α} {f : α → β} :
    Silent (do let a ← p; pure (f a)) s ↔ Silent p s := by
  rw [silent_bind, or_iff_left]
  rintro ⟨r, -, h⟩
  exact Explains.pure _ _ h

/-- A key definition is followed by its command. -/
theorem silent_parseKeybinding (mode : UInt16) {p : Reader Command} {P : Text → Prop}
    (hp : ∀ u, Silent p ⟨u, e⟩ ↔ P u) :
    Silent (parseKeybinding L mode p) ⟨t, e⟩ ↔ Next space (fun key u => IsKey L key ∧ P u) t := by
  refine silent_next (fun _ ⟨_, h⟩ => nomatch h) fun key u => ?_
  rw [(explains_parseKey _).silent_bind_iff]
  obtain ⟨hkey, r, hr⟩ | ⟨hkey, hr⟩ := parseKey_run (L := L) key
  · rw [and_iff_right hkey, ← hp u]
    constructor
    · rintro ⟨r', hr', h⟩
      rw [hr] at hr'
      cases hr'
      exact silent_map.mp h
    · intro h
      exact ⟨_, hr _, silent_map.mpr h⟩
  · refine iff_of_false ?_ fun h => hkey h.1
    rintro ⟨r', hr', -⟩
    rw [hr] at hr'
    cases hr'

theorem silent_parseDefinekey {p : Reader Command} {P : Text → Prop}
    (hp : ∀ u, Silent p ⟨u, e⟩ ↔ P u) :
    Silent (parseDefinekey L modes p) ⟨t, e⟩ ↔
      Next space (fun mode u => getModeIndexFromName modes mode ≠ none ∧
        Next space (fun key v => IsKey L key ∧ P v) u) t := by
  refine silent_require fun mode u => ?_
  cases getModeIndexFromName modes mode with
  | none => exact iff_of_false (Explains.fail _ _) fun h => h.1 rfl
  | some modeIdx =>
    rw [and_iff_right (Option.some_ne_none modeIdx)]
    exact silent_parseKeybinding _ hp

theorem silent_parseBranch {p : Reader Command} {P : Text → Prop}
    (hp : ∀ u, Silent p ⟨u, e⟩ ↔ P u) (branch : Branch) :
    Silent (parseBranch L modes p branch) ⟨t, e⟩ ↔ SilentBranch L modes e P branch t := by
  have hmap : ∀ {α : Type} {q : Reader α} {f : α → Command}, Explains q →
      (Silent (do let a ← q; pure (f a)) ⟨t, e⟩ ↔ False) :=
    fun hq => iff_of_false (fun h => hq _ (silent_map.mp h)) not_false
  -- only `split`, `bind` and `definekey` can be rejected without a text
  cases branch with
  | split action => exact silent_parseSplit action
  | bind => exact silent_map.trans (silent_parseKeybinding 1 hp)
  | definekey => exact silent_map.trans (silent_parseDefinekey hp)
  | plain action => exact iff_of_false (Explains.pure _ _) not_false
  | flag action b => exact iff_of_false (Explains.pure _ _) not_false
  | cycleBack action => exact iff_of_false (Explains.pure _ _) not_false
  | cycle action what => exact hmap (explains_parseOptional what)
  | only =>
    refine iff_of_false (Explains.bind (explains_parseOptional _) (fun screen => ?_) _) not_false
    cases screen with
    | none => exact .pure _
    | some screen =>
      exact .bind (explains_argument _) fun _ => .bind (explains_parseFromOne _) fun _ => .pure _
  | line action => exact hmap .rest
  | resize action sign =>
    refine iff_of_false (Explains.bind (explains_parseOptional _) (fun _ => ?_) _) not_false
    exact .bind (explains_parseOptional _) fun _ => .pure _
  | number action missing what first =>
    refine iff_of_false (Explains.bind (explains_argument missing) (fun _ => ?_) _) not_false
    exact .bind (explains_parseFromOne what) fun _ => .pure _
  | moveView action missing what missing' what' first =>
    refine iff_of_false (Explains.bind (explains_argument missing) (fun _ => ?_) _) not_false
    refine .bind (explains_parseFromOne what) fun _ =>
      .bind (explains_argument missing') fun _ => ?_
    exact .bind (explains_parseFromOne what') fun _ => .bind explains_parseFollow fun _ => .pure _
  | move action missing what first =>
    refine iff_of_false (Explains.bind (explains_argument missing) (fun _ => ?_) _) not_false
    exact .bind (explains_parseFromOne what) fun _ => .bind explains_parseFollow fun _ => .pure _
  | movetotile =>
    refine iff_of_false (Explains.bind (explains_argument _) (fun _ => ?_) _) not_false
    exact .bind (explains_parseInRange _) fun _ => .bind explains_parseFollow fun _ => .pure _
  | merge action =>
    refine iff_of_false (Explains.bind (.token space) (fun tok => ?_) _) not_false
    cases tok with
    | none => exact .pure _
    | some str => exact .bind (explains_parseInRange _) fun _ => .pure _
  | exchangeTowards action =>
    refine iff_of_false (Explains.bind (.token space) (fun tok => ?_) _) not_false
    cases tok with
    | none => exact .pure _
    | some str =>
      refine .ite ?_ (.bind explains_followValue fun _ => .pure _)
      exact .bind (explains_parseInRange _) fun _ => .bind explains_parseFollow fun _ => .pure _
  | exchange =>
    refine iff_of_false (Explains.bind (explains_argument _) (fun _ => ?_) _) not_false
    refine .bind (explains_parseInRange _) fun _ => .bind (explains_argument _) fun _ => ?_
    exact .bind (explains_parseInRange _) fun _ => .bind explains_parseFollow fun _ => .pure _
  | switchvt =>
    refine iff_of_false (Explains.bind (explains_argument _) (fun _ => ?_) _) not_false
    refine .bind (.convert _) fun tty => .bind .isErange fun range => ?_
    exact .bind (.failIf _ _) fun _ => .pure _
  | mode action missing unknown => exact hmap (explains_parseMode missing unknown)
  | setmodecursor =>
    refine iff_of_false (Explains.bind (explains_argument _) (fun _ => ?_) _) not_false
    exact .bind (explains_argument _) fun _ => .pure _
  | background =>
    refine hmap (.bind (explains_parseColor 0) fun _ => .bind (explains_parseColor 1) fun _ => ?_)
    exact .bind (explains_parseColor 2) fun _ => .pure _
  | escape =>
    refine hmap (.bind (.token space) fun key => ?_)
    exact .bind (explains_parseKey key) fun _ => .pure _
  | cursor => exact hmap (.bind .rest fun _ => .ite (.pure 1) (.ite (.pure 0) (.fail _)))
  | definemode => exact hmap (.bind (.token space) fun tok => .require tok _)
  | workspaces =>
    refine hmap (.bind (.token space) fun tok => .bind (.require tok _) fun str => ?_)
    exact .bind (.convert _) fun nws => .bind (.failIf _ _) fun _ => .pure nws
  | output => exact hmap explains_parseOutputConfig
  | input => exact hmap explains_parseInputConfig
  | configureMessage => exact hmap explains_parseMessageConfig

/-- The commands that are rejected without a text. -/
theorem silent_command (room : ℕ) :
    Silent (command L modes room) ⟨t, e⟩ ↔ SilentLine L modes e room t := by
  induction room generalizing t with
  | zero => exact iff_of_false (Explains.bind (.token space) (fun _ => .fail _) _) not_false
  | succ room ih =>
    refine silent_require fun action u => ?_
    cases hbranch : branchOf action with
    | none => exact iff_of_false (Explains.fail _ _) fun ⟨_, h, _⟩ => nomatch h
    | some branch =>
      refine (silent_parseBranch (fun u => ih) branch).trans ?_
      exact ⟨fun h => ⟨branch, rfl, h⟩, fun ⟨_, h, hb⟩ => Option.some.inj h ▸ hb⟩

/-- **Error texts.**  A line that is rejected leaves a text, so that its callers print and
free no other, if and only if it does not come down to a split by a percentage that is
not taken. -/
theorem errstr_assigned_iff (L : Libraries) (modes : List Text) (line : Text) (e : Errno) :
    ((∀ err u, parseCommand L modes 1 ⟨line, e⟩ = .error err u → err ≠ none) ∧
      ∃ printed, reportError L modes line e = .ok printed) ↔
      ¬SilentLine L modes e (maxNestingLevel - 1) line := by
  have hsilent := @silent_command L modes line e (maxNestingLevel - 1)
  rw [← hsilent]
  unfold reportError
  show _ ↔ ¬∃ u, parseCommand L modes 1 ⟨line, e⟩ = .error none u
  cases parseCommand L modes 1 ⟨line, e⟩ with
  | ok a u => simp
  | error err u =>
    cases err with
    | none => simp
    | some errstr => simp

/-- `vsplit x` is rejected without a text. -/
theorem errstr_indeterminate : ¬∀ (L : Libraries) (modes : List Text) (line : Text) (e : Errno)
    (err : Option Text) (u : Input),
      parseCommand L modes 1 ⟨line, e⟩ = .error err u → err ≠ none := by
  intro h
  have hsilent : Silent (parseCommand ⟨fun _ => 0, fun _ => -1, fun _ => none⟩ [] 1)
      ⟨ascii "vsplit x", .clear⟩ := by
    refine (silent_command 49).mpr ⟨.split .splitVertical, rfl, ?_⟩
    rintro ⟨-, -, -, hle⟩
    have hx : (strtof (ascii "x")).value = .fin 0 := by decide
    have hzero : CFloat.le (.fin 0) hundredth = true := by
      simp only [hundredth, CFloat.le, CFloat.lt, Bool.or_eq_true, decide_eq_true_eq]
      left
      norm_num
    have hle' : CFloat.le (.fin 0) hundredth = false := hx ▸ hle
    rw [hzero] at hle'
    cases hle'
  obtain ⟨u, hu⟩ := hsilent
  exact h _ _ _ _ _ _ hu rfl

end Parse

end Cagebreak
