/-
The numbers of commands, as they are stored (`parse_command`).

A number is read as a `long` and stored in 32 bits, from which `run_action` passes it on
as an `int` or as a `uint32_t`.

* `NumericLine` — a command with decimal numerals for its numbers;
* `parseBranch_numbers` — which of them are accepted, and what they are stored as;
* `operands_kept_iff` — the numbers that are passed on are those that were written,
  exactly if they fit where they are stored.
-/
import Cagebreak.ParseLines

namespace Cagebreak

namespace Parse

open Strto Reader

variable {L : Libraries} {modes : List Text} {t u : Text} {e : Errno} {α : Type}

/-! ### Operands -/

/-- The types of the arguments that `run_action` passes numbers on as. -/
inductive OperandType
  | int
  | uint32

namespace OperandType

/-- A word of 32 bits as an argument of this type. -/
def read (n : UInt32) : OperandType → ℤ
  | int => toInt n.toNat
  | uint32 => n.toNat

/-- The type has room for a number. -/
def Holds (x : ℤ) : OperandType → Prop
  | int => -2 ^ 31 ≤ x ∧ x < 2 ^ 31
  | uint32 => 0 ≤ x ∧ x < 2 ^ 32

/-- A number that is stored is read again exactly if there is room for it; `k` is what
`strtol` made of it. -/
theorem read_ofInt {type : OperandType} {k x : ℤ}
    (h : -2 ^ 32 < x → x < 2 ^ 32 → k = x) : type.read (.ofInt k) = x ↔ type.Holds x := by
  have hstored : ((UInt32.ofInt k).toNat : ℤ) = k % 2 ^ 32 := by
    rw [UInt32.ofInt, UInt32.toNat_ofNat']
    omega
  cases type with
  | int =>
    show toInt (UInt32.ofInt k).toNat = x ↔ -2 ^ 31 ≤ x ∧ x < 2 ^ 31
    rw [hstored, toInt]
    constructor
    · intro heq
      omega
    · intro hx
      have hk := h (by omega) (by omega)
      omega
  | uint32 =>
    show ((UInt32.ofInt k).toNat : ℤ) = x ↔ 0 ≤ x ∧ x < 2 ^ 32
    rw [hstored]
    constructor
    · intro heq
      omega
    · intro hx
      have hk := h (by omega) (by omega)
      omega

end OperandType

/-- The numbers that `run_action` passes on, each as an argument of its type. -/
def usedOperands : Command → List ℤ
  | (.cycleViews, .us _ n) | (.cycleTiles, .us _ n) => [OperandType.uint32.read n]
  | (.layoutFullscreen, .us screen ws) =>
    [OperandType.uint32.read screen, OperandType.uint32.read ws]
  | (.resizeTileHorizontal, .is pixels tile) | (.resizeTileVertical, .is pixels tile) =>
    [OperandType.int.read pixels, OperandType.int.read tile]
  | (.switchOutput, .u n) => [OperandType.int.read n]
  | (.switchWorkspace, .u n) | (.changeTty, .u n) => [OperandType.uint32.read n]
  | (.mergeLeft, .u n) | (.mergeRight, .u n) | (.mergeTop, .u n) | (.mergeBottom, .u n) =>
    [OperandType.uint32.read n]
  | (.moveViewToOutput, .us3 view n _) => [OperandType.int.read view, OperandType.int.read n]
  | (.moveViewToWorkspace, .us3 view ws _) =>
    [OperandType.int.read view, OperandType.uint32.read ws]
  | (.moveViewToTile, .us3 view tile _) =>
    [OperandType.uint32.read view, OperandType.uint32.read tile]
  | (.moveToOutput, .us n _) => [OperandType.int.read n]
  | (.moveToWorkspace, .us n _) | (.moveToTile, .us n _) => [OperandType.uint32.read n]
  | (.swapLeft, .us n _) | (.swapRight, .us n _) | (.swapTop, .us n _)
  | (.swapBottom, .us n _) => [OperandType.uint32.read n]
  | (.swap, .us3 a b _) => [OperandType.uint32.read a, OperandType.uint32.read b]
  | (.workspaces, .i n) => [n]
  | _ => []

/-- The types of these arguments. -/
def operandTypes : KeybindingAction → List OperandType
  | .cycleViews | .cycleTiles | .switchWorkspace | .changeTty => [.uint32]
  | .mergeLeft | .mergeRight | .mergeTop | .mergeBottom => [.uint32]
  | .swapLeft | .swapRight | .swapTop | .swapBottom => [.uint32]
  | .moveToWorkspace | .moveToTile => [.uint32]
  | .switchOutput | .moveToOutput | .workspaces => [.int]
  | .layoutFullscreen | .moveViewToTile | .swap => [.uint32, .uint32]
  | .resizeTileHorizontal | .resizeTileVertical | .moveViewToOutput => [.int, .int]
  | .moveViewToWorkspace => [.int, .uint32]
  | _ => []

/-! ### Commands with numbers -/

/-- The numbers that a command takes, and the argument after them. -/
inductive NumericArguments : Branch → Type
  | cycle {action what} (n : Numeral) : NumericArguments (.cycle action what)
  | only (screen workspace : Numeral) : NumericArguments .only
  | resize {action sign} (pixels : Numeral) (tile : Option Numeral) :
    NumericArguments (.resize action sign)
  | number {action missing what first} (n : Numeral) :
    NumericArguments (.number action missing what first)
  | moveView {action missing what missing' what' first} (view n : Numeral)
    (follow : Option Bool) : NumericArguments (.moveView action missing what missing' what' first)
  | move {action missing what first} (n : Numeral) (follow : Option Bool) :
    NumericArguments (.move action missing what first)
  | movetotile (n : Numeral) (follow : Option Bool) : NumericArguments .movetotile
  | merge {action} (n : Numeral) : NumericArguments (.merge action)
  | exchangeTowards {action} (n : Numeral) (follow : Option Bool) :
    NumericArguments (.exchangeTowards action)
  | exchange (a b : Numeral) (follow : Option Bool) : NumericArguments .exchange
  | switchvt (n : Numeral) : NumericArguments .switchvt
  | workspaces (n : Numeral) : NumericArguments .workspaces

/-- A command with numerals for its numbers. -/
structure NumericLine where
  word : Word
  branch : Branch
  known : branchOf word.text = some branch
  arguments : NumericArguments branch

/-- `true`, `false` or nothing. -/
def followWords : Option Bool → List Word
  | none => []
  | some true => [.ofString "true"]
  | some false => [.ofString "false"]

namespace NumericArguments

variable {b : Branch}

def words : NumericArguments b → List Word
  | cycle n | number n | merge n | switchvt n | workspaces n => [.numeral n]
  | only screen workspace => [.numeral screen, .numeral workspace]
  | resize pixels tile => .numeral pixels :: operand tile
  | moveView view n follow => .numeral view :: .numeral n :: followWords follow
  | move n follow | movetotile n follow | exchangeTowards n follow =>
    .numeral n :: followWords follow
  | exchange a b follow => .numeral a :: .numeral b :: followWords follow

/-- The numbers that are written, counted from `first` and with the sign of a resize. -/
def values : NumericArguments b → List ℤ
  | cycle n | merge n | switchvt n | workspaces n => [n.value]
  | only screen workspace => [screen.value, workspace.value - 1]
  | @resize _ sign pixels tile => sign * pixels.value :: tile.toList.map Numeral.value
  | @number _ _ _ first n => [n.value - first]
  | @moveView _ _ _ _ _ first view n _ => [view.value, n.value - first]
  | @move _ _ _ first n _ => [n.value - first]
  | movetotile n _ | exchangeTowards n _ => [n.value]
  | exchange a b _ => [a.value, b.value]

/-- The numbers are accepted: those of most commands from one on, with or without a look
at `errno`. -/
def Accepted : NumericArguments b → Prop
  | cycle n | number n => 1 ≤ n.value
  | only screen workspace => 1 ≤ screen.value ∧ 1 ≤ workspace.value
  | resize pixels tile => 1 ≤ pixels.value ∧ ∀ k ∈ tile, 1 ≤ k.value
  | moveView view n _ => 1 ≤ view.value ∧ 1 ≤ n.value
  | move n _ => 1 ≤ n.value
  | movetotile n _ | merge n | exchangeTowards n _ => 1 ≤ n.value ∧ n.value ≤ longMax
  | exchange a b _ => (1 ≤ a.value ∧ a.value ≤ longMax) ∧ 1 ≤ b.value ∧ b.value ≤ longMax
  | switchvt n => longMin ≤ n.value ∧ n.value ≤ longMax
  | workspaces n => 1 ≤ n.value ∧ n.value ≤ 30

/-- `0` for `false`. -/
def followNumber : Option Bool → UInt32
  | some false => 0
  | _ => 1

/-- What `strtol` returns. -/
def clamp (n : Numeral) : ℤ := max longMin (min longMax n.value)

/-- What the command is parsed into. -/
def parsed : NumericArguments b → Command
  | @cycle action _ n => (action, .us 0 (.ofInt (clamp n)))
  | only screen workspace =>
    (.layoutFullscreen, .us (.ofInt (clamp screen)) (.ofInt (clamp workspace - 1)))
  | @resize action sign pixels tile =>
    (action, .is (.ofInt (sign * clamp pixels)) (.ofInt ((tile.map clamp).getD 0)))
  | @number action _ _ first n => (action, .u (.ofInt (clamp n - first)))
  | @moveView action _ _ _ _ first view n follow =>
    (action, .us3 (.ofInt (clamp view)) (.ofInt (clamp n - first)) (followNumber follow))
  | @move action _ _ first n follow =>
    (action, .us (.ofInt (clamp n - first)) (followNumber follow))
  | movetotile n follow => (.moveToTile, .us (.ofInt (clamp n)) (followNumber follow))
  | @merge action n => (action, .u (.ofInt (clamp n)))
  | @exchangeTowards action n follow => (action, .us (.ofInt (clamp n)) (followNumber follow))
  | exchange a b follow =>
    (.swap, .us3 (.ofInt (clamp a)) (.ofInt (clamp b)) (followNumber follow))
  | switchvt n => (.changeTty, .u (.ofInt (clamp n)))
  | workspaces n => (.workspaces, .i (clamp n))

end NumericArguments

/-! ### How the numbers are read -/

open NumericArguments (clamp followNumber)

/-- `errno` after a numeral. -/
def errnoAfterStrtol (n : Numeral) (e : Errno) : Errno :=
  if (strtol n.text).range then .erange else e

theorem strtol_clamp (n : Numeral) : (strtol n.text).value = clamp n := by rw [n.strtol_text, clamp]

theorem one_le_clamp {n : Numeral} : clamp n < 1 ↔ ¬1 ≤ n.value := by
  unfold clamp longMin longMax
  omega

/-- A number from one on, whatever `errno` is. -/
theorem fromOne_result {what : String} {n : Numeral} {f : ℤ → Reader α} {c : α} :
    (parseFromOne what n.text >>= f).result t e = some c ↔
      1 ≤ n.value ∧ (f (clamp n)).result t (errnoAfterStrtol n e) = some c := by
  unfold result parseFromOne
  rw [run_bind, run_bind, run_convert, Option.bind_some, run_bind, run_failIf, strtol_clamp]
  by_cases h : 1 ≤ n.value
  · rw [if_neg fun hlt => one_le_clamp.mp hlt h, and_iff_right h]
    rfl
  · rw [if_pos (one_le_clamp.mpr h)]
    exact iff_of_false (fun heq => nomatch heq) fun hand => h hand.1

theorem inRange_numeral {n : Numeral} : InRange n.text ↔ 1 ≤ n.value ∧ n.value ≤ longMax := by
  unfold InRange
  rw [n.strtol_text]
  simp only [decide_eq_false_iff_not]
  unfold longMin longMax
  omega

/-- A number from one on, with a look at `errno`. -/
theorem inRange_result {what : String} {n : Numeral} {f : ℤ → Reader α} {c : α} :
    (parseInRange what n.text >>= f).result t .clear = some c ↔
      (1 ≤ n.value ∧ n.value ≤ longMax) ∧ (f (clamp n)).result t .clear = some c := by
  unfold result
  rw [run_bind, run_parseInRange, strtol_clamp, ← inRange_numeral]
  by_cases h : InRange n.text
  · rw [if_pos h, and_iff_right h]
    rfl
  · rw [if_neg h]
    exact iff_of_false (fun heq => nomatch heq) fun hand => h hand.1

/-- An argument that is a numeral. -/
theorem argument_numeral {missing : String} {n : Numeral} {ws : List Word} {f : Text → Reader α} :
    (argument missing >>= f).result (line (.numeral n :: ws)) e = (f n.text).result (line ws) e :=
  require_result (strtok_line (.numeral n) ws)

theorem token_numeral {n : Numeral} {ws : List Word} {f : Option Text → Reader α} :
    (token space >>= f).result (line (.numeral n :: ws)) e = (f (some n.text)).result (line ws) e :=
  token_result (strtok_line (.numeral n) ws)

theorem follow_result {follow : Option Bool} {g : UInt32 → Command} :
    (do let k ← parseFollow; pure (g k)).result (line (followWords follow)) e =
      some (g (followNumber follow)) := by
  cases follow with
  | none => rfl
  | some b =>
    cases b with
    | true => rfl
    | false => rfl

/-- An optional number that is there. -/
theorem optional_result {what : String} {n : Numeral} {ws : List Word} {f : Option ℤ → Reader α}
    {c : α} :
    (parseOptional what >>= f).result (line (.numeral n :: ws)) e = some c ↔
      1 ≤ n.value ∧ (f (some (clamp n))).result (line ws) (errnoAfterStrtol n e) = some c := by
  have hread : (parseOptional what >>= f).result (line (.numeral n :: ws)) e =
      (parseFromOne what n.text >>= fun k => f (some k)).result (line ws) e := by
    have htok : strtok space (line (.numeral n :: ws)) = (some n.text, line ws) :=
      strtok_line (.numeral n) ws
    unfold result
    rw [parseOptional, run_bind, run_bind, run_token, Option.bind_some]
    dsimp only
    rw [htok]
    show ((Reader.run (parseFromOne what n.text >>= fun k => pure (some k)) _).bind _).map _ = _
    rw [run_bind, run_bind, Option.bind_assoc]
    rfl
  rw [hread, fromOne_result]

/-- A numeral is no word with a letter in it. -/
theorem text_ne {word : Text} {x : UInt8} (n : Numeral) (hx : x ∈ word) (hdigit : isDigit x = false)
    (hminus : x ≠ 45) : n.text ≠ word := by
  intro heq
  rw [← heq] at hx
  exact n.ne_of_mem_text hx hdigit hminus rfl

/-! ### What a command is parsed into -/

/-- A branch accepts these numbers, and stores them as they are clamped. -/
theorem parseBranch_numbers {b : Branch} (args : NumericArguments b) (p : Reader Command)
    {c : Command} : (parseBranch L modes p b).result (line args.words) .clear = some c ↔
      args.Accepted ∧ args.parsed = c := by
  cases args with
  | cycle n =>
    show (parseOptional _ >>= _).result (line [.numeral n]) .clear = some c ↔ _
    rw [optional_result]
    exact and_congr_right fun _ => Option.some_inj
  | only screen workspace =>
    show (parseOptional _ >>= _).result (line [.numeral screen, .numeral workspace]) _ = _ ↔ _
    rw [optional_result]
    show _ ∧ (argument _ >>= _).result (line [.numeral workspace]) _ = _ ↔ _
    rw [argument_numeral, fromOne_result, ← and_assoc]
    exact and_congr_right fun _ => Option.some_inj
  | resize pixels tile =>
    show (parseOptional _ >>= _).result (line (.numeral pixels :: operand tile)) _ = _ ↔ _
    rw [optional_result]
    cases tile with
    | none =>
      show _ ∧ some _ = _ ↔ (1 ≤ pixels.value ∧ ∀ k ∈ (none : Option Numeral), 1 ≤ k.value) ∧ _
      rw [and_iff_left (a := 1 ≤ pixels.value) fun k hk => absurd hk (Option.not_mem_none k)]
      exact and_congr_right fun _ => Option.some_inj
    | some tile =>
      show _ ∧ (parseOptional _ >>= _).result (line [.numeral tile]) _ = _ ↔
        (1 ≤ pixels.value ∧ ∀ k ∈ some tile, 1 ≤ k.value) ∧ _
      have htile : (∀ k ∈ some tile, 1 ≤ k.value) ↔ 1 ≤ tile.value := by simp
      rw [optional_result, htile, ← and_assoc]
      exact and_congr_right fun _ => Option.some_inj
  | number n =>
    show (argument _ >>= _).result (line [.numeral n]) .clear = some c ↔ _
    rw [argument_numeral, fromOne_result]
    exact and_congr_right fun _ => Option.some_inj
  | moveView view n follow =>
    show (argument _ >>= _).result (line (.numeral view :: .numeral n :: followWords follow))
      _ = _ ↔ _
    rw [argument_numeral, fromOne_result, argument_numeral, fromOne_result, follow_result,
      ← and_assoc]
    exact and_congr_right fun _ => Option.some_inj
  | move n follow =>
    show (argument _ >>= _).result (line (.numeral n :: followWords follow)) .clear = some c ↔ _
    rw [argument_numeral, fromOne_result, follow_result]
    exact and_congr_right fun _ => Option.some_inj
  | movetotile n follow =>
    show (argument _ >>= _).result (line (.numeral n :: followWords follow)) .clear = some c ↔ _
    rw [argument_numeral, inRange_result, follow_result]
    exact and_congr_right fun _ => Option.some_inj
  | merge n =>
    show (token space >>= _).result (line [.numeral n]) .clear = some c ↔ _
    rw [token_numeral]
    show (parseInRange _ n.text >>= _).result _ _ = _ ↔ _
    rw [inRange_result]
    exact and_congr_right fun _ => Option.some_inj
  | exchangeTowards n follow =>
    show (token space >>= _).result (line (.numeral n :: followWords follow)) .clear = some c ↔ _
    rw [token_numeral]
    show (if n.text ≠ ascii "true" ∧ n.text ≠ ascii "false" then _ else _ :
      Reader Command).result _ _ = _ ↔ _
    -- a numeral is neither of the two words for `follow`
    rw [if_pos ⟨text_ne n (x := 116) (by decide) rfl (by decide),
      text_ne n (x := 102) (by decide) rfl (by decide)⟩, inRange_result, follow_result]
    exact and_congr_right fun _ => Option.some_inj
  | exchange a b follow =>
    show (argument _ >>= _).result (line (.numeral a :: .numeral b :: followWords follow)) _ = _ ↔ _
    rw [argument_numeral, inRange_result, argument_numeral, inRange_result, follow_result,
      ← and_assoc]
    exact and_congr_right fun _ => Option.some_inj
  | switchvt n =>
    show (argument _ >>= _).result (line [.numeral n]) .clear = some c ↔ _
    rw [argument_numeral, result, run_checked_clear, run_bind, run_failIf, strtol_clamp,
      n.strtol_text]
    dsimp only
    show _ ↔ (longMin ≤ n.value ∧ n.value ≤ longMax) ∧ _
    -- `strtol` sets `errno` for a number that a `long` does not hold
    by_cases h : n.value < longMin ∨ longMax < n.value
    · rw [if_pos (decide_eq_true h)]
      exact iff_of_false (fun heq => absurd heq.symm (Option.some_ne_none c)) (by omega)
    · rw [if_neg (by simpa using h)]
      exact (and_iff_right (by omega)).symm.trans (and_congr_right fun _ => Option.some_inj)
  | workspaces n =>
    show (do let nws ← parseWorkspaces; pure _).result (line [.numeral n]) .clear = some c ↔
      (1 ≤ n.value ∧ n.value ≤ 30) ∧ _
    have htok : strtok space (line [.numeral n]) = (some n.text, []) := strtok_line (.numeral n) []
    rw [result_map, parseWorkspaces, require_result htok, result, run_bind, run_convert,
      Option.bind_some, run_bind, run_failIf, strtol_clamp]
    -- `strtol` clamps, which brings no number into the range
    have hrange : (1 ≤ clamp n ∧ clamp n ≤ 30) ↔ 1 ≤ n.value ∧ n.value ≤ 30 := by
      unfold clamp longMin longMax
      omega
    by_cases h : 1 ≤ n.value ∧ n.value ≤ 30
    · rw [if_neg (not_not_intro (hrange.mpr h)), and_iff_right h]
      exact Option.some_inj
    · rw [if_pos fun hand => h (hrange.mp hand)]
      exact iff_of_false (fun heq => absurd heq.symm (Option.some_ne_none c)) fun hand => h hand.1

/-! ### Where the numbers fit -/

/-- The actions of the commands that take numbers, and what their numbers are counted
from. -/
def Branch.Listed : Branch → Prop
  | .cycle action _ => action = .cycleTiles ∨ action = .cycleViews
  | .resize action sign =>
    (action = .resizeTileHorizontal ∨ action = .resizeTileVertical) ∧ (sign = 1 ∨ sign = -1)
  | .number action _ _ first =>
    action = .switchOutput ∧ first = 0 ∨ action = .switchWorkspace ∧ first = 1
  | .moveView action _ _ _ _ first =>
    action = .moveViewToOutput ∧ first = 0 ∨ action = .moveViewToWorkspace ∧ first = 1 ∨
      action = .moveViewToTile ∧ first = 0
  | .move action _ _ first =>
    action = .moveToOutput ∧ first = 0 ∨ action = .moveToWorkspace ∧ first = 1
  | .merge action =>
    action = .mergeLeft ∨ action = .mergeRight ∨ action = .mergeTop ∨ action = .mergeBottom
  | .exchangeTowards action =>
    action = .swapLeft ∨ action = .swapRight ∨ action = .swapTop ∨ action = .swapBottom
  | _ => True

theorem branches_listed : ∀ p ∈ branches, p.2.Listed := by simp [branches, Branch.Listed]

theorem listed_of_branchOf {word : Text} {b : Branch} (h : branchOf word = some b) : b.Listed := by
  obtain ⟨p, hp, rfl⟩ := Option.map_eq_some_iff.mp h
  exact branches_listed p (List.mem_of_find?_eq_some hp)

/-- There is room for each number that is written, as an argument of its type. -/
def NumericArguments.Fits {b : Branch} (args : NumericArguments b) : Prop :=
  ∀ p ∈ (operandTypes args.parsed.1).zip args.values, p.1.Holds p.2

/-- Near zero the clamped number is the number, also with a sign and counted from one. -/
theorem clamp_eq (n : Numeral) {sign first : ℤ} (hsign : sign = 1 ∨ sign = -1)
    (hfirst : first = 0 ∨ first = 1) (h : -2 ^ 32 < sign * n.value - first)
    (h' : sign * n.value - first < 2 ^ 32) :
    sign * clamp n - first = sign * n.value - first := by
  have hclamp : -2 ^ 33 < n.value → n.value < 2 ^ 33 → clamp n = n.value := by
    unfold clamp longMin longMax
    omega
  obtain rfl | rfl := hsign
  · rw [hclamp (by omega) (by omega)]
  · rw [hclamp (by omega) (by omega)]

theorem clamp_eq_value (n : Numeral) (h : -2 ^ 32 < n.value) (h' : n.value < 2 ^ 32) :
    clamp n = n.value := by
  have heq := @clamp_eq n 1 0 (.inl rfl) (.inl rfl) (by omega) (by omega)
  omega

theorem clamp_sub_eq (n : Numeral) {first : ℤ} (hfirst : first = 0 ∨ first = 1)
    (h : -2 ^ 32 < n.value - first) (h' : n.value - first < 2 ^ 32) :
    clamp n - first = n.value - first := by
  have heq := @clamp_eq n 1 first (.inl rfl) hfirst (by omega) (by omega)
  omega

/-- One number, of one argument. -/
theorem one_eq_iff {type : OperandType} {k x : ℤ} (h : -2 ^ 32 < x → x < 2 ^ 32 → k = x) :
    [type.read (.ofInt k)].take [x].length = [x] ↔ ∀ p ∈ [type].zip [x], p.1.Holds p.2 := by
  simp [OperandType.read_ofInt h]

/-- Two numbers. -/
theorem two_eq_iff {type type' : OperandType} {k k' x x' : ℤ}
    (h : -2 ^ 32 < x → x < 2 ^ 32 → k = x) (h' : -2 ^ 32 < x' → x' < 2 ^ 32 → k' = x') :
    [type.read (.ofInt k), type'.read (.ofInt k')].take [x, x'].length = [x, x'] ↔
      ∀ p ∈ [type, type'].zip [x, x'], p.1.Holds p.2 := by
  simp [OperandType.read_ofInt h, OperandType.read_ofInt h']

/-- The first of two numbers. -/
theorem first_eq_iff {type type' : OperandType} {k x : ℤ} {n : UInt32}
    (h : -2 ^ 32 < x → x < 2 ^ 32 → k = x) :
    [type.read (.ofInt k), type'.read n].take [x].length = [x] ↔
      ∀ p ∈ [type, type'].zip [x], p.1.Holds p.2 := by
  simp [OperandType.read_ofInt h]

/-- Numbers that are accepted are kept exactly if there is room for them. -/
theorem operands_eq_iff {b : Branch} {args : NumericArguments b} (hb : b.Listed)
    (hacc : args.Accepted) :
    (usedOperands args.parsed).take args.values.length = args.values ↔ args.Fits := by
  cases args with
  | cycle n =>
    obtain rfl | rfl := hb
    · exact one_eq_iff (clamp_eq_value n)
    · exact one_eq_iff (clamp_eq_value n)
  | only screen workspace =>
    exact two_eq_iff (clamp_eq_value screen) (clamp_sub_eq workspace (.inr rfl))
  | @resize action sign pixels tile =>
    obtain ⟨haction, hsign⟩ := hb
    have hpixels : -2 ^ 32 < sign * pixels.value → sign * pixels.value < 2 ^ 32 →
        sign * clamp pixels = sign * pixels.value := by
      intro h h'
      have heq := clamp_eq pixels hsign (.inl rfl) (by omega) (by omega)
      omega
    cases tile with
    | none =>
      obtain rfl | rfl := haction
      · exact first_eq_iff hpixels
      · exact first_eq_iff hpixels
    | some tile =>
      obtain rfl | rfl := haction
      · exact two_eq_iff hpixels (clamp_eq_value tile)
      · exact two_eq_iff hpixels (clamp_eq_value tile)
  | number n =>
    obtain ⟨rfl, rfl⟩ | ⟨rfl, rfl⟩ := hb
    · exact one_eq_iff (clamp_sub_eq n (.inl rfl))
    · exact one_eq_iff (clamp_sub_eq n (.inr rfl))
  | moveView view n follow =>
    obtain ⟨rfl, rfl⟩ | ⟨rfl, rfl⟩ | ⟨rfl, rfl⟩ := hb
    · exact two_eq_iff (clamp_eq_value view) (clamp_sub_eq n (.inl rfl))
    · exact two_eq_iff (clamp_eq_value view) (clamp_sub_eq n (.inr rfl))
    · exact two_eq_iff (clamp_eq_value view) (clamp_sub_eq n (.inl rfl))
  | move n follow =>
    obtain ⟨rfl, rfl⟩ | ⟨rfl, rfl⟩ := hb
    · exact one_eq_iff (clamp_sub_eq n (.inl rfl))
    · exact one_eq_iff (clamp_sub_eq n (.inr rfl))
  | movetotile n follow => exact one_eq_iff (clamp_eq_value n)
  | merge n =>
    obtain rfl | rfl | rfl | rfl := hb
    · exact one_eq_iff (clamp_eq_value n)
    · exact one_eq_iff (clamp_eq_value n)
    · exact one_eq_iff (clamp_eq_value n)
    · exact one_eq_iff (clamp_eq_value n)
  | exchangeTowards n follow =>
    obtain rfl | rfl | rfl | rfl := hb
    · exact one_eq_iff (clamp_eq_value n)
    · exact one_eq_iff (clamp_eq_value n)
    · exact one_eq_iff (clamp_eq_value n)
    · exact one_eq_iff (clamp_eq_value n)
  | exchange a b follow => exact two_eq_iff (clamp_eq_value a) (clamp_eq_value b)
  | switchvt n => exact one_eq_iff (clamp_eq_value n)
  | workspaces n =>
    -- from one to thirty there is room for it
    obtain ⟨h1, h30⟩ := hacc
    have heq := clamp_eq_value n (by omega) (by omega)
    have hroom : OperandType.int.Holds n.value := ⟨by omega, by omega⟩
    refine iff_of_true (congrArg (fun k => [k]) heq) fun p hp => ?_
    have hp' : p ∈ [(OperandType.int, n.value)] := hp
    obtain rfl := List.mem_singleton.mp hp'
    exact hroom

namespace NumericLine

def text (N : NumericLine) : Text := line (N.word :: N.arguments.words)

/-- The numbers that are passed on are those that were written, and those that do not fit
are rejected. -/
def Kept (L : Libraries) (modes : List Text) (room : ℕ) (N : NumericLine) : Prop :=
  (∀ c, (command L modes (room + 1)).result N.text .clear = some c →
    (usedOperands c).take N.arguments.values.length = N.arguments.values) ∧
  (¬N.arguments.Fits → (command L modes (room + 1)).result N.text .clear = none)

theorem result_eq_some {room : ℕ} {c : Command} (N : NumericLine) :
    (command L modes (room + 1)).result N.text .clear = some c ↔
      N.arguments.Accepted ∧ N.arguments.parsed = c := by
  rw [text, command_result (strtok_line N.word N.arguments.words) N.known]
  exact parseBranch_numbers N.arguments _

/-- **The operands.**  They are kept exactly if they fit, or one of them is not accepted. -/
theorem operands_kept_iff (L : Libraries) (modes : List Text) (room : ℕ) (N : NumericLine) :
    N.Kept L modes room ↔ (N.arguments.Accepted → N.arguments.Fits) := by
  have hlisted := listed_of_branchOf N.known
  constructor
  · intro hkept hacc
    exact (operands_eq_iff hlisted hacc).mp (hkept.1 _ (N.result_eq_some.mpr ⟨hacc, rfl⟩))
  · intro hfits
    constructor
    · intro c hc
      obtain ⟨hacc, rfl⟩ := N.result_eq_some.mp hc
      exact (operands_eq_iff hlisted hacc).mpr (hfits hacc)
    · intro hnot
      cases hc : (command L modes (room + 1)).result N.text .clear with
      | none => rfl
      | some c => exact absurd (hfits (N.result_eq_some.mp hc).1) hnot

/-- The line `focus 4294967297`. -/
def hugeFocus : NumericLine where
  word := .ofString "focus"
  branch := .cycle .cycleTiles "Tile id must be an integer number"
  known := rfl
  arguments := .cycle ⟨false, ⟨ascii "4294967297", by decide, by decide⟩⟩

/-- It focuses the tile `1`. -/
theorem hugeFocus_one :
    hugeFocus.text = ascii "focus 4294967297" ∧
      ((parseCommand ⟨fun _ => 0, fun _ => -1, fun _ => none⟩ [] 1).result
        (ascii "focus 4294967297") .clear).map usedOperands = some [1] ∧
      ¬hugeFocus.Kept ⟨fun _ => 0, fun _ => -1, fun _ => none⟩ [] 48 := by
  have htext : hugeFocus.text = ascii "focus 4294967297" := by decide
  have hread : ((parseCommand ⟨fun _ => 0, fun _ => -1, fun _ => none⟩ [] 1).result
      (ascii "focus 4294967297") .clear).map usedOperands = some [1] := by decide
  refine ⟨htext, hread, fun hkept => ?_⟩
  obtain ⟨c, hc, hone⟩ := Option.map_eq_some_iff.mp hread
  have heq := hkept.1 c (by rw [htext]; exact hc)
  rw [hone] at heq
  exact absurd heq (by decide)

end NumericLine

end Parse

end Cagebreak
