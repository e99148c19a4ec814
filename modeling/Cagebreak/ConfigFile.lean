/-
The configuration file (`set_configuration`).

The file is read line by line into a buffer that is doubled until a line fits.
Its size is a `uint32_t`, and what is free of it is passed to `fgets` as an `int`.
Allocations succeed, apart from that of no bytes; the bytes that a reallocation
adds are arbitrary.

* `readLine_spec` — one line is read whole, and how large the buffer is then;
* `configuration_iff` — which files are read whole.
-/
import Cagebreak.Lib.LineInput
import Cagebreak.Parse

namespace Cagebreak

open Buffer Exec Parse Reader

/-- What `parse_rc_line` needs of the server: the modes, and what the actions do. -/
structure Host (σ : Type) where
  libraries : Libraries
  modes : σ → List Text
  runAction : KeybindingAction → KeybindingParams → σ × Errno → σ × Errno

/-- `parse_rc_line`: the server, and `errno`, after the action of the line. -/
def Host.parseRcLine {σ : Type} (host : Host σ) (line : Text) (s : σ × Errno) :
    Option (σ × Errno) :=
  let command := parseCommand host.libraries (host.modes s.1) 1
  (command.result line s.2).map fun c =>
    host.runAction c.1 c.2 (s.1, command.errnoAfter line s.2)

namespace ConfigFile

/-- `'\n'` and `'#'`. -/
def newline : UInt8 := 10

def hash : UInt8 := 35

/-- The file while it is read: the buffer, its size and what has not been read. -/
structure Reading where
  line : Buffer
  lineLength : UInt32
  file : Text

/-- The number of bytes of the buffer. -/
def Reading.cap (r : Reading) : ℕ := r.lineLength.toNat

/-- A number of type `size_t` that is passed as an `int`. -/
def toInt (n : ℕ) : ℤ := Int.bmod n (2 ^ 32)

/-- A block that has grown: the bytes that are added are `junk`. -/
def grown (b : Buffer) (cap : ℕ) (junk : Buffer) : Buffer := fun i =>
  if i < cap then b i else junk i

/-- `memset(b, 0, cap)`. -/
def zeroed (b : Buffer) (cap : ℕ) : Buffer := fun i => if i < cap then 0 else b i

/-- The buffer of `reallocarray` for twice the size, or `NULL`. -/
def double (junk : UInt32 → Buffer) (r : Reading) : Option Reading :=
  let lineLength := r.lineLength * 2
  if lineLength = 0 then none
  else some { r with lineLength, line := grown r.line r.cap (junk lineLength) }

/-- The loop that reads one line, unless there is no memory for it. -/
def readLine (junk : UInt32 → Buffer) : ℕ → Reading → Exec (Option Reading)
  | 0, _ => .error .diverges
  | fuel + 1, r => do
    let len ← r.line.strlen r.cap
    match ← r.line.fgets r.cap len (toInt (r.cap - len)) newline r.file with
    | none => .ok (some r)
    | some (line, file) => do
      let r := { r with line, file }
      let n ← r.line.strcspn newline r.cap
      if n = (r.lineLength - 1).toNat then
        match double junk r with
        | none => .ok none
        | some r => readLine junk fuel r
      else .ok (some r)

section

variable {σ : Type} (exec : Text → σ → Option σ) (junk : UInt32 → Buffer)

/-- The loop of `set_configuration`: the lines that are passed to `parse_rc_line`,
the server, and the number that is returned. -/
def readLines : ℕ → Reading → σ → Exec (List Text × σ × ℤ)
  | 0, _, _ => .error .diverges
  | fuel + 1, r, s => do
    match ← readLine junk (r.file.length + 1) r with
    | none => .ok ([], s, 2)
    | some r => do
      let len ← r.line.strlen r.cap
      if len = 0 then .ok ([], s, 0)
      else do
        let n ← r.line.strcspn newline r.cap
        let line : Buffer := Function.update r.line n 0
        let next := { r with line := zeroed line r.cap }
        if line 0 ≠ 0 ∧ line 0 ≠ hash then do
          let text ← line.cString r.cap 0
          match exec text s with
          | none => .ok ([text], s, -1)
          | some s => do
            let (lines, s, result) ← readLines fuel next s
            .ok (text :: lines, s, result)
        else readLines fuel next s

/-- `set_configuration`, for a file that can be opened. -/
def setConfiguration (file : Text) (s : σ) : Exec (List Text × σ × ℤ) :=
  readLines exec junk (file.length + 1) ⟨fun _ => 0, 64, file⟩ s

/-! ### What a configuration file is for -/

/-- The line is a command. -/
def IsCommand (line : Text) : Prop := line ≠ [] ∧ line.head? ≠ some hash

instance (line : Text) : Decidable (IsCommand line) := inferInstanceAs (Decidable (_ ∧ _))

/-- The lines are executed one after the other, up to the first that does not
parse. -/
def runLines : List Text → σ → List Text × σ × ℤ
  | [], s => ([], s, 0)
  | line :: lines, s =>
    match exec line s with
    | none => ([line], s, -1)
    | some s => (line :: (runLines lines s).1, (runLines lines s).2)

/-- The lines of the file are executed, without the empty ones and the comments. -/
def configuration (file : Text) (s : σ) : List Text × σ × ℤ :=
  runLines exec ((fileLines newline file).filter fun line => IsCommand line) s

/-- Up to the first line that does not parse, the first line of at least 2³⁰ - 1
bytes has fewer than 2³¹ - 1, and no command follows it. -/
def Readable : List Text → σ → Prop
  | [], _ => True
  | line :: lines, s =>
    let next := if IsCommand line then exec line s else some s
    if 2 ^ 30 ≤ line.length + 1 then
      line.length + 1 < 2 ^ 31 ∧ (next ≠ none → ∀ l ∈ lines, ¬ IsCommand l)
    else match next with
      | none => True
      | some s => Readable lines s

end

/-! ### One line -/

variable {σ : Type} {exec : Text → σ → Option σ} {junk : UInt32 → Buffer} {r : Reading}
  {got l t : Text} {lines : List Text} {s : σ} {n fuel : ℕ}

theorem toInt_of_lt (h : n < 2 ^ 31) : toInt n = n := by
  have hmod : Int.bmod n 4294967296 = n := Int.bmod_eq_of_le (by omega) (by omega)
  exact hmod

theorem toInt_top : toInt (2 ^ 31) ≤ 0 := by
  have hmod : toInt (2 ^ 31) = Int.bmod (2 ^ 31) (2 ^ 32) := rfl
  have hmin : Int.bmod (2 ^ 31) (2 ^ 32) = -2 ^ 31 := rfl
  omega

/-- The sizes that the buffer has. -/
def IsSize (n : ℕ) : Prop := 64 ≤ n ∧ n ≤ 2 ^ 31 ∧ ∃ e, n = 2 ^ e

theorem IsSize.top_or (h : IsSize n) : n = 2 ^ 31 ∨ IsSize (n * 2) := by
  obtain ⟨hlo, hhi, e, rfl⟩ := h
  have he : e ≤ 31 := (Nat.pow_le_pow_iff_right (by omega)).mp hhi
  by_cases htop : e = 31
  · exact .inl (by rw [htop])
  · have hle : 2 ^ e ≤ 2 ^ 30 := Nat.pow_le_pow_right (by omega) (by omega)
    exact .inr ⟨by omega, by omega, e + 1, (Nat.pow_succ 2 e).symm⟩

/-- The buffer is doubled, unless it is as large as can be. -/
theorem double_spec (junk : UInt32 → Buffer) (h : IsSize r.cap) (hf : r.line.Filled r.cap got) :
    (r.cap = 2 ^ 31 → double junk r = none) ∧
      (r.cap ≠ 2 ^ 31 → ∃ r', double junk r = some r' ∧ r'.cap = r.cap * 2 ∧
        r'.line.Filled r'.cap got ∧ r'.file = r.file) := by
  have hdouble := toNat_double (c := r.lineLength) ⟨h.2.2.choose, h.2.2.choose_spec⟩
  rw [double]
  constructor
  · intro htop
    have hzero : r.lineLength * 2 = 0 := UInt32.toNat_inj.mp (hdouble.1 htop)
    simp only [hzero, if_true]
  · intro htop
    obtain ⟨hcap, -⟩ := hdouble.2 htop
    have hcap : (r.lineLength * 2).toNat = r.cap * 2 := hcap
    have hne : r.lineLength * 2 ≠ 0 := by
      intro hzero
      rw [hzero, UInt32.toNat_zero] at hcap
      have hpos := h.1
      omega
    simp only [hne, if_false]
    refine ⟨_, rfl, hcap, hf.mono (fun i hi => if_pos hi) ?_, rfl⟩
    show r.cap ≤ (r.lineLength * 2).toNat
    omega

/-- The number of bytes before the newline. -/
theorem length_takeWhile (hl : newline ∉ l) (ht : EndsLine newline t) :
    ((l ++ t.take 1).takeWhile (· ≠ newline)).length = l.length := by
  have hall : ∀ c ∈ l, decide (c ≠ newline) = true := fun c hc =>
    decide_eq_true (ne_of_mem_of_not_mem hc hl)
  obtain rfl | ht := ht.cases
  · rw [List.take_nil, List.append_nil, List.takeWhile_eq_self_iff.mpr hall]
  · rw [ht, List.takeWhile_append_of_pos hall]
    simp

/-- What is free of the buffer, as an `int`. -/
theorem toInt_room (h : IsSize r.cap) (hroom : got.length * 2 + 2 ≤ r.cap)
    (htop : r.cap = 2 ^ 31 → got ≠ []) :
    toInt (r.cap - got.length) = (r.cap - got.length : ℕ) ∧ 2 ≤ r.cap - got.length := by
  refine ⟨toInt_of_lt ?_, by omega⟩
  have hhi := h.2.1
  by_cases hcap : r.cap = 2 ^ 31
  · have hpos := List.length_pos_iff.mpr (htop hcap)
    omega
  · omega

/-- A buffer that is as large as can be: nothing is read. -/
theorem fgets_top (hcap : r.cap = 2 ^ 31) :
    r.line.fgets r.cap 0 (toInt (r.cap - 0)) newline r.file = .ok none := by
  rw [fgets, if_pos ?_]
  rw [hcap]
  exact toInt_top

/-- The first line of a file, with what ends it, and the rest of the file. -/
theorem drop_line (ht : EndsLine newline t) :
    (l ++ t).drop (l ++ t.take 1).length = t.drop 1 ∧ (l ++ t.take 1 = [] ↔ l ++ t = []) := by
  obtain rfl | ht := ht.cases
  · simp
  · rw [ht]
    simp

/-- There is room for the rest of the line. -/
theorem fgets_short (h : IsSize r.cap) (hf : r.line.Filled r.cap got)
    (hroom : got.length * 2 + 2 ≤ r.cap) (htop : r.cap = 2 ^ 31 → got ≠ [])
    (hfile : r.file = l ++ t) (h0 : 0 ∉ r.file) (hl : newline ∉ l) (ht : EndsLine newline t)
    (hshort : got.length + l.length + 1 < r.cap) :
    l ++ t = [] ∧
      r.line.fgets r.cap got.length (toInt (r.cap - got.length)) newline r.file = .ok none ∨
    l ++ t ≠ [] ∧ ∃ b,
      r.line.fgets r.cap got.length (toInt (r.cap - got.length)) newline r.file =
        .ok (some (b, t.drop 1)) ∧ b.Filled r.cap (got ++ (l ++ t.take 1)) := by
  obtain ⟨hint, hsize⟩ := toInt_room h hroom htop
  have hread : readUpTo newline (r.cap - got.length - 1) r.file = l ++ t.take 1 := by
    rw [hfile]
    exact readUpTo_short hl ht (by omega)
  obtain ⟨hdrop, hempty⟩ := drop_line (l := l) ht
  have hlen : (l ++ t.take 1).length ≤ l.length + 1 := by
    rw [List.length_append, List.length_take]
    omega
  have hne1 : ((r.cap - got.length : ℕ) : ℤ) ≠ 1 := by omega
  rw [fgets, hint, if_neg (by omega)]
  simp only [Int.toNat_natCast, hread]
  by_cases hnil : l ++ t = []
  · rw [if_pos ⟨hempty.mpr hnil, hne1⟩]
    exact .inl ⟨hnil, rfl⟩
  · have hnul : 0 ∉ l ++ t.take 1 := by
      intro hmem
      rw [hfile] at h0
      obtain hmem | hmem := List.mem_append.mp hmem
      · exact h0 (List.mem_append_left _ hmem)
      · exact h0 (List.mem_append_right _ (List.mem_of_mem_take hmem))
    rw [if_neg fun hboth => hnil (hempty.mp hboth.1),
      deref_eq_ok.mpr (decide_eq_true (by omega)), ok_bind, hfile, hdrop]
    exact .inr ⟨hnil, _, rfl, hf.blit hnul (by omega)⟩

/-- There is not: the buffer is filled. -/
theorem fgets_long (h : IsSize r.cap) (hf : r.line.Filled r.cap got)
    (hroom : got.length * 2 + 2 ≤ r.cap) (htop : r.cap = 2 ^ 31 → got ≠ [])
    (hfile : r.file = l ++ t) (h0 : 0 ∉ r.file) (hl : newline ∉ l)
    (hlong : r.cap ≤ got.length + l.length + 1) :
    ∃ b, r.line.fgets r.cap got.length (toInt (r.cap - got.length)) newline r.file =
      .ok (some (b, l.drop (r.cap - got.length - 1) ++ t)) ∧
        b.Filled r.cap (got ++ l.take (r.cap - got.length - 1)) := by
  obtain ⟨hint, hsize⟩ := toInt_room h hroom htop
  have hread : readUpTo newline (r.cap - got.length - 1) r.file =
      l.take (r.cap - got.length - 1) := by
    rw [hfile]
    exact readUpTo_long hl (by omega)
  have hlen : (l.take (r.cap - got.length - 1)).length = r.cap - got.length - 1 := by
    rw [List.length_take]
    omega
  have hne : l.take (r.cap - got.length - 1) ≠ [] := by
    rw [← List.length_pos_iff, hlen]
    omega
  have hnul : 0 ∉ l.take (r.cap - got.length - 1) := by
    intro hmem
    rw [hfile] at h0
    exact h0 (List.mem_append_left _ (List.mem_of_mem_take hmem))
  rw [fgets, hint, if_neg (by omega)]
  simp only [Int.toNat_natCast, hread]
  rw [if_neg fun hboth => hne hboth.1, deref_eq_ok.mpr (decide_eq_true (by omega)), ok_bind, hlen,
    hfile, List.drop_append_of_le_length (by omega)]
  exact ⟨_, rfl, hf.blit hnul (by omega)⟩

theorem toNat_pred (h : IsSize r.cap) : (r.lineLength - 1).toNat = r.cap - 1 := by
  have hle : (1 : UInt32) ≤ r.lineLength := by
    rw [UInt32.le_iff_toNat_le]
    have hpos := h.1
    exact Nat.le_trans (by decide) hpos
  rw [UInt32.toNat_sub_of_le _ _ hle]
  rfl

/-- One round of the loop, once something has been read. -/
theorem readLine_succ {b : Buffer} {file : Text}
    (hf : r.line.Filled r.cap got)
    (hread : r.line.fgets r.cap got.length (toInt (r.cap - got.length)) newline r.file =
      .ok (some (b, file)))
    (hspan : b.strcspn newline r.cap = .ok n) :
    readLine junk (fuel + 1) r = if n = (r.lineLength - 1).toNat then
      match double junk { r with line := b, file } with
      | none => .ok none
      | some r => readLine junk fuel r
    else .ok (some { r with line := b, file }) := by
  rw [readLine, hf.strlen, ok_bind, hread, ok_bind]
  show (b.strcspn newline r.cap >>= _) = _
  rw [hspan]
  rfl

/-- **One line.**  It is read whole if it has fewer than 2³¹ - 1 bytes; the buffer
is as large as can be from 2³⁰ - 1 bytes on. -/
theorem readLine_spec (junk : UInt32 → Buffer) (h : IsSize r.cap)
    (hf : r.line.Filled r.cap got) (hgot : newline ∉ got)
    (hroom : got.length * 2 + 2 ≤ r.cap) (htop : r.cap = 2 ^ 31 → got ≠ [])
    (hfile : r.file = l ++ t) (h0 : 0 ∉ r.file) (hl : newline ∉ l) (ht : EndsLine newline t)
    (hfuel : l.length < fuel) :
    (2 ^ 31 ≤ got.length + l.length + 1 → readLine junk fuel r = .ok none) ∧
      (got.length + l.length + 1 < 2 ^ 31 → ∃ r', readLine junk fuel r = .ok (some r') ∧
        IsSize r'.cap ∧ r'.line.Filled r'.cap (got ++ (l ++ t.take 1)) ∧ r'.file = t.drop 1 ∧
        (r'.cap = 2 ^ 31 ↔ r.cap = 2 ^ 31 ∨ 2 ^ 30 ≤ got.length + l.length + 1)) := by
  induction fuel generalizing r got l with
  | zero => exact absurd hfuel (Nat.not_lt_zero _)
  | succ fuel ih =>
    by_cases hshort : got.length + l.length + 1 < r.cap
    · -- the line ends in the buffer
      have hhi := h.2.1
      refine ⟨fun hhuge => by omega, fun _ => ?_⟩
      have hcap : r.cap = 2 ^ 31 ↔ r.cap = 2 ^ 31 ∨ 2 ^ 30 ≤ got.length + l.length + 1 := by
        refine ⟨.inl, fun hor => hor.elim id fun hlong => ?_⟩
        obtain htop | hnext := h.top_or
        · exact htop
        · have := hnext.2.1
          omega
      obtain ⟨hnil, hread⟩ | ⟨-, b, hread, hb⟩ :=
        fgets_short h hf hroom htop hfile h0 hl ht hshort
      · obtain ⟨rfl, rfl⟩ := List.append_eq_nil_iff.mp hnil
        refine ⟨r, ?_, h, ?_, hfile, hcap⟩
        · rw [readLine, hf.strlen, ok_bind, hread, ok_bind]
        · rw [List.take_nil, List.append_nil, List.append_nil]
          exact hf
      · have hspan : b.strcspn newline r.cap = .ok (got ++ l).length := by
          rw [hb.strcspn, ← List.append_assoc, length_takeWhile ?_ ht]
          rw [List.mem_append, not_or]
          exact ⟨hgot, hl⟩
        rw [readLine_succ hf hread hspan, toNat_pred h, if_neg ?_]
        · exact ⟨_, rfl, h, hb, rfl, hcap⟩
        · rw [List.length_append]
          omega
    · -- the buffer is full
      obtain ⟨b, hread, hb⟩ := fgets_long h hf hroom htop hfile h0 hl (by omega)
      have hlen : (l.take (r.cap - got.length - 1)).length = r.cap - got.length - 1 := by
        rw [List.length_take]
        omega
      have hall : newline ∉ got ++ l.take (r.cap - got.length - 1) := by
        rw [List.mem_append, not_or]
        exact ⟨hgot, fun hmem => hl (List.mem_of_mem_take hmem)⟩
      have hspan : b.strcspn newline r.cap =
          .ok (got ++ l.take (r.cap - got.length - 1)).length := by
        have htake := length_takeWhile hall (t := []) (fun c hc => by cases hc)
        rw [List.take_nil, List.append_nil] at htake
        rw [hb.strcspn, htake]
      have hfull : (got ++ l.take (r.cap - got.length - 1)).length = r.cap - 1 := by
        rw [List.length_append, hlen]
        omega
      rw [readLine_succ hf hread hspan, toNat_pred h, if_pos hfull]
      generalize hr₁ : ({ r with line := b, file := _ } : Reading) = r₁
      have hcap₁ : r₁.cap = r.cap := by
        rw [← hr₁]
        rfl
      have hb₁ : r₁.line.Filled r₁.cap (got ++ l.take (r.cap - got.length - 1)) := by
        rw [← hr₁]
        exact hb
      have hsize₁ : IsSize r₁.cap := by
        rw [hcap₁]
        exact h
      obtain ⟨hnone, hsome⟩ := double_spec junk hsize₁ hb₁
      rw [hcap₁] at hnone hsome
      -- the largest buffer cannot be doubled
      by_cases hcap : r.cap = 2 ^ 31
      · rw [hnone hcap]
        refine ⟨fun _ => rfl, fun hlt => ?_⟩
        rw [hcap] at hshort
        exact absurd hlt hshort
      · obtain ⟨r₂, hr₂, hcap₂, hf₂, hfile₂⟩ := hsome hcap
        clear hnone hsome
        rw [hr₂]
        have hsize₂ : IsSize r₂.cap := by
          rw [hcap₂]
          exact h.top_or.resolve_left hcap
        have hfile₃ : r₂.file = l.drop (r.cap - got.length - 1) ++ t := by
          rw [hfile₂, ← hr₁]
        have hne : got ++ l.take (r.cap - got.length - 1) ≠ [] := by
          rw [← List.length_pos_iff, hfull]
          have := h.1
          omega
        have hsum : (got ++ l.take (r.cap - got.length - 1)).length +
            (l.drop (r.cap - got.length - 1)).length = got.length + l.length := by
          rw [hfull, List.length_drop]
          omega
        have h0₂ : 0 ∉ r₂.file := by
          rw [hfile₃]
          rw [hfile] at h0
          intro hmem
          obtain hmem | hmem := List.mem_append.mp hmem
          · exact h0 (List.mem_append_left _ (List.mem_of_mem_drop hmem))
          · exact h0 (List.mem_append_right _ hmem)
        have hpos := h.1
        have hroom₂ : (got ++ l.take (r.cap - got.length - 1)).length * 2 + 2 ≤ r₂.cap := by
          rw [hfull, hcap₂]
          omega
        have hfuel₂ : (l.drop (r.cap - got.length - 1)).length < fuel := by
          rw [List.length_drop]
          omega
        -- the next round goes on behind what has been read
        have hih := ih hsize₂ hf₂ hall hroom₂ (fun _ => hne) hfile₃ h0₂
          (fun hmem => hl (List.mem_of_mem_drop hmem)) hfuel₂
        rw [hsum, List.append_assoc, ← List.append_assoc (l.take _), List.take_append_drop] at hih
        refine ⟨hih.1, fun hlt => ?_⟩
        obtain ⟨r', hr', hsize', hf', hfile', hiff⟩ := hih.2 hlt
        refine ⟨r', hr', hsize', hf', hfile', ?_⟩
        rw [hiff, hcap₂]
        clear hih hiff
        omega

/-! ### The file -/

theorem runLines_result (exec : Text → σ → Option σ) (lines : List Text)
    (s : σ) :   (runLines exec lines s).2.2 = 0 ∨ (runLines exec lines s).2.2 = -1 := by
  induction lines generalizing s with
  | nil => exact .inl rfl
  | cons line lines ih =>
    rw [runLines]
    cases exec line s with
    | none => exact .inr rfl
    | some s' => exact ih s'

/-- Nothing is executed exactly if there is nothing to execute. -/
theorem runLines_eq_nil : runLines exec lines s = ([], s, 0) ↔ lines = [] := by
  cases lines with
  | nil => exact iff_of_true rfl rfl
  | cons line lines =>
    refine iff_of_false (fun h => ?_) (List.cons_ne_nil _ _)
    rw [runLines] at h
    cases hexec : exec line s with
    | none =>
      rw [hexec] at h
      cases h
    | some s' =>
      rw [hexec] at h
      cases h

/-- Reading the buffer after a line has been read into it. -/
theorem readLines_line (exec : Text → σ → Option σ) (fuel : ℕ) (s : σ) {r' : Reading}
    (hne : l ++ t ≠ []) (ht : EndsLine newline t)
    (hl : newline ∉ l) (hline : readLine junk (r.file.length + 1) r = .ok (some r'))
    (hf : r'.line.Filled r'.cap (l ++ t.take 1)) :
    ∃ next : Reading, next.cap = r'.cap ∧ (∀ i < r'.cap, next.line i = 0) ∧
      next.file = r'.file ∧ readLines exec junk (fuel + 1) r s =
        if IsCommand l then
          match exec l s with
          | none => .ok ([l], s, -1)
          | some s => do
            let out ← readLines exec junk fuel next s
            .ok (l :: out.1, out.2)
        else readLines exec junk fuel next s := by
  have hcut := hf.cut
  have hlen : (l ++ t.take 1).length ≠ 0 := by
    intro hzero
    exact hne ((drop_line ht).2.mp (List.length_eq_zero_iff.mp hzero))
  have hspan : r'.line.strcspn newline r'.cap = .ok l.length := by
    rw [hf.strcspn, length_takeWhile hl ht]
  have hhead := hcut.head
  let next : Reading := { r' with line := zeroed (Function.update r'.line l.length 0) r'.cap }
  refine ⟨next, rfl, fun i hi => if_pos hi, rfl, ?_⟩
  rw [readLines, hline, ok_bind]
  simp only
  rw [hf.strlen, ok_bind, if_neg hlen, hspan, ok_bind, hcut.cString, ok_bind, hhead]
  have hiff : (l.head?.getD 0 ≠ 0 ∧ l.head?.getD 0 ≠ hash) ↔ IsCommand l := by
    cases l with
    | nil => simp [IsCommand]
    | cons c l =>
      have hc : c ≠ 0 := ne_of_mem_of_not_mem List.mem_cons_self hcut.noNul
      simp [IsCommand, hc]
  simp only [hiff]
  split
  · cases hexec : exec l s with
    | none => rfl
    | some s' => rfl
  · rfl

/-- A line that is not too long is followed by lines that are read, or by none that
matter. -/
theorem readable_cons (h : l.length + 1 < 2 ^ 31) : Readable exec (l :: lines) s ↔
    ∀ s', (if IsCommand l then exec l s else some s) = some s' →
      if 2 ^ 30 ≤ l.length + 1 then ∀ x ∈ lines, ¬ IsCommand x else Readable exec lines s' := by
  rw [Readable]
  cases hnext : (if IsCommand l then exec l s else some s) with
  | none =>
    refine iff_of_true ?_ fun s' hs' => ?_
    · split
      · exact ⟨h, fun hne => absurd rfl hne⟩
      · trivial
    · cases hs'
  | some s₁ =>
    constructor
    · intro hread s' hs'
      rw [← Option.some.inj hs']
      split
      · next hbig =>
        rw [if_pos hbig] at hread
        exact hread.2 (Option.some_ne_none s₁)
      · next hbig =>
        rw [if_neg hbig] at hread
        exact hread
    · intro hread
      have hs₁ := hread s₁ rfl
      split
      · next hbig =>
        rw [if_pos hbig] at hs₁
        exact ⟨h, fun _ => hs₁⟩
      · next hbig =>
        rw [if_neg hbig] at hs₁
        exact hs₁

/-- **The file.**  A buffer that is as large as can be reads nothing more; otherwise
what is executed is the configuration exactly if the file is readable. -/
theorem readLines_spec (h : IsSize r.cap) (hzero : ∀ i < r.cap, r.line i = 0) (h0 : 0 ∉ r.file)
    (hfuel : r.file.length < fuel) : ∃ out, readLines exec junk fuel r s = .ok out ∧
      (r.cap = 2 ^ 31 → out = ([], s, 0)) ∧
      (r.cap ≠ 2 ^ 31 → (out = configuration exec r.file s ↔
        Readable exec (fileLines newline r.file) s)) := by
  induction fuel generalizing r s with
  | zero => exact absurd hfuel (Nat.not_lt_zero _)
  | succ fuel ih =>
    have hpos : 0 < r.cap := Nat.lt_of_lt_of_le (by decide) h.1
    have hf : r.line.Filled r.cap [] := Filled.nil (hzero 0 hpos) hpos
    -- `fgets` is told that the largest buffer has no room, and reads nothing
    by_cases htop : r.cap = 2 ^ 31
    · have hline : readLine junk (r.file.length + 1) r = .ok (some r) := by
        rw [readLine, hf.strlen, ok_bind, List.length_nil, fgets_top htop, ok_bind]
      refine ⟨([], s, 0), ?_, fun _ => rfl, fun hne => absurd htop hne⟩
      rw [readLines, hline, ok_bind]
      simp only
      rw [hf.strlen, ok_bind, if_pos List.length_nil]
    obtain ⟨l, t, hfile, hl, ht⟩ : ∃ l t, r.file = l ++ t ∧ newline ∉ l ∧ EndsLine newline t :=
      exists_line r.file
    have hlen : l.length < r.file.length + 1 := by
      rw [hfile, List.length_append]
      omega
    have hsmall : ([] : Text).length * 2 + 2 ≤ r.cap := Nat.le_trans (by decide) h.1
    obtain ⟨hhuge, hread⟩ := readLine_spec junk h hf List.not_mem_nil hsmall
      (fun hcap => absurd hcap htop) hfile h0 hl ht hlen
    rw [List.length_nil, Nat.zero_add] at hhuge hread
    by_cases hnil : l ++ t = []
    · -- the end of the file
      obtain ⟨rfl, rfl⟩ := List.append_eq_nil_iff.mp hnil
      obtain ⟨r', hline, -, hf', -⟩ := hread (by decide)
      rw [List.take_nil, List.append_nil, List.append_nil] at hf'
      refine ⟨([], s, 0), ?_, fun _ => rfl, fun _ => ?_⟩
      · rw [readLines, hline, ok_bind]
        simp only
        rw [hf'.strlen, ok_bind, if_pos List.length_nil]
      · rw [hfile]
        exact iff_of_true rfl trivial
    have hlines : fileLines newline r.file = l :: fileLines newline (t.drop 1) := by
      rw [hfile, fileLines_append hl ht hnil]
    rw [configuration, hlines]
    by_cases hlong : l.length + 1 < 2 ^ 31
    · obtain ⟨r', hline, hsize, hf', hfile', hcap'⟩ := hread hlong
      rw [List.nil_append] at hf'
      obtain ⟨next, hcap, hzero', hnext, hrun⟩ :=
        readLines_line exec fuel s hnil ht hl hline hf'
      have hnf : next.file = t.drop 1 := hnext.trans hfile'
      -- the rest of the file is read with the buffer that this line has left
      have hrest : ∀ s₁, ∃ out, readLines exec junk fuel next s₁ = .ok out ∧
          (out = configuration exec (t.drop 1) s₁ ↔ if 2 ^ 30 ≤ l.length + 1 then
            ∀ x ∈ fileLines newline (t.drop 1), ¬ IsCommand x
            else Readable exec (fileLines newline (t.drop 1)) s₁) := by
        intro s₁
        have h0' : 0 ∉ next.file := by
          rw [hnf]
          rw [hfile] at h0
          exact fun hmem => h0 (List.mem_append_right _ (List.mem_of_mem_drop hmem))
        have hshort : next.file.length < fuel := by
          have hpos' := List.length_pos_iff.mpr hnil
          rw [hfile] at hfuel
          rw [List.length_append] at hpos' hfuel
          rw [hnf, List.length_drop]
          omega
        obtain ⟨out, hout, hstop, hiff⟩ := @ih next s₁ (by rw [hcap]; exact hsize)
          (by rw [hcap]; exact hzero') h0' hshort
        refine ⟨out, hout, ?_⟩
        rw [or_iff_right htop, ← hcap] at hcap'
        rw [hnf] at hiff
        by_cases hbig : 2 ^ 30 ≤ l.length + 1
        · rw [if_pos hbig, hstop (hcap'.mpr hbig), configuration, eq_comm, runLines_eq_nil,
            List.filter_eq_nil_iff]
          simp
        · rw [if_neg hbig]
          exact hiff fun htop' => hbig (hcap'.mp htop')
      rw [hrun, readable_cons hlong]
      -- comments and empty lines are not executed
      by_cases hcmd : IsCommand l
      · have hfilter : (l :: fileLines newline (t.drop 1)).filter (fun line => IsCommand line) =
            l :: (fileLines newline (t.drop 1)).filter fun line => IsCommand line :=
          List.filter_cons_of_pos (by simpa using hcmd)
        rw [if_pos hcmd, if_pos hcmd, hfilter, runLines]
        cases hexec : exec l s with
        | none =>
          refine ⟨_, rfl, fun hcap => absurd hcap htop, fun _ => iff_of_true rfl fun s' hs' => ?_⟩
          cases hs'
        | some s₁ =>
          obtain ⟨out, hout, hiff⟩ := hrest s₁
          simp only
          rw [hout]
          refine ⟨_, rfl, fun hcap => absurd hcap htop, fun _ => ?_⟩
          have hpair : (l :: out.1, out.2) = (l :: (configuration exec (t.drop 1) s₁).1,
              (configuration exec (t.drop 1) s₁).2) ↔ out = configuration exec (t.drop 1) s₁ := by
            simp [Prod.ext_iff]
          refine (hpair.trans hiff).trans ⟨fun hread s' hs' => ?_, fun hread => hread s₁ rfl⟩
          rw [← Option.some.inj hs']
          exact hread
      · have hfilter : (l :: fileLines newline (t.drop 1)).filter (fun line => IsCommand line) =
            (fileLines newline (t.drop 1)).filter fun line => IsCommand line :=
          List.filter_cons_of_neg (by simpa using hcmd)
        rw [if_neg hcmd, if_neg hcmd, hfilter]
        obtain ⟨out, hout, hiff⟩ := hrest s
        refine ⟨out, hout, fun hcap => absurd hcap htop, fun _ => hiff.trans ?_⟩
        refine ⟨fun hread s' hs' => ?_, fun hread => hread s rfl⟩
        rw [← Option.some.inj hs']
        exact hread
    -- the line does not fit into the largest buffer
    · refine ⟨([], s, 2), ?_, fun hcap => absurd hcap htop, fun _ => ?_⟩
      · rw [readLines, hhuge (by omega), ok_bind]
      refine iff_of_false (fun hout => ?_) ?_
      · -- the number that is returned tells them apart
        have hresult : (2 : ℤ) = (runLines exec ((l :: fileLines newline (t.drop 1)).filter
            fun line => IsCommand line) s).2.2 := congrArg (fun out => out.2.2) hout
        obtain hzero | hneg := runLines_result exec
          ((l :: fileLines newline (t.drop 1)).filter fun line => IsCommand line) s
        · rw [hzero] at hresult
          exact absurd hresult (by decide)
        · rw [hneg] at hresult
          exact absurd hresult (by decide)
      · rw [Readable]
        intro hreadable
        rw [if_pos (by omega)] at hreadable
        exact hlong hreadable.1

/-- Files whose lines are shorter than a gigabyte are read whole. -/
theorem readable_of_short (h : ∀ l ∈ lines, l.length + 1 < 2 ^ 30) : Readable exec lines s := by
  induction lines generalizing s with
  | nil => trivial
  | cons l lines ih =>
    have hl : l.length + 1 < 2 ^ 30 := h l List.mem_cons_self
    rw [readable_cons (by omega)]
    intro s' hs'
    rw [if_neg (by omega)]
    exact ih fun x hx => h x (List.mem_cons_of_mem _ hx)

theorem setConfiguration_spec (exec : Text → σ → Option σ) (junk : UInt32 → Buffer) (file : Text)
    (h0 : 0 ∉ file) (s : σ) : ∃ out, setConfiguration exec junk file s = .ok out ∧
      (out = configuration exec file s ↔ Readable exec (fileLines newline file) s) := by
  have hcap : Reading.cap ⟨fun _ => 0, 64, file⟩ = 64 := rfl
  have hsize : IsSize (Reading.cap ⟨fun _ => 0, 64, file⟩) := by
    rw [hcap]
    exact ⟨by omega, by omega, 6, rfl⟩
  obtain ⟨out, hout, -, hiff⟩ : ∃ out, setConfiguration exec junk file s = .ok out ∧ _ :=
    readLines_spec hsize (fun _ _ => rfl) h0 (Nat.lt_succ_self _)
  exact ⟨out, hout, hiff (by rw [hcap]; omega)⟩

/-- **The configuration file.**  It is always read to an end.  Exactly its commands
are executed, in order and up to the first that does not parse, if and only if
the file is readable. -/
theorem configuration_iff (host : Host σ) (junk : UInt32 → Buffer) (file : Text) (h0 : 0 ∉ file)
    (s : σ × Errno) : (∃ out, setConfiguration host.parseRcLine junk file s = .ok out) ∧
      (setConfiguration host.parseRcLine junk file s =
        .ok (configuration host.parseRcLine file s) ↔
          Readable host.parseRcLine (fileLines newline file) s) := by
  obtain ⟨out, hout, hiff⟩ := setConfiguration_spec host.parseRcLine junk file h0 s
  refine ⟨⟨out, hout⟩, ?_⟩
  rw [hout, ← hiff]
  exact ⟨fun h => Except.ok.inj h, fun h => congrArg Except.ok h⟩

/-- A host without modes whose actions do nothing. -/
def idle : Host Unit where
  libraries :=
    { xkbKeysymFromName := fun _ => 0
      libevdevEventCodeFromName := fun _ => -1
      libevdevEventCodeGetName := fun _ => none }
  modes _ := []
  runAction _ _ s := s

/-- A comment, an empty line and a command that no newline ends. -/
theorem configuration_small :
    setConfiguration idle.parseRcLine (fun _ _ => 255) (ascii "# b\n\nabort") ((), .clear) =
      .ok ([ascii "abort"], ((), .clear), 0) := by
  have hshort : ∀ l ∈ fileLines newline (ascii "# b\n\nabort"), l.length + 1 < 2 ^ 30 := by
    decide
  have h := (configuration_iff idle (fun _ _ => 255) (ascii "# b\n\nabort") (by decide)
    ((), .clear)).2.mpr (readable_of_short hshort)
  rw [h]
  rfl

/-- A comment of `n` bytes, and a command. -/
def longComment (n : ℕ) : Text := List.replicate n hash ++ newline :: ascii "abort"

theorem longComment_lines (n : ℕ) :
    fileLines newline (longComment n) = [List.replicate n hash, ascii "abort"] := by
  have hl : newline ∉ List.replicate n hash := by
    intro hmem
    exact absurd (List.eq_of_mem_replicate hmem) (by decide)
  have ht : EndsLine newline (newline :: ascii "abort") := fun c hc => (Option.some.inj hc).symm
  rw [longComment, fileLines_append hl ht (by simp)]
  rfl

theorem zero_notMem_longComment (n : ℕ) : 0 ∉ longComment n := by
  intro hmem
  obtain hmem | hmem := List.mem_append.mp hmem
  · exact absurd (List.eq_of_mem_replicate hmem) (by decide)
  · exact absurd hmem (by decide)

theorem replicate_notCommand {n : ℕ} (hn : n ≠ 0) : ¬ IsCommand (List.replicate n hash) := by
  intro h
  refine h.2 ?_
  rw [List.head?_replicate, if_neg hn]

/-- The command after the comment is one that parses. -/
theorem configuration_longComment {n : ℕ} (hn : n ≠ 0) :
    configuration idle.parseRcLine (longComment n) ((), .clear) =
      ([ascii "abort"], ((), .clear), 0) := by
  have hfilter : [List.replicate n hash, ascii "abort"].filter (fun line => IsCommand line) =
      [ascii "abort"] := by
    rw [List.filter_cons_of_neg (by simpa using replicate_notCommand hn)]
    rfl
  rw [configuration, longComment_lines, hfilter]
  rfl

/-- It is not executed when the comment is a gigabyte long. -/
theorem setConfiguration_longComment {junk : UInt32 → Buffer} {n : ℕ} (hlo : 2 ^ 30 ≤ n + 1)
    (hhi : n + 1 < 2 ^ 31) : setConfiguration idle.parseRcLine junk (longComment n) ((), .clear) ≠
      .ok (configuration idle.parseRcLine (longComment n) ((), .clear)) := by
  intro hrun
  obtain ⟨out, hout, hiff⟩ := setConfiguration_spec idle.parseRcLine junk (longComment n)
    (zero_notMem_longComment n) ((), .clear)
  have hread : Readable idle.parseRcLine (fileLines newline (longComment n)) ((), .clear) :=
    hiff.mp (Except.ok.inj (hout.symm.trans hrun))
  rw [longComment_lines, readable_cons (by rwa [List.length_replicate])] at hread
  have hnone := hread ((), .clear) (if_neg (replicate_notCommand (by omega)))
  rw [List.length_replicate, if_pos hlo] at hnone
  exact hnone _ List.mem_cons_self (by decide)

theorem configuration_long : 0 ∉ longComment (2 ^ 30 - 1) ∧
    configuration idle.parseRcLine (longComment (2 ^ 30 - 1)) ((), .clear) =
      ([ascii "abort"], ((), .clear), 0) ∧
    setConfiguration idle.parseRcLine (fun _ _ => 255) (longComment (2 ^ 30 - 1)) ((), .clear) ≠
      .ok (configuration idle.parseRcLine (longComment (2 ^ 30 - 1)) ((), .clear)) := by
  refine ⟨zero_notMem_longComment _, configuration_longComment ?_,
    setConfiguration_longComment ?_ ?_⟩
  · omega
  · omega
  · omega

end ConfigFile

end Cagebreak
