/-
The identifiers of input devices (`input_device_get_identifier`).

The name of a device is copied, trimmed in place and masked, and printed behind
the numbers of the device.  The identifier is what an `input` command has to name
to configure the device.  There is memory for every allocation but those of no
bytes; characters are those of the `C` locale.

* `stripWhitespace_spec` — the name is trimmed without an access outside of it;
* `inputDeviceGetIdentifier_eq` — what is printed;
* `identifier_iff` — for which devices the commands match;
* `identifier_matches` — they match every device whose name is not extremely long.
-/
import Cagebreak.Lib.Snprintf
import Cagebreak.Lib.Trim
import Cagebreak.ParseInputs

namespace Cagebreak

open Buffer Block Exec Parse Reader Strto

namespace InputIdentifier

/-! ### The source -/

/-- What is read of a device. -/
structure NamedDevice extends WlrInputDevice where
  name : Option Text
  idVendor : UInt32
  idProduct : UInt32
  noNul : ∀ s ∈ name, 0 ∉ s

/-- A difference of two numbers of type `size_t`. -/
def sizeSub (m n : ℕ) : ℕ := if n ≤ m then m - n else m + 2 ^ 64 - n

/-- `" \f\n\r\t\v"`. -/
def whitespace : Text := [32, 12, 10, 13, 9, 11]

def isPrint (c : UInt8) : Bool := 32 ≤ c && c ≤ 126

/-- The loop `for(; isspace(str[len]); --len)`.  Below zero `len` wraps around, to
an index outside of every block. -/
def skipSpaces (str : Block) : ℕ → Exec ℕ
  | 0 => do
    deref (decide (0 < str.size))
    if isSpace (str.bytes 0) then .error .undefined else .ok 0
  | len + 1 => do
    deref (decide (len + 1 < str.size))
    if isSpace (str.bytes (len + 1)) then skipSpaces str len else .ok (len + 1)

/-- `strip_whitespace`. -/
def stripWhitespace (str : Block) : Exec Block := do
  let len ← str.bytes.strlen str.size
  let start ← str.bytes.strspn whitespace.contains str.size
  let bytes ← str.bytes.memmove str.size start (sizeSub (len + 1) start)
  let str : Block := { str with bytes }
  deref (decide (0 < str.size))
  if str.bytes 0 ≠ 0 then do
    let len ← skipSpaces str (sizeSub len (start + 1))
    deref (decide (len + 1 < str.size))
    .ok { str with bytes := Function.update str.bytes (len + 1) 0 }
  else .ok str

/-- A blank or an unprintable byte becomes `'_'`. -/
def mask (c : UInt8) : UInt8 := if c = 32 ∨ isPrint c = false then 95 else c

/-- The loop over the name, from `p` on. -/
def maskFrom (name : Block) : ℕ → ℕ → Exec Block
  | 0, _ => .error .diverges
  | fuel + 1, p => do
    deref (decide (p < name.size))
    if name.bytes p = 0 then .ok name
    else if name.bytes p = 32 ∨ isPrint (name.bytes p) = false then
      maskFrom { name with bytes := Function.update name.bytes p 95 } fuel (p + 1)
    else maskFrom name fuel (p + 1)

variable (m : Malloc) (device : NamedDevice)

/-- The numbers of the device, as an `int`. -/
def vendor : ℤ := if device.isLibinput then device.idVendor.toInt32.toInt else 0

def product : ℤ := if device.isLibinput then device.idProduct.toInt32.toInt else 0

/-- `device->name ? device->name : ""`. -/
def deviceName : Text := device.name.getD []

/-- `input_device_get_identifier`. -/
def inputDeviceGetIdentifier : Exec (Option Block) := do
  let name ← stripWhitespace (strdup (deviceName device))
  let name ← maskFrom name name.size 0
  let name ← name.string
  let text ← Printf.format (ascii "%d:%d:%s")
    [.int (vendor device), .int (product device), .str name]
  m.sprintf text

/-! ### What an identifier is for -/

/-- The numbers of a device and its trimmed name. -/
def identifier : Text :=
  Printf.decimal (vendor device) ++ 58 :: (Printf.decimal (product device) ++
    58 :: (trim isSpace (deviceName device)).map mask)

/-- The command `input <ident> <setting> <value>`. -/
def inputCommand (ident : Text) (setting : Word) (value : Text) : Text :=
  ascii "input" ++ 32 :: (ident ++ 32 :: (setting.text ++ 32 :: value))

/-- The command is read with this identifier, and what is stored for it matches the
devices of this identifier. -/
def Names (ident : Text) (setting : Word) (value : Text) : Prop :=
  ∀ L modes room e,
    (command L modes (room + 1)).result (inputCommand ident setting value) e =
      ((parseInputSetting L setting.text value
        { emptyInputConfig with identifier := some ident }).result value e).map
          (fun cfg => (.configureInput, .iCfg cfg)) ∧
    ∀ cfg, (command L modes (room + 1)).result (inputCommand ident setting value) e =
        some (.configureInput, .iCfg cfg) →
      cfg.identifier = some ident ∧
        ∀ d : InputDevice, d.identifier = ident → configMatches d (storedConfig cfg) = true

/-- The device has an identifier without blanks and control characters, and every
command with that identifier is one for the device. -/
def Addressed : Prop := ∃ p ident, inputDeviceGetIdentifier m device = .ok (some p) ∧
  p.string = .ok ident ∧ (∀ c ∈ ident, c ≠ 32 ∧ isPrint c = true) ∧
    ∀ setting value, Names ident setting value

/-! ### Trimming -/

variable {m device} {str name : Block} {s t u core sp ident value : Text} {c : UInt8} {n : ℕ}
  {setting : Word}

theorem contains_whitespace : whitespace.contains = isSpace := by
  funext c
  rw [Bool.eq_iff_iff]
  simp only [whitespace, isSpace, List.contains_cons, List.contains_nil, Bool.or_eq_true,
    Bool.and_eq_true, beq_iff_eq, decide_eq_true_eq]
  constructor
  · grind
  · grind

/-- The scan stops at the last byte that is not a space. -/
theorem skipSpaces_spec (h : str.Holds (core ++ sp)) (hne : core ≠ [])
    (hlast : isSpace (core.getLast hne) = false) (hsp : ∀ c ∈ sp, isSpace c = true)
    (hlo : core.length ≤ n + 1) (hhi : n < (core ++ sp).length) :
    skipSpaces str n = .ok (core.length - 1) := by
  have hlt : (core ++ sp).length < str.size := h.lt
  have hspace : ∀ i, core.length ≤ i → i < (core ++ sp).length → isSpace (str.bytes i) = true := by
    intro i hi hi'
    rw [h.getElem hi', List.getElem_append_right hi]
    exact hsp _ (List.getElem_mem _)
  have hcore : ∀ i, core.length = i + 1 → isSpace (str.bytes i) = false := by
    intro i hi
    have hi' : i < (core ++ sp).length := by
      rw [List.length_append]
      omega
    rw [h.getElem hi', List.getElem_append_left (by omega)]
    have hget : core[i] = core.getLast hne := by
      rw [List.getLast_eq_getElem]
      congr 1
      omega
    rw [hget, hlast]
  induction n with
  | zero =>
    have hpos : 0 < core.length := List.length_pos_iff.mpr hne
    have hone : core.length = 1 := by omega
    rw [skipSpaces, decide_eq_true (by omega)]
    show (if isSpace (str.bytes 0) then _ else _) = _
    rw [hcore 0 hone, hone]
    rfl
  | succ n ih =>
    rw [skipSpaces, decide_eq_true (by omega)]
    show (if isSpace (str.bytes (n + 1)) then _ else _) = _
    by_cases hend : core.length = n + 1 + 1
    · rw [hcore (n + 1) hend, hend]
      rfl
    · rw [hspace (n + 1) (by omega) hhi]
      exact ih (by omega) (by omega)

/-- What is left of a string after its leading spaces is trimmed at the end. -/
theorem skipSpaces_trim (h : str.Holds (s.dropWhile isSpace)) (hne : s.dropWhile isSpace ≠ []) :
    ∃ len, skipSpaces str ((s.dropWhile isSpace).length - 1) = .ok len ∧ len + 1 < str.size ∧
      Block.Holds { str with bytes := Function.update str.bytes (len + 1) 0 }
        (trim isSpace s) := by
  have hpos : 0 < (s.dropWhile isSpace).length := List.length_pos_iff.mpr hne
  have hparts : s.dropWhile isSpace = trim isSpace s ++ (s.dropWhile isSpace).rtakeWhile isSpace :=
    List.rdropWhile_append_rtakeWhile.symm
  have hcore : trim isSpace s ≠ [] := by
    intro hnil
    rw [trim, List.rdropWhile_eq_nil_iff] at hnil
    exact List.dropWhile_get_zero_not isSpace s hpos (hnil _ (List.getElem_mem hpos))
  have hlast : isSpace ((trim isSpace s).getLast hcore) = false :=
    Bool.eq_false_iff.mpr (List.rdropWhile_last_not isSpace _ hcore)
  have hcorepos : 0 < (trim isSpace s).length := List.length_pos_iff.mpr hcore
  have hback : (trim isSpace s).length - 1 + 1 = (trim isSpace s).length := by omega
  have htotal : (s.dropWhile isSpace).length = (trim isSpace s).length +
      ((s.dropWhile isSpace).rtakeWhile isSpace).length := by
    rw [← List.length_append, ← hparts]
  have hlt : (s.dropWhile isSpace).length < str.size := h.lt
  have hholds : str.Holds (trim isSpace s ++ (s.dropWhile isSpace).rtakeWhile isSpace) :=
    hparts ▸ h
  refine ⟨(trim isSpace s).length - 1, ?_, by omega, ?_⟩
  · refine skipSpaces_spec hholds hcore hlast (fun c => List.mem_rtakeWhile_imp) (by omega) ?_
    rw [← hparts]
    omega
  · rw [hback]
    exact Filled.cut hholds

/-- **The string is trimmed in place.** -/
theorem stripWhitespace_spec (h : str.Holds s) :
    ∃ str', stripWhitespace str = .ok str' ∧ str'.Holds (trim isSpace s) := by
  have hlt : s.length < str.size := h.lt
  have hsplit : s = s.takeWhile isSpace ++ s.dropWhile isSpace :=
    List.takeWhile_append_dropWhile.symm
  have hmove : str.bytes.Filled str.size (s.takeWhile isSpace ++ s.dropWhile isSpace) :=
    hsplit ▸ h
  have hlen : s.length = (s.takeWhile isSpace).length + (s.dropWhile isSpace).length := by
    rw [← List.length_append, ← hsplit]
  have hrest : sizeSub (s.length + 1) (s.takeWhile isSpace).length =
      (s.dropWhile isSpace).length + 1 := by
    rw [sizeSub, if_pos (by omega)]
    omega
  obtain ⟨bytes, hbytes, hfilled⟩ := hmove.memmove
  rw [stripWhitespace, Filled.strlen h, ok_bind, contains_whitespace, Filled.strspn h, ok_bind,
    hrest, hbytes, ok_bind]
  show ∃ str', deref (decide (0 < str.size)) >>= _ = _ ∧ _
  rw [decide_eq_true (by omega)]
  show ∃ str', (if bytes 0 ≠ 0 then _ else _) = _ ∧ _
  by_cases hnil : s.dropWhile isSpace = []
  · -- all of it was blank
    rw [hnil] at hfilled
    have hzero : bytes 0 = 0 := hfilled.ended
    rw [if_neg (not_not_intro hzero)]
    refine ⟨_, rfl, ?_⟩
    rw [trim, hnil]
    exact hfilled
  · have hpos : 0 < (s.dropWhile isSpace).length := List.length_pos_iff.mpr hnil
    have hne0 : bytes 0 ≠ 0 := by
      intro hzero
      rw [hfilled.getElem hpos] at hzero
      exact hfilled.noNul (hzero ▸ List.getElem_mem hpos)
    have hlast : sizeSub s.length ((s.takeWhile isSpace).length + 1) =
        (s.dropWhile isSpace).length - 1 := by
      rw [sizeSub, if_pos (by omega)]
      omega
    have hholds : Block.Holds { str with bytes } (s.dropWhile isSpace) := hfilled
    obtain ⟨len, hscan, hroom, htrim⟩ := skipSpaces_trim hholds hnil
    rw [if_pos hne0, hlast, hscan, ok_bind, decide_eq_true hroom]
    exact ⟨_, rfl, htrim⟩

/-! ### Masking -/

theorem maskFrom_spec (h : name.Holds (u ++ t)) (hn : t.length < n) :
    ∃ name', maskFrom name n u.length = .ok name' ∧ name'.Holds (u ++ t.map mask) := by
  induction t generalizing u name n with
  | nil =>
    obtain ⟨n, rfl⟩ : ∃ k, n = k + 1 := ⟨n - 1, by simp at hn; omega⟩
    rw [List.append_nil] at h
    have hzero : name.bytes u.length = 0 := h.ended
    have hlt : u.length < name.size := h.lt
    refine ⟨name, ?_, by simpa using h⟩
    rw [maskFrom, decide_eq_true hlt]
    show (if name.bytes u.length = 0 then _ else _) = _
    rw [if_pos hzero]
  | cons c t ih =>
    obtain ⟨n, rfl⟩ : ∃ k, n = k + 1 := ⟨n - 1, by simp at hn; omega⟩
    have hlt : (u ++ c :: t).length < name.size := h.lt
    rw [List.length_append, List.length_cons] at hlt
    have hbyte : name.bytes u.length = c := by
      rw [h.getElem (by simp)]
      simp
    have hc : c ≠ 0 := by
      intro hc
      exact h.noNul (by simp [hc])
    have hlen : u.length + 1 = (u ++ [mask c]).length := by simp
    have happ : u ++ (c :: t).map mask = (u ++ [mask c]) ++ t.map mask := by simp
    rw [maskFrom, decide_eq_true (by omega), happ]
    show ∃ name', (if name.bytes u.length = 0 then _ else _) = _ ∧ _
    rw [hbyte, if_neg hc, hlen]
    rw [List.length_cons] at hn
    by_cases hmask : c = 32 ∨ isPrint c = false
    · have hset : Filled (Function.update name.bytes u.length 95) name.size (u ++ 95 :: t) :=
        Filled.set h (by decide)
      have h95 : mask c = 95 := if_pos hmask
      rw [if_pos hmask]
      refine ih (u := u ++ [mask c]) ?_ (by omega)
      rw [h95, List.append_assoc]
      exact hset
    · have hself : mask c = c := if_neg hmask
      rw [if_neg hmask]
      refine ih (u := u ++ [mask c]) ?_ (by omega)
      rw [hself, List.append_assoc]
      exact h

theorem format_identifier (a b : ℤ) (s : Text) :
    Printf.format (ascii "%d:%d:%s") [.int a, .int b, .str s] =
      .ok (Printf.decimal a ++ 58 :: (Printf.decimal b ++ 58 :: s)) := by
  show Except.ok (Printf.decimal a ++ 58 :: (Printf.decimal b ++ 58 :: (s ++ []))) = _
  rw [List.append_nil]

theorem zero_notMem_deviceName (device : NamedDevice) : 0 ∉ deviceName device := by
  rw [deviceName]
  cases hname : device.name with
  | none => exact List.not_mem_nil
  | some s => exact device.noNul s hname

/-- **What is printed.** -/
theorem inputDeviceGetIdentifier_eq :
    inputDeviceGetIdentifier m device = m.sprintf (identifier device) := by
  obtain ⟨name, hname, htrim⟩ := stripWhitespace_spec (strdup_holds (zero_notMem_deviceName device))
  have hlt : (trim isSpace (deviceName device)).length < name.size := htrim.lt
  obtain ⟨name', hname', hmask⟩ := maskFrom_spec (u := []) htrim hlt
  rw [inputDeviceGetIdentifier, hname, ok_bind]
  show maskFrom name name.size 0 >>= _ = _
  rw [show maskFrom name name.size 0 = .ok name' from hname', ok_bind, hmask.string, ok_bind,
    format_identifier, ok_bind]
  rfl

/-! ### Identifiers -/

theorem plain_decimal {i : ℤ} (h : c ∈ Printf.decimal i) : c ≠ 32 ∧ isPrint c = true := by
  have hdigit : ∀ {n : ℕ}, c ∈ Printf.natural n → c ≠ 32 ∧ isPrint c = true := by
    intro n hmem
    obtain ⟨hlo, hhi⟩ := Printf.isDigit_of_mem_natural hmem
    rw [isPrint, Bool.and_eq_true, decide_eq_true_eq, decide_eq_true_eq]
    grind
  cases i with
  | ofNat n => exact hdigit h
  | negSucc n =>
    obtain rfl | h := List.mem_cons.mp h
    · decide
    · exact hdigit h

theorem plain_mask (c : UInt8) : mask c ≠ 32 ∧ isPrint (mask c) = true := by
  rw [mask]
  by_cases hc : c = 32 ∨ isPrint c = false
  · rw [if_pos hc]
    decide
  · rw [if_neg hc]
    rw [not_or, Bool.not_eq_false] at hc
    exact hc

/-- An identifier has no blanks and no control characters. -/
theorem plain_identifier (h : c ∈ identifier device) : c ≠ 32 ∧ isPrint c = true := by
  simp only [identifier, List.mem_append, List.mem_cons, List.mem_map] at h
  obtain h | rfl | h | rfl | ⟨d, -, rfl⟩ := h
  · exact plain_decimal h
  · decide
  · exact plain_decimal h
  · decide
  · exact plain_mask d

theorem zero_notMem_identifier (device : NamedDevice) : 0 ∉ identifier device := by
  intro h
  exact absurd (plain_identifier h).2 (by decide)

/-- It is read as one word. -/
def identifierWord (device : NamedDevice) : Word where
  text := identifier device
  nonempty := by simp [identifier]
  plain _ hc := (plain_identifier hc).1

/-! ### Commands -/

/-- The value of a setting does not change the identifier. -/
theorem yields_parseInputSetting (L : Libraries) (setting value : Text) (cfg : InputConfig) :
    Yields (parseInputSetting L setting value cfg) fun cfg' =>
      cfg'.identifier = cfg.identifier := by
  unfold parseInputSetting
  repeat' first
    | exact Yields.fail
    | exact Yields.pure rfl
    | refine Yields.bind_any fun _ => ?_
    | refine Yields.ite ?_ ?_
    | split

theorem names_word (w setting : Word) (value : Text) : Names w.text setting value := by
  intro L modes room e
  have hbranch : branchOf (ascii "input") = some .input := rfl
  have hread : (command L modes (room + 1)).result (inputCommand w.text setting value) e =
      ((parseInputSetting L setting.text value
        { emptyInputConfig with identifier := some w.text }).result value e).map
          (fun cfg => (.configureInput, .iCfg cfg)) := by
    rw [inputCommand, command_result (strtok_ascii "input") hbranch, parseBranch, result_map]
    exact congrArg _ (inputLine_result (.other setting value))
  refine ⟨hread, ?_⟩
  rw [hread]
  intro cfg hcfg
  obtain ⟨cfg', hresult, hpair⟩ := Option.map_eq_some_iff.mp hcfg
  obtain rfl : cfg' = cfg := KeybindingParams.iCfg.inj (Prod.ext_iff.mp hpair).2
  have hident : cfg'.identifier = some w.text :=
    (yields_parseInputSetting L setting.text value _).of_result hresult
  refine ⟨hident, fun d hd => ?_⟩
  rw [storedConfig_matches, configMatches, hident, hd]
  simp

/-- A device is addressed if its identifier fits in an `int`. -/
theorem addressed_iff (m : Malloc) (device : NamedDevice) :
    Addressed m device ↔ (identifier device).length + 1 < 2 ^ 31 := by
  constructor
  · rintro ⟨p, ident, hp, hident, -, -⟩
    by_contra hlong
    rw [inputDeviceGetIdentifier_eq] at hp
    rw [string_of_size (Malloc.sprintf_long m (Nat.not_lt.mp hlong) hp)] at hident
    cases hident
  · intro hshort
    obtain ⟨p, hp, hholds⟩ := m.sprintf_short (zero_notMem_identifier device) hshort
    refine ⟨p, identifier device, ?_, hholds.string, fun c => plain_identifier,
      fun setting value => names_word (identifierWord device) setting value⟩
    rw [inputDeviceGetIdentifier_eq, hp]

theorem length_identifier (device : NamedDevice) : (identifier device).length =
    (Printf.decimal (vendor device)).length + (Printf.decimal (product device)).length +
      (trim isSpace (deviceName device)).length + 2 := by
  simp only [identifier, List.length_append, List.length_cons, List.length_map]
  omega

/-- **The identifier of a device.**  Its name is trimmed in place, once and for all.
The device has an identifier without blanks and control characters, with which every
`input` command is one for the device, if and only if an `int` counts the bytes of
the identifier. -/
theorem identifier_iff (m : Malloc) (device : NamedDevice) :
    (∀ str : Block, str.Holds (deviceName device) → ∃ str', stripWhitespace str = .ok str' ∧
      str'.Holds (trim isSpace (deviceName device)) ∧ ∃ str'', stripWhitespace str' = .ok str'' ∧
        str''.Holds (trim isSpace (deviceName device))) ∧
    (Addressed m device ↔
      (Printf.decimal (vendor device)).length + (Printf.decimal (product device)).length +
        (trim isSpace (deviceName device)).length + 3 < 2 ^ 31) := by
  constructor
  · intro str hstr
    obtain ⟨str', hstrip, htrim⟩ := stripWhitespace_spec hstr
    obtain ⟨str'', hstrip', htrim'⟩ := stripWhitespace_spec htrim
    rw [trim_trim] at htrim'
    exact ⟨str', hstrip, htrim, str'', hstrip', htrim'⟩
  · rw [addressed_iff, length_identifier]

/-- A number of a device has at most ten digits. -/
theorem length_toInt32 (n : UInt32) : (Printf.decimal n.toInt32.toInt).length ≤ 11 := by
  refine Printf.length_decimal_le (by omega) ?_
  have hle := Int32.le_toInt n.toInt32
  have hlt := Int32.toInt_lt n.toInt32
  omega

theorem length_vendor (device : NamedDevice) : (Printf.decimal (vendor device)).length ≤ 11 := by
  rw [vendor]
  split
  · exact length_toInt32 _
  · decide

theorem length_product (device : NamedDevice) : (Printf.decimal (product device)).length ≤ 11 := by
  rw [product]
  split
  · exact length_toInt32 _
  · decide

/-- **Every `input` command with the identifier of a device** is one for the device, as
long as an `int` counts the bytes of its name and of what is printed with it. -/
theorem identifier_matches (m : Malloc) (device : NamedDevice)
    (hname : (deviceName device).length + 25 < 2 ^ 31) :
    (∀ str : Block, str.Holds (deviceName device) → ∃ str', stripWhitespace str = .ok str' ∧
      str'.Holds (trim isSpace (deviceName device)) ∧ ∃ str'', stripWhitespace str' = .ok str'' ∧
        str''.Holds (trim isSpace (deviceName device))) ∧
    Addressed m device := by
  obtain ⟨hstrip, hiff⟩ := identifier_iff m device
  refine ⟨hstrip, hiff.mpr ?_⟩
  have hvendor := length_vendor device
  have hproduct := length_product device
  have htrim := length_trim_le isSpace (deviceName device)
  omega

/-- A tablet of the vendor 1386. -/
def tablet : NamedDevice where
  toWlrInputDevice := touchpad
  name := some (ascii " Wacom One Pen\t")
  idVendor := 1386
  idProduct := 886
  noNul s hs h0 := by
    obtain rfl := Option.some.inj hs
    exact absurd h0 (by decide)

theorem identifier_matches_tablet : Addressed .ones tablet :=
  (identifier_matches .ones tablet (by decide)).2

end InputIdentifier

end Cagebreak
