/-
JSON texts.

`parse` reads a text by the grammar of JSON.  The grammar is read over bytes: a
byte from 128 on belongs to the encoding of the text, and is a character of a
string like any other.  A number is kept as it is written.

* `scan_iff` — a string that is written between quotes without being escaped is
  read back exactly when it is `Plain`.
-/
import Cagebreak.Lib.Printf

inductive Json
  | null
  | bool (b : Bool)
  | num (lexeme : Text)
  | str (s : Text)
  | arr (l : List Json)
  | obj (l : List (Text × Json))

namespace Json

open Printf (IsDigit)

/-- `'"'`. -/
def quote : UInt8 := 34

/-- `'\\'`. -/
def backslash : UInt8 := 92

def isWs (c : UInt8) : Bool := decide (c = 32 ∨ c = 9 ∨ c = 10 ∨ c = 13)

def skipWs (t : Text) : Text := t.dropWhile isWs

/-! ### Strings -/

def hexDigit (c : UInt8) : Option ℕ :=
  if 48 ≤ c ∧ c ≤ 57 then some (c.toNat - 48)
  else if 65 ≤ c ∧ c ≤ 70 then some (c.toNat - 55)
  else if 97 ≤ c ∧ c ≤ 102 then some (c.toNat - 87)
  else none

/-- The encoding of a character up to 65535.  Each half of a pair of surrogates
is encoded by itself. -/
def utf8 (n : ℕ) : Text :=
  if n < 128 then [n.toUInt8]
  else if n < 2048 then [(192 + n / 64).toUInt8, (128 + n % 64).toUInt8]
  else [(224 + n / 4096).toUInt8, (128 + n / 64 % 64).toUInt8, (128 + n % 64).toUInt8]

/-- What a character after a backslash stands for. -/
def unescape (c : UInt8) : Option UInt8 :=
  if c = quote ∨ c = backslash ∨ c = 47 then some c
  else if c = 98 then some 8
  else if c = 102 then some 12
  else if c = 110 then some 10
  else if c = 114 then some 13
  else if c = 116 then some 9
  else none

/-- A place within a string: in the text, after a backslash, or before the last
`k` digits of a character whose first ones are `n`. -/
inductive Place
  | text
  | escape
  | hex (k n : ℕ)

/-- Read a string up to its closing quote; the result is the string and the
text after it. -/
def scanFrom (p : Place) : Text → Option (Text × Text)
  | [] => none
  | c :: t =>
    match p with
    | .text =>
      if c = quote then some ([], t)
      else if c = backslash then scanFrom .escape t
      else if c < 32 then none
      else (scanFrom .text t).map fun q => (c :: q.1, q.2)
    | .escape =>
      if c = 117 then scanFrom (.hex 4 0) t
      else (unescape c).bind fun d => (scanFrom .text t).map fun q => (d :: q.1, q.2)
    | .hex k n =>
      (hexDigit c).bind fun d =>
        if k ≤ 1 then (scanFrom .text t).map fun q => (utf8 (16 * n + d) ++ q.1, q.2)
        else scanFrom (.hex (k - 1) (16 * n + d)) t

/-- Read a string, after its opening quote. -/
def scan (t : Text) : Option (Text × Text) := scanFrom .text t

/-! ### Numbers -/

/-- One or more digits. -/
def lexDigits (t : Text) : Option (Text × Text) :=
  let ds := t.takeWhile fun c => decide (IsDigit c)
  if ds = [] then none else some (ds, t.drop ds.length)

/-- The part of a number before the point: only zero begins with a zero. -/
def lexInt (t : Text) : Option (Text × Text) :=
  (lexDigits t).bind fun q => if q.1.head? = some 48 ∧ q.1 ≠ [48] then none else some q

/-- The part of a number from the point on. -/
def lexFrac (t : Text) : Option (Text × Text) :=
  if t.head? = some 46 then (lexDigits t.tail).map fun q => (46 :: q.1, q.2) else some ([], t)

/-- The sign of an exponent. -/
def lexSign (t : Text) : Text × Text :=
  if t.head? = some 43 ∨ t.head? = some 45 then (t.take 1, t.tail) else ([], t)

/-- The exponent of a number. -/
def lexExp (t : Text) : Option (Text × Text) :=
  if t.head? = some 101 ∨ t.head? = some 69 then
    let sign := lexSign t.tail
    (lexDigits sign.2).map fun q => (t.take 1 ++ sign.1 ++ q.1, q.2)
  else some ([], t)

def lexNumber (t : Text) : Option (Text × Text) := do
  let sign := if t.head? = some 45 then [45] else []
  let i ← lexInt (t.drop sign.length)
  let f ← lexFrac i.2
  let e ← lexExp f.2
  some (sign ++ i.1 ++ f.1 ++ e.1, e.2)

/-! ### Values -/

variable {α : Type}

/-- Elements with commas between them, up to the closing bracket. -/
def items (item : Text → Option (α × Text)) (close : UInt8) : ℕ → Text → Option (List α × Text)
  | 0, _ => none
  | k + 1, t =>
    (item t).bind fun q =>
      match skipWs q.2 with
      | [] => none
      | c :: t =>
        if c = 44 then (items item close k t).map fun r => (q.1 :: r.1, r.2)
        else if c = close then some ([q.1], t)
        else none

/-- What stands between brackets. -/
def listOf (item : Text → Option (α × Text)) (close : UInt8) (t : Text) : Option (List α × Text) :=
  if (skipWs t).head? = some close then some ([], (skipWs t).tail)
  else items item close t.length t

/-- A name with its value. -/
def member (value : Text → Option (α × Text)) (t : Text) : Option ((Text × α) × Text) :=
  match skipWs t with
  | [] => none
  | c :: t =>
    if c = quote then
      (scan t).bind fun q =>
        match skipWs q.2 with
        | [] => none
        | c :: t => if c = 58 then (value t).map fun r => ((q.1, r.1), r.2) else none
    else none

/-- The rest of a word. -/
def word (w : Text) (v : Json) (t : Text) : Option (Json × Text) :=
  if t.take w.length = w then some (v, t.drop w.length) else none

/-- Read a value whose brackets are nested less than `n` deep. -/
def value : ℕ → Text → Option (Json × Text)
  | 0 => fun _ => none
  | n + 1 => fun t =>
    match skipWs t with
    | [] => none
    | c :: t =>
      if c = quote then (scan t).map fun q => (.str q.1, q.2)
      else if c = 91 then (listOf (value n) 93 t).map fun q => (.arr q.1, q.2)
      else if c = 123 then (listOf (member (value n)) 125 t).map fun q => (.obj q.1, q.2)
      else if c = 116 then word (ascii "rue") (.bool true) t
      else if c = 102 then word (ascii "alse") (.bool false) t
      else if c = 110 then word (ascii "ull") .null t
      else (lexNumber (c :: t)).map fun q => (.num q.1, q.2)

/-- Read a text that is a single value. -/
def parse (t : Text) : Option Json :=
  (value (t.length + 1) t).bind fun q => if skipWs q.2 = [] then some q.1 else none

/-! ### Strings that are not escaped -/

/-- No character needs to be escaped. -/
def Plain (s : Text) : Prop := ∀ c ∈ s, c ≠ quote ∧ c ≠ backslash ∧ 32 ≤ c

instance : DecidablePred Plain := fun s =>
  inferInstanceAs (Decidable (∀ c ∈ s, c ≠ quote ∧ c ≠ backslash ∧ 32 ≤ c))

/-- Such a text is a string of C. -/
theorem Plain.noNul {s : Text} (h : Plain s) : 0 ∉ s :=
  fun hmem => absurd (h 0 hmem).2.2 (by decide)

variable {s s' t r : Text} {c d : UInt8} {p : Place} {k n : ℕ}

theorem Plain.cons (hc : c ≠ quote ∧ c ≠ backslash ∧ 32 ≤ c) (h : Plain s) : Plain (c :: s) := by
  intro d hd
  obtain rfl | hd := List.mem_cons.mp hd
  · exact hc
  · exact h d hd

theorem length_utf8_le (n : ℕ) : (utf8 n).length ≤ 3 := by
  rw [utf8]
  split_ifs <;> simp

theorem quote_of_unescape (h : unescape quote = some d) : d = quote := by
  simpa [unescape] using h.symm

theorem hexDigit_quote : hexDigit quote = none := by decide

/-- How much longer than its result the text of a string is at least. -/
def Place.excess : Place → ℕ → ℕ → Prop
  | .text, result, raw => result ≤ raw
  | .escape, result, raw => result ≤ raw
  | .hex k _, result, raw => result + k ≤ raw + 3

/-- **The text of a string** is no shorter than the string, with equality only
where nothing is escaped, and all quotes in it are in the string. -/
theorem scanFrom_spec (h : scanFrom p t = some (s, r)) : ∃ raw, t = raw ++ quote :: r ∧
    p.excess s.length raw.length ∧ raw.count quote ≤ s.count quote ∧
    (p = .text → s.length = raw.length → raw = s ∧ Plain s) := by
  induction t generalizing p s with
  | nil => cases h
  | cons c t ih =>
    cases p with
    | text =>
      change (if c = quote then _ else _) = _ at h
      by_cases hq : c = quote
      · rw [if_pos hq] at h
        obtain ⟨rfl, rfl⟩ := Prod.mk.inj (Option.some.inj h)
        refine ⟨[], by rw [hq]; rfl, Nat.le_refl _, Nat.le_refl _, fun _ _ => ⟨rfl, ?_⟩⟩
        exact fun d hd => absurd hd List.not_mem_nil
      rw [if_neg hq] at h
      by_cases hb : c = backslash
      · -- the backslash makes the text longer than the string
        rw [if_pos hb] at h
        obtain ⟨raw, rfl, hlen, hcount, -⟩ := ih h
        change s.length ≤ raw.length at hlen
        refine ⟨c :: raw, rfl, Nat.le_succ_of_le hlen, ?_, fun _ heq => ?_⟩
        · rw [List.count_cons_of_ne hq]
          exact hcount
        · rw [List.length_cons] at heq
          omega
      rw [if_neg hb] at h
      by_cases hc : c < 32
      · rw [if_pos hc] at h
        cases h
      rw [if_neg hc] at h
      obtain ⟨⟨s', r'⟩, hs', heq⟩ := Option.map_eq_some_iff.mp h
      obtain ⟨rfl, rfl⟩ := Prod.mk.inj heq
      obtain ⟨raw, rfl, hlen, hcount, hplain⟩ := ih hs'
      refine ⟨c :: raw, rfl, Nat.succ_le_succ hlen, ?_, fun _ heq => ?_⟩
      · rw [List.count_cons_of_ne hq, List.count_cons_of_ne hq]
        exact hcount
      · obtain ⟨rfl, hs'⟩ := hplain rfl (Nat.succ.inj heq)
        exact ⟨rfl, hs'.cons ⟨hq, hb, UInt8.not_lt.mp hc⟩⟩
    | escape =>
      change (if c = 117 then _ else _) = _ at h
      by_cases hu : c = 117
      · rw [if_pos hu] at h
        obtain ⟨raw, rfl, hlen, hcount, -⟩ := ih h
        change s.length + 4 ≤ raw.length + 3 at hlen
        refine ⟨c :: raw, rfl, ?_, ?_, fun hp => by cases hp⟩
        · show s.length ≤ raw.length + 1
          omega
        · rw [List.count_cons_of_ne (by rw [hu]; decide)]
          exact hcount
      rw [if_neg hu] at h
      obtain ⟨d, hd, h⟩ := Option.bind_eq_some_iff.mp h
      obtain ⟨⟨s', r'⟩, hs', heq⟩ := Option.map_eq_some_iff.mp h
      obtain ⟨rfl, rfl⟩ := Prod.mk.inj heq
      obtain ⟨raw, rfl, hlen, hcount, -⟩ := ih hs'
      refine ⟨c :: raw, rfl, Nat.succ_le_succ hlen, ?_, fun hp => by cases hp⟩
      -- an escaped quote is a quote of the string
      by_cases hq : c = quote
      · subst hq
        rw [quote_of_unescape hd, List.count_cons_self, List.count_cons_self]
        exact Nat.succ_le_succ hcount
      · rw [List.count_cons_of_ne hq]
        exact hcount.trans (List.count_le_count_cons)
    | hex k n =>
      change ((hexDigit c).bind fun d => if k ≤ 1 then _ else _) = _ at h
      obtain ⟨d, hd, h⟩ := Option.bind_eq_some_iff.mp h
      have hq : c ≠ quote := by
        rintro rfl
        rw [hexDigit_quote] at hd
        cases hd
      by_cases hk : k ≤ 1
      · rw [if_pos hk] at h
        obtain ⟨⟨s', r'⟩, hs', heq⟩ := Option.map_eq_some_iff.mp h
        obtain ⟨rfl, rfl⟩ := Prod.mk.inj heq
        obtain ⟨raw, rfl, hlen, hcount, -⟩ := ih hs'
        change s'.length ≤ raw.length at hlen
        -- four digits stand for at most three bytes
        have hutf := length_utf8_le (16 * n + d)
        refine ⟨c :: raw, rfl, ?_, ?_, fun hp => by cases hp⟩
        · show (utf8 _ ++ s').length + k ≤ raw.length + 1 + 3
          rw [List.length_append]
          omega
        · rw [List.count_cons_of_ne hq, List.count_append]
          exact hcount.trans (Nat.le_add_left _ _)
      · rw [if_neg hk] at h
        obtain ⟨raw, rfl, hlen, hcount, -⟩ := ih h
        change s.length + (k - 1) ≤ raw.length + 3 at hlen
        refine ⟨c :: raw, rfl, ?_, ?_, fun hp => by cases hp⟩
        · show s.length + k ≤ raw.length + 1 + 3
          omega
        · rw [List.count_cons_of_ne hq]
          exact hcount

theorem scan_plain (h : Plain s) : scan (s ++ quote :: t) = some (s, t) := by
  rw [scan]
  induction s with
  | nil => rfl
  | cons c s ih =>
    obtain ⟨hq, hb, hc⟩ := h c List.mem_cons_self
    rw [List.cons_append]
    change (if c = quote then _ else if c = backslash then _ else if c < 32 then _ else _) = _
    rw [if_neg hq, if_neg hb, if_neg (UInt8.not_lt.mpr hc),
      ih fun d hd => h d (List.mem_cons_of_mem _ hd)]
    rfl

/-- **A string between quotes is read back exactly when it is plain**, also if
it is a shorter text with as many quotes that stands there. -/
theorem scan_iff (hlen : s'.length ≤ s.length) (hcount : s'.count quote = s.count quote) :
    scan (s' ++ quote :: t) = some (s, r) ↔ s' = s ∧ Plain s ∧ r = t := by
  constructor
  · intro h
    obtain ⟨raw, heq, hexcess, hquotes, hplain⟩ := scanFrom_spec h
    change s.length ≤ raw.length at hexcess
    obtain ⟨a, rfl, hr⟩ | ⟨a, rfl, hr⟩ := List.append_eq_append_iff.mp heq
    · cases a with
      | nil =>
        rw [List.append_nil] at hplain hexcess
        obtain ⟨rfl, hs⟩ := hplain rfl (by omega)
        exact ⟨rfl, hs, (List.cons.inj hr).2.symm⟩
      | cons d a =>
        -- the closing quote would be one of the string
        obtain ⟨rfl, -⟩ := List.cons.inj hr
        rw [List.count_append, List.count_cons_self] at hquotes
        omega
    · cases a with
      | nil =>
        rw [List.append_nil] at hlen hcount ⊢
        obtain ⟨rfl, hs⟩ := hplain rfl (by omega)
        exact ⟨rfl, hs, (List.cons.inj hr).2⟩
      | cons d a =>
        rw [List.length_append, List.length_cons] at hlen
        omega
  · rintro ⟨rfl, hs, rfl⟩
    exact scan_plain hs

end Json
