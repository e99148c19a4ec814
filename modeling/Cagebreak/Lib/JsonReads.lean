/-
Reading back what has been printed.

A `Channel` is the way a text takes to its reader; it may change what contains
`%`, and nothing else.  `Reads E p t a ok` says that the reader `p`, on what
arrives of `t` and of any text that may follow it, gets `a` exactly when `ok`
holds.  The rules follow the grammar; `parse_iff` is their conclusion for a whole
text.
-/
import Cagebreak.Lib.Json
import Mathlib.Data.List.DropRight

namespace Json

open Printf Exec

/-- `E t y`: when `t` is sent, `y` may arrive.  A string that ends with a quote
arrives unchanged if it is `Safe`. -/
structure Channel (E : Text → Text → Prop) (Safe : Text → Prop) : Prop where
  safe : ∀ {s}, percent ∉ s → Safe s
  nil : ∀ {y}, E [] y → y = []
  cons : ∀ {c t y}, c ≠ percent → E (c :: t) y → ∃ y', y = c :: y' ∧ E t y'
  quoted : ∀ {s t y}, E (s ++ quote :: t) y → ∃ s' y', y = s' ++ quote :: y' ∧ E t y' ∧
    s'.length ≤ s.length ∧ s'.count quote = s.count quote ∧ (s' = s ↔ Safe s)

variable {E : Text → Text → Prop} {Safe : Text → Prop} {α X : Type}
  {item p : Text → Option (α × Text)}
  {s t u w y rest : Text} {a : α} {as : List α} {ok ok' : Prop} {c close : UInt8} {n : ℕ}

/-- Nothing changes. -/
theorem channel_eq : Channel Eq fun _ => True := by
  refine ⟨fun _ => trivial, fun h => h.symm, fun _ h => ⟨_, h.symm, rfl⟩, fun {s t y} h => ?_⟩
  exact ⟨s, t, h.symm, rfl, Nat.le_refl _, rfl, iff_of_true rfl trivial⟩

/-- The text is the format of a second call, which has no arguments. -/
theorem channel_format : Channel (fun t y => format t [] = .ok y) fun s => percent ∉ s := by
  refine ⟨id, fun h => (Except.ok.inj h).symm, fun hc h => (format_cons_eq_ok hc).mp h, ?_⟩
  intro s t
  induction h : s.length using Nat.strong_induction_on generalizing s with
  | _ n ih =>
    subst h
    intro y hy
    cases s with
    | nil =>
      obtain ⟨y', rfl, hy'⟩ := (format_cons_eq_ok (by decide)).mp hy
      exact ⟨[], y', rfl, hy', Nat.le_refl _, rfl, by simp⟩
    | cons c s =>
      rw [List.cons_append] at hy
      by_cases hc : c = percent
      · subst hc
        obtain ⟨t', r, ht', hr, rfl⟩ := format_percent_nil hy
        cases s with
        | nil => cases (List.cons.inj ht').1
        | cons d s =>
          obtain ⟨rfl, rfl⟩ := List.cons.inj ht'
          obtain ⟨s', y', rfl, hy', hlen, hcount, -⟩ := ih s.length (by simp) rfl hr
          refine ⟨percent :: s', y', rfl, hy', ?_, ?_, ?_⟩
          · simp only [List.length_cons]
            omega
          · rw [List.count_cons_of_ne (by decide), List.count_cons_of_ne (by decide),
              List.count_cons_of_ne (by decide), hcount]
          · refine iff_of_false (fun he => ?_) fun hmem => hmem List.mem_cons_self
            have hlen' := congrArg List.length he
            simp only [List.length_cons] at hlen'
            omega
      · obtain ⟨r, rfl, hr⟩ := (format_cons_eq_ok hc).mp hy
        obtain ⟨s', y', rfl, hy', hlen, hcount, hsafe⟩ := ih s.length (by simp) rfl hr
        refine ⟨c :: s', y', rfl, hy', Nat.succ_le_succ hlen, ?_, ?_⟩
        · rw [List.count_cons, List.count_cons, hcount]
        · rw [List.cons_eq_cons, hsafe, List.mem_cons, not_or]
          exact and_congr_left fun _ => iff_of_true rfl fun he => hc he.symm

/-- A literal arrives as it is. -/
theorem Channel.append (h : Channel E Safe) (hw : percent ∉ w) (hE : E (w ++ t) y) :
    ∃ y', y = w ++ y' ∧ E t y' := by
  induction w generalizing y with
  | nil => exact ⟨y, rfl, hE⟩
  | cons c w ih =>
    obtain ⟨hc, hw⟩ := List.ne_and_not_mem_of_not_mem_cons hw
    obtain ⟨y₁, rfl, hy₁⟩ := h.cons hc.symm hE
    obtain ⟨y', rfl, hy'⟩ := ih hw hy₁
    exact ⟨y', rfl, hy'⟩

/-! ### What follows a value -/

/-- A comma, a closing bracket or a newline comes next, or the end. -/
def Follows (rest : Text) : Prop :=
  ∀ c, rest.head? = some c → c = 44 ∨ c = 93 ∨ c = 125 ∨ c = 10

theorem follows_nil : Follows [] := by
  rintro c ⟨⟩

theorem follows_cons (hc : c = 44 ∨ c = 93 ∨ c = 125 ∨ c = 10) : Follows (c :: t) := by
  rintro d hd
  rw [← Option.some.inj hd]
  exact hc

theorem Follows.arrives (hf : Follows rest) (h : Channel E Safe) (hE : E rest y) : Follows y := by
  cases rest with
  | nil =>
    rw [h.nil hE]
    exact follows_nil
  | cons c rest =>
    have hc := hf c rfl
    have hne : c ≠ percent := by
      obtain rfl | rfl | rfl | rfl := hc <;> decide
    obtain ⟨y', rfl, -⟩ := h.cons hne hE
    exact follows_cons hc

/-- Newlines before what follows a value follow it as well. -/
theorem Follows.newlines (hf : Follows rest) (hw : ∀ c ∈ w, c = 10) : Follows (w ++ rest) := by
  cases w with
  | nil => exact hf
  | cons c w => exact follows_cons (Or.inr (Or.inr (Or.inr (hw c List.mem_cons_self))))

theorem percent_notMem_newlines (hw : ∀ c ∈ w, c = 10) : percent ∉ w := by
  intro hmem
  cases hw percent hmem

theorem skipWs_append (hw : ∀ c ∈ w, isWs c = true) : skipWs (w ++ t) = skipWs t := by
  induction w with
  | nil => rfl
  | cons c w ih =>
    rw [List.cons_append, skipWs, List.dropWhile_cons, if_pos (hw c List.mem_cons_self)]
    exact ih fun d hd => hw d (List.mem_cons_of_mem _ hd)

theorem skipWs_newlines (hw : ∀ c ∈ w, c = 10) : skipWs (w ++ t) = skipWs t := by
  refine skipWs_append fun c hc => ?_
  rw [hw c hc]
  decide

theorem skipWs_cons (hc : isWs c = false) : skipWs (c :: t) = c :: t := by
  rw [skipWs, List.dropWhile_cons, hc]
  exact if_neg Bool.false_ne_true

theorem skipWs_skipWs (t : Text) : skipWs (skipWs t) = skipWs t := by
  rw [skipWs, skipWs, List.dropWhile_idempotent]

/-! ### Readers -/

/-- On what arrives of `t`, `p` reads `a` exactly when `ok` holds. -/
def Reads (E : Text → Text → Prop) (p : Text → Option (α × Text)) (t : Text) (a : α) (ok : Prop) :
    Prop :=
  ∀ rest y, Follows rest → E (t ++ rest) y →
    (ok → ∃ y', E rest y' ∧ p y = some (a, y') ∧ y'.length ≤ y.length) ∧
    ∀ r, p y = some (a, r) → ok

theorem Reads.congr (h : Reads E p t a ok) (hok : ok ↔ ok') : Reads E p t a ok' := by
  intro rest y hf hE
  obtain ⟨hyes, hno⟩ := h rest y hf hE
  exact ⟨fun hp => hyes (hok.mpr hp), fun r hr => hok.mp (hno r hr)⟩

/-- The reader begins by skipping white space. -/
def Skips (p : Text → Option (α × Text)) : Prop := ∀ y, p (skipWs y) = p y

theorem value_skips : Skips (value n) := by
  intro y
  cases n with
  | zero => rfl
  | succ n =>
    rw [value]
    dsimp only
    rw [skipWs_skipWs]

theorem member_skips : Skips (member p) := by
  intro y
  rw [member, member, skipWs_skipWs]

theorem Reads.ws (h : Channel E Safe) (hp : Skips p) (hr : Reads E p t a ok)
    (hw : ∀ c ∈ w, isWs c = true) : Reads E p (w ++ t) a ok := by
  intro rest y hf hE
  rw [List.append_assoc] at hE
  have hnone : percent ∉ w := by
    intro hmem
    cases hw percent hmem
  obtain ⟨y₁, rfl, hy₁⟩ := h.append hnone hE
  have hpw : p (w ++ y₁) = p y₁ := by
    rw [← hp, skipWs_append hw, hp]
  rw [hpw]
  obtain ⟨hyes, hno⟩ := hr rest y₁ hf hy₁
  refine ⟨fun hok => ?_, hno⟩
  obtain ⟨y', hy', heq, hlen⟩ := hyes hok
  refine ⟨y', hy', heq, ?_⟩
  rw [List.length_append]
  omega

/-! ### Strings and numbers -/

theorem value_quote : value (n + 1) (quote :: t) = (scan t).map fun q => (.str q.1, q.2) := rfl

/-- A string that is printed as it is. -/
theorem Reads.str (h : Channel E Safe) (n : ℕ) (s : Text) :
    Reads E (value (n + 1)) (quote :: (s ++ [quote])) (.str s) (Plain s ∧ Safe s) := by
  intro rest y _ hE
  rw [List.cons_append, List.append_assoc] at hE
  obtain ⟨y₁, rfl, hy₁⟩ := h.cons (by decide) hE
  obtain ⟨s', y', rfl, hy', hlen, hcount, hsafe⟩ := h.quoted hy₁
  rw [value_quote]
  constructor
  · rintro ⟨hplain, hs⟩
    obtain rfl := hsafe.mpr hs
    refine ⟨y', hy', ?_, ?_⟩
    · rw [scan_plain hplain]
      rfl
    · simp only [List.length_cons, List.length_append]
      omega
  · intro r hr
    obtain ⟨⟨s₁, r₁⟩, hscan, heq⟩ := Option.map_eq_some_iff.mp hr
    obtain ⟨hs₁, rfl⟩ := Prod.mk.inj heq
    obtain rfl := Json.str.inj hs₁
    obtain ⟨hs', hplain, -⟩ := (scan_iff hlen hcount).mp hscan
    exact ⟨hplain, hsafe.mp hs'⟩

theorem Follows.head_digit (hf : Follows y) (hhead : y.head? = some c) :
    ¬ IsDigit c ∧ c ≠ 46 ∧ c ≠ 101 ∧ c ≠ 69 := by
  obtain rfl | rfl | rfl | rfl := hf c hhead <;> decide

theorem takeWhile_digits {ds : Text} (hds : ∀ c ∈ ds, IsDigit c)
    (hy : ∀ c, y.head? = some c → ¬ IsDigit c) :
    (ds ++ y).takeWhile (fun c => decide (IsDigit c)) = ds := by
  rw [List.takeWhile_append_of_pos fun c hc => decide_eq_true (hds c hc)]
  cases y with
  | nil => rw [List.takeWhile_nil, List.append_nil]
  | cons c y =>
    rw [List.takeWhile_cons, if_neg, List.append_nil]
    rw [decide_eq_true_eq]
    exact hy c rfl

theorem lexDigits_append {ds : Text} (hds : ∀ c ∈ ds, IsDigit c) (hne : ds ≠ [])
    (hy : ∀ c, y.head? = some c → ¬ IsDigit c) : lexDigits (ds ++ y) = some (ds, y) := by
  show (if (ds ++ y).takeWhile _ = [] then none else _) = _
  rw [takeWhile_digits hds hy, if_neg hne, List.drop_left]

theorem lexInt_natural (k : ℕ) (hy : ∀ c, y.head? = some c → ¬ IsDigit c) :
    lexInt (natural k ++ y) = some (natural k, y) := by
  rw [lexInt, lexDigits_append (fun c hc => isDigit_of_mem_natural hc) (natural_ne_nil k) hy]
  show (if (natural k).head? = some 48 ∧ natural k ≠ [48] then none else _) = _
  rw [if_neg]
  rintro ⟨hhead, hne⟩
  exact hne (head_natural hhead)

/-- A number, with or without decimals, followed by what follows a value. -/
theorem lexNumber_of {sign frac : Text} {k : ℕ} (hsign : sign = [] ∨ sign = [45])
    (hfrac : frac = [] ∨ ∃ ds, frac = 46 :: ds ∧ ds ≠ [] ∧ ∀ c ∈ ds, IsDigit c)
    (hf : Follows y) :
    lexNumber (sign ++ natural k ++ frac ++ y) = some (sign ++ natural k ++ frac, y) := by
  obtain ⟨c, l, hcl⟩ := List.exists_cons_of_ne_nil (natural_ne_nil k)
  have hc : IsDigit c := isDigit_of_mem_natural (by rw [hcl]; exact List.mem_cons_self)
  have htail : ∀ d, (frac ++ y).head? = some d → ¬ IsDigit d := by
    intro d hd
    obtain rfl | ⟨ds, rfl, -⟩ := hfrac
    · exact (hf.head_digit hd).1
    · rw [← Option.some.inj hd]
      decide
  have hdrop : (if (sign ++ natural k ++ frac ++ y).head? = some 45 then [45] else []) = sign := by
    obtain rfl | rfl := hsign
    · rw [List.nil_append, hcl]
      show (if some c = some 45 then _ else _) = _
      rw [if_neg]
      rintro heq
      obtain rfl := Option.some.inj heq
      exact absurd hc (by decide)
    · rfl
  have hfracLex : lexFrac (frac ++ y) = some (frac, y) := by
    obtain rfl | ⟨ds, rfl, hne, hds⟩ := hfrac
    · rw [List.nil_append, lexFrac, if_neg]
      intro hhead
      exact (hf.head_digit hhead).2.1 rfl
    · rw [lexFrac, List.cons_append]
      show (if some (46 : UInt8) = some 46 then _ else _) = _
      rw [if_pos rfl]
      show (lexDigits (ds ++ y)).map _ = _
      rw [lexDigits_append hds hne fun d hd => (hf.head_digit hd).1]
      rfl
  have hexp : lexExp y = some ([], y) := by
    rw [lexExp, if_neg]
    rintro (hhead | hhead)
    · exact (hf.head_digit hhead).2.2.1 rfl
    · exact (hf.head_digit hhead).2.2.2 rfl
  rw [lexNumber, hdrop, List.append_assoc, List.append_assoc, List.drop_left, ← List.append_assoc,
    List.append_assoc, lexInt_natural k htail]
  show (lexFrac (frac ++ y) >>= _) = _
  rw [hfracLex]
  show (lexExp y >>= _) = _
  rw [hexp]
  show some (sign ++ natural k ++ frac ++ [], y) = _
  rw [List.append_nil]

/-- What a value that begins so is: a number. -/
theorem value_number (hc : IsDigit c ∨ c = 45) :
    value (n + 1) (c :: t) = (lexNumber (c :: t)).map fun q => (.num q.1, q.2) := by
  have hne : ∀ d : UInt8, ¬ IsDigit d → d ≠ 45 → c ≠ d := by
    rintro d hd hd' rfl
    obtain hc | hc := hc
    · exact hd hc
    · exact hd' hc
  have hws : isWs c = false := by
    rw [isWs, decide_eq_false_iff_not]
    rintro (h | h | h | h)
    · exact hne 32 (by decide) (by decide) h
    · exact hne 9 (by decide) (by decide) h
    · exact hne 10 (by decide) (by decide) h
    · exact hne 13 (by decide) (by decide) h
  rw [value]
  dsimp only
  rw [skipWs_cons hws]
  show (if c = quote then _ else if c = 91 then _ else if c = 123 then _ else if c = 116 then _
    else if c = 102 then _ else if c = 110 then _ else _) = _
  rw [if_neg (hne _ (by decide) (by decide)), if_neg (hne _ (by decide) (by decide)),
    if_neg (hne _ (by decide) (by decide)), if_neg (hne _ (by decide) (by decide)),
    if_neg (hne _ (by decide) (by decide)), if_neg (hne _ (by decide) (by decide))]

theorem Reads.number (h : Channel E Safe) (sign frac : Text) (k : ℕ)
    (hsign : sign = [] ∨ sign = [45])
    (hfrac : frac = [] ∨ ∃ ds, frac = 46 :: ds ∧ ds ≠ [] ∧ ∀ c ∈ ds, IsDigit c)
    (hnone : percent ∉ sign ++ natural k ++ frac) :
    Reads E (value (n + 1)) (sign ++ natural k ++ frac)
      (.num (sign ++ natural k ++ frac)) True := by
  intro rest y hf hE
  obtain ⟨y', rfl, hy'⟩ := h.append hnone hE
  refine ⟨fun _ => ⟨y', hy', ?_, ?_⟩, fun _ _ => trivial⟩
  · have hlex := lexNumber_of (k := k) hsign hfrac (hf.arrives h hy')
    obtain ⟨c, l, hcl⟩ := List.exists_cons_of_ne_nil (natural_ne_nil k)
    have hc : IsDigit c := isDigit_of_mem_natural (by rw [hcl]; exact List.mem_cons_self)
    have hhead : ∃ d u, sign ++ natural k ++ frac ++ y' = d :: u ∧ (IsDigit d ∨ d = 45) := by
      obtain rfl | rfl := hsign
      · rw [hcl]
        exact ⟨c, _, rfl, Or.inl hc⟩
      · exact ⟨45, _, rfl, Or.inr rfl⟩
    obtain ⟨d, u, hdu, hd⟩ := hhead
    rw [hdu] at hlex ⊢
    rw [value_number hd, hlex]
    rfl
  · rw [List.length_append]
    omega

theorem Reads.int (h : Channel E Safe) (n : ℕ) (i : ℤ) :
    Reads E (value (n + 1)) (decimal i) (.num (decimal i)) True := by
  have hnone := percent_notMem_decimal i
  cases i with
  | ofNat k =>
    have hr := Reads.number (n := n) h [] [] k (Or.inl rfl) (Or.inl rfl)
    rw [List.nil_append, List.append_nil] at hr
    exact hr hnone
  | negSucc k =>
    have hr := Reads.number (n := n) h [45] [] (k + 1) (Or.inr rfl) (Or.inl rfl)
    rw [List.append_nil] at hr
    exact hr hnone

/-- `%f` prints a number if the value is one. -/
def Finite : CFloat → Prop
  | .fin _ => True
  | _ => False

theorem value_inf : value (n + 1) (ascii "inf" ++ t) = none := rfl

theorem value_neg_inf : value (n + 1) (ascii "-inf" ++ t) = none := rfl

theorem value_nan : value (n + 1) (ascii "nan" ++ t) = none := rfl

/-- What no value begins with is not read. -/
theorem Reads.never (h : Channel E Safe) (ht : percent ∉ t) (hp : ∀ y, p (t ++ y) = none)
    (hok : ¬ ok) : Reads E p t a ok := by
  intro rest y _ hE
  obtain ⟨y', rfl, -⟩ := h.append ht hE
  refine ⟨fun hyes => absurd hyes hok, fun r hr => ?_⟩
  rw [hp y'] at hr
  cases hr

theorem Reads.double (h : Channel E Safe) (n : ℕ) (x : CFloat) :
    Reads E (value (n + 1)) (fixed x) (.num (fixed x)) (Finite x) := by
  have hnone := percent_notMem_fixed x
  cases x with
  | fin q =>
    have hr := Reads.number (n := n) h (if q < 0 then [45] else [])
      (46 :: digits 6 (roundEven (|q| * 10 ^ 6))) (roundEven (|q| * 10 ^ 6) / 10 ^ 6)
    refine (hr ?_ ?_ hnone).congr (iff_of_true trivial trivial)
    · by_cases hq : q < 0
      · exact Or.inr (if_pos hq)
      · exact Or.inl (if_neg hq)
    · refine Or.inr ⟨_, rfl, ?_, fun c hc => isDigit_of_mem_digits hc⟩
      rw [digits]
      exact List.append_ne_nil_of_right_ne_nil _ (List.cons_ne_nil _ _)
  | inf neg =>
    cases neg with
    | true => exact Reads.never h hnone (fun _ => value_neg_inf) id
    | false => exact Reads.never h hnone (fun _ => value_inf) id
  | nan => exact Reads.never h hnone (fun _ => value_nan) id

/-! ### Members -/

/-- A name and the text of its value. -/
def named (k t : Text) : Text := quote :: (k ++ quote :: 58 :: t)

theorem named_append (k : Text) : named k t ++ u = named k (t ++ u) := by
  simp only [named, List.cons_append, List.append_assoc]

theorem member_quote {y' : Text} {k : Text} (hscan : scan y = some (k, 58 :: y')) :
    member p (quote :: y) = (p y').map fun r => ((k, r.1), r.2) := by
  show ((scan y).bind _) = _
  rw [hscan]
  rfl

/-- A name, which is printed as it is, with its value. -/
theorem Reads.member (h : Channel E Safe) (k : Text) (hr : Reads E p t a ok) :
    Reads E (member p) (named k t) (k, a) ((Plain k ∧ Safe k) ∧ ok) := by
  intro rest y hf hE
  rw [named, List.cons_append, List.append_assoc] at hE
  obtain ⟨y₁, rfl, hy₁⟩ := h.cons (by decide) hE
  obtain ⟨k', y₂, rfl, hy₂, hlen, hcount, hsafe⟩ := h.quoted hy₁
  obtain ⟨y₃, rfl, hy₃⟩ := h.cons (by decide) hy₂
  obtain ⟨hyes, hno⟩ := hr rest y₃ hf hy₃
  constructor
  · rintro ⟨⟨hplain, hs⟩, hok⟩
    obtain rfl := hsafe.mpr hs
    obtain ⟨y', hy', heq, hle⟩ := hyes hok
    refine ⟨y', hy', ?_, ?_⟩
    · rw [member_quote (scan_plain hplain), heq]
      rfl
    · simp only [List.length_cons, List.length_append]
      omega
  · intro r hmember
    change (scan _).bind _ = _ at hmember
    obtain ⟨⟨k₁, r₁⟩, hscan, hrest⟩ := Option.bind_eq_some_iff.mp hmember
    cases hskip : skipWs r₁ with
    | nil =>
      rw [hskip] at hrest
      cases hrest
    | cons d r₂ =>
      rw [hskip] at hrest
      change (if d = 58 then (p r₂).map _ else none) = _ at hrest
      by_cases hd : d = 58
      · rw [if_pos hd] at hrest
        obtain ⟨⟨a', r₃⟩, ha', heq⟩ := Option.map_eq_some_iff.mp hrest
        obtain ⟨hpair, rfl⟩ := Prod.mk.inj heq
        obtain ⟨rfl, rfl⟩ := Prod.mk.inj hpair
        obtain ⟨hk, hplain, rfl⟩ := (scan_iff hlen hcount).mp hscan
        have h58 : skipWs (58 :: y₃) = 58 :: y₃ := skipWs_cons (by decide)
        rw [h58] at hskip
        obtain ⟨-, rfl⟩ := List.cons.inj hskip
        exact ⟨⟨hplain, hsafe.mp hk⟩, hno _ ha'⟩
      · rw [if_neg hd] at hrest
        cases hrest

/-- The same for a name that is known. -/
theorem Reads.key (h : Channel E Safe) {k : Text} (hk : Plain k ∧ percent ∉ k)
    (hr : Reads E p t a ok) : Reads E (Json.member p) (named k t) (k, a) ok :=
  (Reads.member h k hr).congr (and_iff_right ⟨hk.1, h.safe hk.2⟩)

/-! ### Lists -/

/-- The same for elements up to the bracket `close`, which newlines may precede,
with enough rounds. -/
def ReadsItems (E : Text → Text → Prop) (item : Text → Option (α × Text)) (close : UInt8) (t : Text)
    (as : List α) (ok : Prop) : Prop :=
  ∀ w rest y, (∀ c ∈ w, c = 10) → E (t ++ (w ++ close :: rest)) y → ∀ k, y.length ≤ k →
    (ok → ∃ y', E rest y' ∧ items item close k y = some (as, y') ∧ y'.length ≤ y.length) ∧
    ∀ r, items item close k y = some (as, r) → ok

theorem ReadsItems.congr (h : ReadsItems E item close t as ok) (hok : ok ↔ ok') :
    ReadsItems E item close t as ok' := by
  intro w rest y hw hE k hk
  obtain ⟨hyes, hno⟩ := h w rest y hw hE k hk
  exact ⟨fun hp => hyes (hok.mpr hp), fun r hr => hok.mp (hno r hr)⟩

/-- Newlines after the elements. -/
theorem ReadsItems.newlines (h : ReadsItems E item close t as ok) (hw : ∀ c ∈ w, c = 10) :
    ReadsItems E item close (t ++ w) as ok := by
  intro w' rest y hw' hE k hk
  rw [List.append_assoc, ← List.append_assoc w] at hE
  refine h (w ++ w') rest y (fun c hc => ?_) hE k hk
  obtain hc | hc := List.mem_append.mp hc
  · exact hw c hc
  · exact hw' c hc

/-- A round of `items` that meets a comma. -/
theorem items_comma {k : ℕ} (hitem : item y = some (a, u)) (hskip : skipWs u = 44 :: t) :
    items item close (k + 1) y = (items item close k t).map fun r => (a :: r.1, r.2) := by
  rw [items, hitem, Option.bind_some, hskip]
  rfl

/-- A round of `items` that meets the closing bracket. -/
theorem items_close {k : ℕ} (hclose : close = 93 ∨ close = 125) (hitem : item y = some (a, u))
    (hskip : skipWs u = close :: t) : items item close (k + 1) y = some ([a], t) := by
  have hne : close ≠ 44 := by
    obtain rfl | rfl := hclose <;> decide
  rw [items, hitem, Option.bind_some, hskip]
  show (if close = 44 then _ else if close = close then _ else _) = _
  rw [if_neg hne, if_pos rfl]

theorem items_head {k : ℕ} {r : Text} (h : items item close k y = some (a :: as, r)) :
    ∃ u, item y = some (a, u) := by
  cases k with
  | zero => cases h
  | succ k =>
    rw [items] at h
    obtain ⟨⟨a', u⟩, hitem, h⟩ := Option.bind_eq_some_iff.mp h
    refine ⟨u, ?_⟩
    rw [hitem]
    cases hskip : skipWs u with
    | nil =>
      rw [hskip] at h
      cases h
    | cons c t =>
      rw [hskip] at h
      change (if c = 44 then (items item close k t).map _ else if c = close then _ else none) = _
        at h
      by_cases hc : c = 44
      · rw [if_pos hc] at h
        obtain ⟨q, -, heq⟩ := Option.map_eq_some_iff.mp h
        obtain ⟨rfl, -⟩ := List.cons.inj (Prod.mk.inj heq).1
        rfl
      · rw [if_neg hc] at h
        by_cases hcl : c = close
        · rw [if_pos hcl] at h
          obtain ⟨rfl, -⟩ := List.cons.inj (Prod.mk.inj (Option.some.inj h)).1
          rfl
        · rw [if_neg hcl] at h
          cases h

theorem percent_ne_close (hclose : close = 93 ∨ close = 125) : close ≠ percent := by
  obtain rfl | rfl := hclose <;> decide

theorem isWs_close (hclose : close = 93 ∨ close = 125) : isWs close = false := by
  obtain rfl | rfl := hclose <;> decide

theorem follows_close (hclose : close = 93 ∨ close = 125) : Follows (close :: t) :=
  follows_cons (hclose.elim (fun h => Or.inr (Or.inl h)) fun h => Or.inr (Or.inr (Or.inl h)))

/-- The last element. -/
theorem ReadsItems.last (h : Channel E Safe) (hclose : close = 93 ∨ close = 125)
    (hr : Reads E item t a ok) : ReadsItems E item close t [a] ok := by
  intro w rest y hw hE k hk
  obtain ⟨hyes, hno⟩ := hr _ y ((follows_close hclose).newlines hw) hE
  refine ⟨fun hok => ?_, fun r hr => ?_⟩
  · obtain ⟨y₁, hy₁, hitem, hle⟩ := hyes hok
    obtain ⟨y₂, rfl, hy₂⟩ := h.append (percent_notMem_newlines hw) hy₁
    obtain ⟨y', rfl, hy'⟩ := h.cons (percent_ne_close hclose) hy₂
    rw [List.length_append, List.length_cons] at hle
    obtain ⟨k, rfl⟩ : ∃ k', k = k' + 1 := ⟨k - 1, by omega⟩
    refine ⟨y', hy', items_close hclose hitem ?_, by omega⟩
    rw [skipWs_newlines hw, skipWs_cons (isWs_close hclose)]
  · obtain ⟨u, hu⟩ := items_head hr
    exact hno u hu

/-- An element before others. -/
theorem ReadsItems.cons (h : Channel E Safe) (hr : Reads E item t a ok) (hw : ∀ c ∈ w, c = 10)
    (hs : ReadsItems E item close u as ok') :
    ReadsItems E item close (t ++ (w ++ 44 :: u)) (a :: as) (ok ∧ ok') := by
  intro v rest y hv hE k hk
  rw [List.append_assoc, List.append_assoc, List.cons_append] at hE
  have hfollows : Follows (w ++ 44 :: (u ++ (v ++ close :: rest))) :=
    (follows_cons (Or.inl rfl)).newlines hw
  obtain ⟨hyes, hno⟩ := hr _ y hfollows hE
  have hnext : ok → ∃ y₂, E (u ++ (v ++ close :: rest)) y₂ ∧ y₂.length + 1 ≤ y.length ∧ ∀ k,
      items item close (k + 1) y = (items item close k y₂).map fun r => (a :: r.1, r.2) := by
    intro hok
    obtain ⟨y₁, hy₁, hitem, hle⟩ := hyes hok
    obtain ⟨y₃, rfl, hy₃⟩ := h.append (percent_notMem_newlines hw) hy₁
    obtain ⟨y₂, rfl, hy₂⟩ := h.cons (by decide) hy₃
    rw [List.length_append, List.length_cons] at hle
    refine ⟨y₂, hy₂, by omega, fun k => items_comma hitem ?_⟩
    rw [skipWs_newlines hw, skipWs_cons (by decide)]
  constructor
  · rintro ⟨hok, hok'⟩
    obtain ⟨y₂, hy₂, hlen, hround⟩ := hnext hok
    obtain ⟨k, rfl⟩ : ∃ k', k = k' + 1 := ⟨k - 1, by omega⟩
    obtain ⟨y', hy', hitems, hle⟩ := (hs v rest y₂ hv hy₂ k (by omega)).1 hok'
    refine ⟨y', hy', ?_, by omega⟩
    rw [hround, hitems]
    rfl
  · intro r hr
    obtain ⟨r₁, hr₁⟩ := items_head hr
    have hok := hno r₁ hr₁
    obtain ⟨y₂, hy₂, hlen, hround⟩ := hnext hok
    obtain ⟨k, rfl⟩ : ∃ k', k = k' + 1 := ⟨k - 1, by omega⟩
    rw [hround] at hr
    obtain ⟨⟨as', r'⟩, hitems, heq⟩ := Option.map_eq_some_iff.mp hr
    obtain ⟨hlist, rfl⟩ := Prod.mk.inj heq
    obtain ⟨-, rfl⟩ := List.cons.inj hlist
    exact ⟨hok, (hs v rest y₂ hv hy₂ k (by omega)).2 _ hitems⟩

/-- White space before elements. -/
theorem ReadsItems.ws (h : Channel E Safe) (hskips : Skips item)
    (hs : ReadsItems E item close t as ok) (hw : ∀ c ∈ w, isWs c = true) :
    ReadsItems E item close (w ++ t) as ok := by
  intro v rest y hv hE k hk
  rw [List.append_assoc] at hE
  have hnone : percent ∉ w := by
    intro hmem
    cases hw percent hmem
  obtain ⟨y₁, rfl, hy₁⟩ := h.append hnone hE
  rw [List.length_append] at hk
  have hitems : items item close k (w ++ y₁) = items item close k y₁ := by
    cases k with
    | zero => rfl
    | succ k => rw [items, items, ← hskips (w ++ y₁), skipWs_append hw, hskips]
  rw [hitems]
  obtain ⟨hyes, hno⟩ := hs v rest y₁ hv hy₁ k (by omega)
  refine ⟨fun hok => ?_, hno⟩
  obtain ⟨y', hy', heq, hlen⟩ := hyes hok
  refine ⟨y', hy', heq, ?_⟩
  rw [List.length_append]
  omega

/-- An element on a line of its own, before others. -/
theorem ReadsItems.line (h : Channel E Safe) (hskips : Skips item) (hr : Reads E item t a ok)
    (hs : ReadsItems E item close u as ok') :
    ReadsItems E item close ((t ++ [44, 10]) ++ u) (a :: as) (ok ∧ ok') := by
  rw [List.append_assoc]
  refine ReadsItems.cons (w := []) h hr (fun c hc => absurd hc List.not_mem_nil) ?_
  refine ReadsItems.ws (w := [10]) h hskips hs fun c hc => ?_
  rw [List.mem_singleton.mp hc]
  decide

/-- The elements of a loop, with commas between them. -/
theorem ReadsItems.joined (h : Channel E Safe) (hclose : close = 93 ∨ close = 125) {f : X → α}
    {okf : X → Prop} {xs : List X} {ts : List Text} (hne : xs ≠ [])
    (hr : List.Forall₂ (fun x t => Reads E item t (f x) (okf x)) xs ts) :
    ReadsItems E item close (ts.intersperse [44]).flatten (xs.map f) (∀ x ∈ xs, okf x) := by
  induction hr with
  | nil => exact absurd rfl hne
  | @cons x t xs ts hx hxs ih =>
    cases hxs with
    | nil =>
      rw [List.intersperse_singleton, List.flatten_singleton]
      refine (ReadsItems.last h hclose hx).congr ?_
      exact ⟨fun hok y hy => List.mem_singleton.mp hy ▸ hok, fun hall => hall x List.mem_cons_self⟩
    | @cons x' t' xs ts hx' hxs =>
      rw [List.intersperse_cons_cons, List.flatten_cons, List.flatten_cons]
      refine (ReadsItems.cons (w := []) h hx (by simp) (ih (List.cons_ne_nil _ _))).congr ?_
      exact List.forall_mem_cons.symm

/-- A reader of elements does not take the closing bracket. -/
def Refuses (item : Text → Option (α × Text)) (close : UInt8) : Prop :=
  ∀ y, (skipWs y).head? = some close → item y = none

theorem value_refuses : Refuses (value n) 93 := by
  intro y hhead
  cases n with
  | zero => rfl
  | succ n =>
    rw [value]
    dsimp only
    cases hskip : skipWs y with
    | nil => rfl
    | cons c t =>
      rw [hskip] at hhead
      obtain rfl := Option.some.inj hhead
      rfl

theorem member_refuses : Refuses (member p) 125 := by
  intro y hhead
  rw [member]
  cases hskip : skipWs y with
  | nil => rfl
  | cons c t =>
    rw [hskip] at hhead
    obtain rfl := Option.some.inj hhead
    rfl

/-- Elements between brackets. -/
theorem Reads.listOf (hrefuse : Refuses item close) (hne : as ≠ [])
    (hs : ReadsItems E item close t as ok) : Reads E (listOf item close) (t ++ [close]) as ok := by
  intro rest y _ hE
  rw [List.append_assoc] at hE
  obtain ⟨hyes, hno⟩ := hs [] rest y (fun _ hc => absurd hc List.not_mem_nil) hE y.length
    (Nat.le_refl _)
  obtain ⟨a, as, rfl⟩ := List.exists_cons_of_ne_nil hne
  have hopen : ∀ {r}, items item close y.length y = some (a :: as, r) →
      Json.listOf item close y = items item close y.length y := by
    intro r hr
    obtain ⟨u, hu⟩ := items_head hr
    rw [Json.listOf, if_neg]
    intro hhead
    rw [hrefuse y hhead] at hu
    cases hu
  constructor
  · intro hok
    obtain ⟨y', hy', hitems, hle⟩ := hyes hok
    exact ⟨y', hy', (hopen hitems).trans hitems, hle⟩
  · intro r hr
    rw [Json.listOf] at hr
    by_cases hhead : (skipWs y).head? = some close
    · rw [if_pos hhead] at hr
      cases hr
    · rw [if_neg hhead] at hr
      exact hno r hr

/-- Brackets with nothing between them. -/
theorem Reads.listOf_nil (h : Channel E Safe) (hclose : close = 93 ∨ close = 125) :
    Reads E (Json.listOf item close) [close] [] True := by
  intro rest y _ hE
  obtain ⟨y', rfl, hy'⟩ := h.cons (percent_ne_close hclose) hE
  refine ⟨fun _ => ⟨y', hy', ?_, Nat.le_succ _⟩, fun _ _ => trivial⟩
  rw [Json.listOf, skipWs_cons (isWs_close hclose)]
  exact if_pos rfl

theorem value_arr : value (n + 1) (91 :: t) =
    (listOf (value n) 93 t).map fun q => (.arr q.1, q.2) := rfl

theorem value_obj : value (n + 1) (123 :: t) =
    (listOf (member (value n)) 125 t).map fun q => (.obj q.1, q.2) := rfl

theorem Reads.arr (h : Channel E Safe) {l : List Json}
    (hr : Reads E (Json.listOf (value n) 93) t l ok) :
    Reads E (value (n + 1)) (91 :: t) (.arr l) ok := by
  intro rest y hf hE
  obtain ⟨y₁, rfl, hy₁⟩ := h.cons (by decide) hE
  obtain ⟨hyes, hno⟩ := hr rest y₁ hf hy₁
  rw [value_arr]
  constructor
  · intro hok
    obtain ⟨y', hy', hlist, hle⟩ := hyes hok
    refine ⟨y', hy', ?_, Nat.le_succ_of_le hle⟩
    rw [hlist]
    rfl
  · intro r hr
    obtain ⟨⟨l', r'⟩, hlist, heq⟩ := Option.map_eq_some_iff.mp hr
    obtain ⟨hl, rfl⟩ := Prod.mk.inj heq
    obtain rfl := Json.arr.inj hl
    exact hno _ hlist

theorem Reads.obj (h : Channel E Safe) {l : List (Text × Json)}
    (hr : Reads E (Json.listOf (Json.member (value n)) 125) t l ok) :
    Reads E (value (n + 1)) (123 :: t) (.obj l) ok := by
  intro rest y hf hE
  obtain ⟨y₁, rfl, hy₁⟩ := h.cons (by decide) hE
  obtain ⟨hyes, hno⟩ := hr rest y₁ hf hy₁
  rw [value_obj]
  constructor
  · intro hok
    obtain ⟨y', hy', hlist, hle⟩ := hyes hok
    refine ⟨y', hy', ?_, Nat.le_succ_of_le hle⟩
    rw [hlist]
    rfl
  · intro r hr
    obtain ⟨⟨l', r'⟩, hlist, heq⟩ := Option.map_eq_some_iff.mp hr
    obtain ⟨hl, rfl⟩ := Prod.mk.inj heq
    obtain rfl := Json.obj.inj hl
    exact hno _ hlist

/-! ### Texts -/

/-- **A text is read back** exactly when its parts are. -/
theorem parse_iff (h : Channel E Safe) {v : Json} {d : ℕ}
    (hr : ∀ n, Reads E (value (n + d)) t v ok) (hE : E t y) (hd : d ≤ y.length + 1) :
    parse y = some v ↔ ok := by
  have hread := hr (y.length + 1 - d)
  rw [Nat.sub_add_cancel hd] at hread
  rw [← List.append_nil t] at hE
  obtain ⟨hyes, hno⟩ := hread [] y follows_nil hE
  rw [parse]
  constructor
  · intro hparse
    obtain ⟨⟨v', r⟩, hvalue, hrest⟩ := Option.bind_eq_some_iff.mp hparse
    change (if skipWs r = [] then some v' else none) = _ at hrest
    by_cases hnil : skipWs r = []
    · rw [if_pos hnil] at hrest
      obtain rfl := Option.some.inj hrest
      exact hno r hvalue
    · rw [if_neg hnil] at hrest
      cases hrest
  · intro hok
    obtain ⟨y', hy', hvalue, -⟩ := hyes hok
    rw [h.nil hy'] at hvalue
    rw [hvalue]
    rfl

end Json
