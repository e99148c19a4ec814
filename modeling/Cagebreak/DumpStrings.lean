/-
The string that `keybinding_dump` joins, in memory.

* `joinModes_spec` — the modes are written into a block that has room for them;
* `Adds` — what is put into a `dyn_str` if the strings are short, and that fewer
  bytes are if they are not;
* `complete_of_sendStr`, `outputs_of_sendStr` — which arrays have to be large enough;
* `dump_strings_iff` — when the joined string is the text that is to be sent.
-/
import Cagebreak.DumpArrays

namespace Cagebreak

namespace DumpStrings

open Buffer Block Exec Printf Dump

variable {m : Malloc} {calls : List (Text × List PrintArg)} {us : List Text} {s t u T : Text}
  {n k : ℕ} {fmt : String}

/-! ### Modes -/

/-- What `print_modes` puts between two modes. -/
def quotes : Text := ascii "\",\""

theorem foldl_length (modes : List Text) (k : ℕ) :
    modes.foldl (fun len mode => len + UInt32.ofNat mode.length) (UInt32.ofNat k) =
      UInt32.ofNat (k + modes.flatten.length) := by
  induction modes generalizing k with
  | nil => rfl
  | cons mode modes ih =>
    rw [List.foldl_cons, ← UInt32.ofNat_add, ih, List.flatten_cons, List.length_append,
      Nat.add_assoc]

theorem flatten_quotes (mode : Text) (modes : List Text) :
    ((mode :: modes).intersperse quotes).flatten = mode ++ modes.flatMap fun b => quotes ++ b := by
  rw [intersperse_cons, List.flatten_cons]
  congr 1
  induction modes with
  | nil => rfl
  | cons mode modes ih =>
    rw [List.flatMap_cons, List.flatMap_cons, List.flatten_append, ih]
    simp

theorem length_quotes (modes : List Text) :
    (modes.flatMap fun b => quotes ++ b).length = 3 * modes.length + modes.flatten.length := by
  induction modes with
  | nil => rfl
  | cons mode modes ih =>
    have h3 : quotes.length = 3 := rfl
    rw [List.flatMap_cons, List.length_append, List.length_append, ih, h3, List.flatten_cons,
      List.length_append, List.length_cons]
    omega

/-- The modes after the first one are appended. -/
theorem joinModes_rest {p : Block} {modes : List Text} {i : ℕ} (hi : i ≠ 0) (hp : p.Holds s)
    (h0 : ∀ mode ∈ modes, 0 ∉ mode)
    (hroom : s.length + (modes.flatMap fun b => quotes ++ b).length < p.size)
    (hsize : p.size ≤ 2 ^ 32) :
    ∃ q, joinModes i modes p (UInt32.ofNat s.length) = .ok q ∧
      q.Holds (s ++ modes.flatMap fun b => quotes ++ b) := by
  induction modes generalizing s p i with
  | nil => exact ⟨p, rfl, by simpa using hp⟩
  | cons mode modes ih =>
    obtain ⟨hmode, hmodes⟩ := List.forall_mem_cons.mp h0
    have h3 : quotes.length = 3 := rfl
    rw [List.flatMap_cons, List.length_append, List.length_append] at hroom
    obtain ⟨p₁, hp₁, hholds₁, hsize₁⟩ := hp.strcat (t := quotes) (by decide) (by omega)
    have hlen : (s ++ quotes).length = s.length + 3 := by rw [List.length_append, h3]
    obtain ⟨p₂, hp₂, hholds₂, hsize₂⟩ := hholds₁.strcat hmode (by omega)
    have hpos : UInt32.ofNat s.length + 3 = UInt32.ofNat (s ++ quotes).length := by
      rw [hlen, UInt32.ofNat_add]
      rfl
    have hnext : UInt32.ofNat (s ++ quotes).length + UInt32.ofNat mode.length =
        UInt32.ofNat (s ++ quotes ++ mode).length := by
      rw [← UInt32.ofNat_add, ← List.length_append]
    have hlen₂ : (s ++ quotes ++ mode).length = s.length + 3 + mode.length := by
      rw [List.length_append, hlen]
    obtain ⟨q, hq, hholds⟩ := ih (Nat.succ_ne_zero i) hholds₂ hmodes (by omega) (by omega)
    refine ⟨q, ?_, ?_⟩
    · rw [joinModes, if_pos hi, toNat_ofNat (by omega), hpos, toNat_ofNat (by omega), hnext]
      show p.strcat s.length quotes >>= _ = _
      rw [hp₁, ok_bind, hp₂, ok_bind, hq]
    · rw [List.flatMap_cons, ← List.append_assoc, ← List.append_assoc]
      exact hholds

/-- **The modes are written** into a block that has room for them and no more. -/
theorem joinModes_spec {mode : Text} {modes : List Text} (h0 : ∀ b ∈ mode :: modes, 0 ∉ b)
    (hs : Short ((mode :: modes).intersperse quotes).flatten) :
    ∃ p, joinModes 0 (mode :: modes) ⟨Function.update (fun _ => 0) k 0,
      ((mode :: modes).intersperse quotes).flatten.length + 1⟩ 0 = .ok p ∧
        p.Holds ((mode :: modes).intersperse quotes).flatten := by
  obtain ⟨hmode, hmodes⟩ := List.forall_mem_cons.mp h0
  rw [flatten_quotes] at hs ⊢
  rw [Short, List.length_append] at hs
  have hzeros : Block.Holds ⟨Function.update (fun _ => 0) k 0,
      (mode ++ modes.flatMap fun b => quotes ++ b).length + 1⟩ [] :=
    Filled.nil (by by_cases hk : k = 0 <;> simp [hk]) (Nat.succ_pos _)
  obtain ⟨p, hp, hholds, hsize⟩ := hzeros.strcat hmode (by simp)
  have hsize : p.size = mode.length + (modes.flatMap fun b => quotes ++ b).length + 1 := by
    rw [hsize, List.length_append]
  obtain ⟨q, hq, hholds⟩ := joinModes_rest (Nat.succ_ne_zero 0) hholds hmodes (by
    rw [hsize, List.nil_append]
    omega) (by omega)
  refine ⟨q, ?_, hholds⟩
  rw [joinModes, if_neg (not_not_intro rfl)]
  show Block.strcat _ 0 mode >>= _ = _
  rw [show Block.strcat _ 0 mode = .ok p from hp, ok_bind, UInt32.zero_add]
  exact hq

/-- The size of the block, and the index that is written first. -/
theorem modes_size (n k : ℕ) :
    UInt32.ofNat n + 3 * (UInt32.ofNat (k + 1) - 1) + 1 = UInt32.ofNat (n + 3 * k + 1) ∧
      UInt32.ofNat n + UInt32.ofNat (k + 1) - 1 = UInt32.ofNat (n + k) := by
  have hsucc : UInt32.ofNat (k + 1) = UInt32.ofNat k + 1 := by
    rw [UInt32.ofNat_add]
    rfl
  have hsize : UInt32.ofNat (n + 3 * k + 1) = UInt32.ofNat n + 3 * UInt32.ofNat k + 1 := by
    rw [UInt32.ofNat_add, UInt32.ofNat_add, UInt32.ofNat_mul]
    rfl
  have hlast : UInt32.ofNat (n + k) = UInt32.ofNat n + UInt32.ofNat k := UInt32.ofNat_add ..
  rw [hsucc, hsize, hlast]
  constructor
  · grind
  · grind

/-- The string of `print_modes`. -/
def modesText (modes : Text) : Text := ascii "\"modes\":[\"" ++ (modes ++ ascii "\"],\n")

theorem prints_modes (modes : Text) :
    Prints (Dump.printStr "\"modes\":[\"%s\"],\n" [.str modes]) (modesText modes) := rfl

theorem prints_printModes {modes : List Text} (hne : modes ≠ []) :
    List.Forall₂ Prints (modesCalls modes) [modesText (modes.intersperse quotes).flatten] := by
  rw [modesCalls, if_neg hne]
  exact .cons (prints_modes _) .nil

/-- The modes are printed. -/
theorem puts_modes {modes : List Text} (hne : modes ≠ []) (h0 : ∀ mode ∈ modes, 0 ∉ mode)
    (hs : Short (modesText (modes.intersperse quotes).flatten)) :
    Puts (printModes m modes) [modesText (modes.intersperse quotes).flatten] := by
  cases modes with
  | nil => exact absurd rfl hne
  | cons mode modes =>
    have hjoined : Short ((mode :: modes).intersperse quotes).flatten := by
      refine short_of_le hs ?_
      simp only [modesText, List.length_append]
      omega
    obtain ⟨p, hp, hholds⟩ := joinModes_spec (k := (mode :: modes).flatten.length + modes.length)
      h0 hjoined
    have hlen : ((mode :: modes).intersperse quotes).flatten.length =
        (mode :: modes).flatten.length + 3 * modes.length := by
      rw [flatten_quotes, List.length_append, length_quotes, List.flatten_cons, List.length_append]
      omega
    have hbound : ((mode :: modes).intersperse quotes).flatten.length + 1 < 2 ^ 31 := hjoined
    have hmodes : PrintsString (Dump.printStr "\"modes\":[\"%s\"],\n"
        [.str ((mode :: modes).intersperse quotes).flatten])
        (modesText ((mode :: modes).intersperse quotes).flatten) := by
      have h0 : 0 ∉ ascii "\"modes\":[\"%s\"],\n" := by decide
      refine ⟨prints_modes _, format_noNul (prints_modes _) h0 fun s hmem => ?_⟩
      rw [List.mem_singleton.mp hmem]
      exact hholds.noNul
    -- no number wraps around, since the text is short
    have hcount : UInt32.ofNat (modes.length + 1) ≠ 0 := ofNat_eq_zero (by omega) (by omega)
    have hfold : (mode :: modes).foldl (fun len mode => len + UInt32.ofNat mode.length) 0 =
        UInt32.ofNat (mode :: modes).flatten.length := by
      have hzero := foldl_length (mode :: modes) 0
      rw [Nat.zero_add] at hzero
      exact hzero
    obtain ⟨hsize, hlast⟩ := modes_size (mode :: modes).flatten.length modes.length
    intro d n ts hd hroom
    obtain ⟨d', hop, hd'⟩ := puts_call (m := m) hmodes hs d n ts hd hroom
    refine ⟨d', ?_, hd'⟩
    have hblock : (UInt32.ofNat ((mode :: modes).flatten.length + 3 * modes.length + 1)).toNat =
        (mode :: modes).flatten.length + 3 * modes.length + 1 := toNat_ofNat (by omega)
    have hindex : (UInt32.ofNat ((mode :: modes).flatten.length + modes.length)).toNat =
        (mode :: modes).flatten.length + modes.length := toNat_ofNat (by omega)
    have hloop : (UInt32.ofNat (modes.length + 1)).toNat = modes.length + 1 :=
      toNat_ofNat (by omega)
    rw [printModes, hfold, List.length_cons]
    simp only [hcount, if_false, hsize, hlast, hblock, hindex, hloop]
    rw [m.calloc_of_pos (Nat.succ_pos _), ← hlen]
    show deref (decide ((mode :: modes).flatten.length + modes.length <
      ((mode :: modes).intersperse quotes).flatten.length + 1)) >>= _ = _
    rw [decide_eq_true (by omega)]
    have hall : (mode :: modes).take (modes.length + 1) = mode :: modes :=
      List.take_of_length_le (Nat.le_refl _)
    show joinModes 0 ((mode :: modes).take (modes.length + 1)) ⟨Function.update (fun _ => 0)
      ((mode :: modes).flatten.length + modes.length) 0,
        ((mode :: modes).intersperse quotes).flatten.length + 1⟩ 0 >>= _ = _
    rw [hall, hp, ok_bind, hholds.string, ok_bind]
    exact hop

/-! ### Strings that are too long -/

/-- The strings `us` are put into a `dyn_str` that has room for them if they are
short, and otherwise fewer bytes are. -/
structure Adds (op : DynStr → Exec DynStr) (us : List Text) : Prop where
  short : (∀ u ∈ us, Short u) → Puts op us
  long : (¬ ∀ u ∈ us, Short u) → ∀ d n ts d', Collected d n ts → ts.length + us.length ≤ n →
    op d = .ok d' → ∃ ws, Collected d' n (ts ++ ws) ∧ ws.length ≤ us.length ∧
      ws.flatten.length < us.flatten.length

variable {op op' : DynStr → Exec DynStr} {us' ts : List Text} {d d' : DynStr}
  {call : Text × List PrintArg} {print : Exec (Option Block)} {server : Server}

/-- Strings that are put are the only result. -/
theorem Puts.collected (h : Puts op us) (hd : Collected d n ts) (hroom : ts.length + us.length ≤ n)
    (hop : op d = .ok d') : Collected d' n (ts ++ us) := by
  obtain ⟨d₁, hop₁, hd₁⟩ := h d n ts hd hroom
  obtain rfl := Except.ok.inj (hop₁.symm.trans hop)
  exact hd₁

theorem Adds.bind (h : Adds op us) (h' : Adds op' us') :
    Adds (fun d => op d >>= op') (us ++ us') := by
  constructor
  · intro hs
    obtain ⟨hus, hus'⟩ := List.forall_mem_append.mp hs
    exact (h.short hus).bind (h'.short hus')
  · intro hlong d n ts d₂ hd hroom hrun
    obtain ⟨d₁, hop, hop'⟩ := bind_eq_ok.mp hrun
    rw [List.length_append] at hroom ⊢
    rw [List.flatten_append, List.length_append]
    -- the first part may have put fewer strings than there was room for
    have hfirst : ∃ ws, Collected d₁ n (ts ++ ws) ∧ ws.length ≤ us.length ∧
        ((∀ u ∈ us, Short u) ∧ ws = us ∨ ws.flatten.length < us.flatten.length) := by
      by_cases hus : ∀ u ∈ us, Short u
      · exact ⟨us, (h.short hus).collected hd (by omega) hop, Nat.le_refl _, .inl ⟨hus, rfl⟩⟩
      · obtain ⟨ws, hws, hle, hlt⟩ := h.long hus d n ts d₁ hd (by omega) hop
        exact ⟨ws, hws, hle, .inr hlt⟩
    obtain ⟨ws, hd₁, hle, hws⟩ := hfirst
    have hroom₁ : (ts ++ ws).length + us'.length ≤ n := by
      rw [List.length_append]
      omega
    by_cases hus' : ∀ u ∈ us', Short u
    · have hd₂ := (h'.short hus').collected hd₁ hroom₁ hop'
      refine ⟨ws ++ us', by rwa [← List.append_assoc], ?_, ?_⟩
      · rw [List.length_append]
        omega
      · obtain ⟨hus, -⟩ | hlt := hws
        · exact absurd (List.forall_mem_append.mpr ⟨hus, hus'⟩) hlong
        · rw [List.flatten_append, List.length_append]
          omega
    · obtain ⟨ws', hd₂, hle', hlt'⟩ := h'.long hus' d₁ n (ts ++ ws) d₂ hd₁ hroom₁ hop'
      refine ⟨ws ++ ws', by rwa [← List.append_assoc], ?_, ?_⟩
      · rw [List.length_append]
        omega
      · rw [List.flatten_append, List.length_append]
        obtain ⟨-, rfl⟩ | hlt := hws
        · omega
        · omega

theorem adds_calls (h : List.Forall₂ PrintsString calls us) :
    Adds (fun d => printStrs m d calls) us := by
  induction h with
  | nil => exact ⟨fun _ => .nil, fun hlong => absurd (List.forall_mem_nil _) hlong⟩
  | @cons call t calls us hcall _ ih =>
    have hfirst : Adds (fun d => printStr m d call) [t] := by
      constructor
      · intro hs
        exact puts_call hcall (List.forall_mem_singleton.mp hs)
      · intro hlong d n ts d' hd _ hop
        rw [List.forall_mem_singleton] at hlong
        obtain rfl := printStr_long hcall.1 hlong hop
        refine ⟨[], by rwa [List.append_nil], Nat.zero_le _, ?_⟩
        rw [Short, Nat.not_lt] at hlong
        rw [List.flatten_singleton, List.flatten_nil, List.length_nil]
        omega
    exact hfirst.bind ih

/-- Another string in the place of one that is too long. -/
theorem printStr_other (h0 : 0 ∉ ascii fmt) (hp : Prints (Dump.printStr fmt [.str s]) u)
    (hs : 0 ∉ s) (ht : ¬ Short t) (hd : Collected d n ts) (hroom : ts.length + 1 ≤ n)
    (hop : printStr m d (Dump.printStr fmt [.str s]) = .ok d') :
    ∃ ws, Collected d' n (ts ++ ws) ∧ ws.length ≤ 1 ∧ ws.flatten.length < t.length := by
  rw [Short, Nat.not_lt] at ht
  by_cases hu : Short u
  · have hu0 : 0 ∉ u := format_noNul hp h0 fun v hv => List.mem_singleton.mp hv ▸ hs
    refine ⟨[u], (puts_call ⟨hp, hu0⟩ hu).collected hd hroom hop, Nat.le_refl _, ?_⟩
    rw [List.flatten_singleton]
    exact Nat.lt_of_succ_lt_succ (Nat.lt_of_lt_of_le hu ht)
  · obtain rfl := printStr_long hp hu hop
    refine ⟨[], by rwa [List.append_nil], Nat.zero_le _, ?_⟩
    rw [List.flatten_nil, List.length_nil]
    omega

/-- A string of another function, which is right if it is short. -/
theorem adds_nested (h0 : 0 ∉ ascii fmt)
    (hfmt : ∀ s, Prints (Dump.printStr fmt [.str s]) (s ++ u))
    (h : Short T → ∃ p, print = .ok (some p) ∧ p.Holds T) :
    Adds (printNested m fmt print) [T ++ u] := by
  constructor
  · intro hs
    have hs := List.forall_mem_singleton.mp hs
    obtain ⟨p, hp, hholds⟩ := h (short_of_le hs (by simp))
    refine puts_nested hp hholds ⟨hfmt T, format_noNul (hfmt T) h0 fun v hv => ?_⟩ hs
    rw [List.mem_singleton.mp hv]
    exact hholds.noNul
  · intro hlong d n ts d' hd hroom hop
    rw [List.forall_mem_singleton] at hlong
    rw [List.flatten_singleton]
    obtain ⟨str, -, hop⟩ := bind_eq_ok.mp hop
    cases str with
    | none =>
      obtain rfl := Except.ok.inj hop
      refine ⟨[], by rwa [List.append_nil], Nat.zero_le _, ?_⟩
      rw [Short, Nat.not_lt] at hlong
      rw [List.flatten_nil, List.length_nil]
      omega
    | some p =>
      obtain ⟨s, hs, hop⟩ := bind_eq_ok.mp hop
      exact printStr_other h0 (hfmt s) (noNul_of_string hs) hlong hd hroom hop

theorem adds_modes {modes : List Text} (h0 : ∀ mode ∈ modes, 0 ∉ mode)
    (hus : List.Forall₂ Prints (modesCalls modes) us) : Adds (printModes m modes) us := by
  by_cases hne : modes = []
  · subst hne
    cases hus
    exact ⟨fun _ => Puts.nil, fun hlong => absurd (List.forall_mem_nil _) hlong⟩
  · obtain rfl : us = [modesText (modes.intersperse quotes).flatten] := by
      refine List.right_unique_forall₂' (fun call u v hu hv => ?_) hus (prints_printModes hne)
      exact Except.ok.inj (hu.symm.trans hv)
    constructor
    · intro hs
      exact puts_modes hne h0 (List.forall_mem_singleton.mp hs)
    · intro hlong d n ts d' hd hroom hop
      rw [List.forall_mem_singleton] at hlong
      rw [List.flatten_singleton]
      rw [printModes] at hop
      by_cases hcount : UInt32.ofNat modes.length = 0
      · simp only [hcount, if_true] at hop
        obtain rfl := Except.ok.inj hop
        refine ⟨[], by rwa [List.append_nil], Nat.zero_le _, ?_⟩
        rw [Short, Nat.not_lt] at hlong
        rw [List.flatten_nil, List.length_nil]
        omega
      · simp only [hcount, if_false] at hop
        obtain ⟨_, -, hop⟩ := bind_eq_ok.mp hop
        obtain ⟨_, -, hop⟩ := bind_eq_ok.mp hop
        obtain ⟨_, -, hop⟩ := bind_eq_ok.mp hop
        obtain ⟨s, hs, hop⟩ := bind_eq_ok.mp hop
        exact printStr_other (by decide) (prints_modes s) (noNul_of_string hs) hlong hd hroom hop

/-! ### The arrays of the outputs -/

/-- A loop that returns has printed its items. -/
theorem printEach_items {α : Type} {comma : ℕ → Bool} {print : α → Exec (Option Block)}
    {items : List α} {i : ℕ} (h : printEach m comma fmt print i items d = .ok d') :
    ∀ it ∈ items, ∃ r, print it = .ok r := by
  induction items generalizing i d with
  | nil =>
    intro it hit
    exact absurd hit List.not_mem_nil
  | cons it items ih =>
    -- with or without a comma
    have hrest : ∃ d₁, (printNested m fmt (print it) d₁ >>=
        printEach m comma fmt print (i + 1) items) = .ok d' := by
      rw [printEach] at h
      split at h
      · obtain ⟨d₁, -, h⟩ := bind_eq_ok.mp h
        exact ⟨d₁, h⟩
      · exact ⟨d, h⟩
    obtain ⟨d₁, h⟩ := hrest
    obtain ⟨d₂, hnested, h⟩ := bind_eq_ok.mp h
    obtain ⟨r, hr, -⟩ := bind_eq_ok.mp hnested
    intro it' hit'
    obtain rfl | hit' := List.mem_cons.mp hit'
    · exact ⟨r, hr⟩
    · exact ih h it' hit'

/-- An output is printed only if its array has the last of the workspaces. -/
theorem workspaces_of_printOutput {bs : Bool} {nws : ℕ} {outp : Output} {r : Option Block}
    (hpos : 1 ≤ nws) (h : printOutput m bs nws outp = .ok r) : nws ≤ outp.workspaces.length := by
  obtain ⟨_, -, h⟩ := bind_eq_ok.mp h
  obtain ⟨_, hnested, -⟩ := bind_eq_ok.mp h
  obtain ⟨_, h, -⟩ := bind_eq_ok.mp hnested
  obtain ⟨_, -, h⟩ := bind_eq_ok.mp h
  obtain ⟨_, -, h⟩ := bind_eq_ok.mp h
  obtain ⟨_, hloop, -⟩ := bind_eq_ok.mp h
  have hlast : nws - 1 ∈ List.range nws := List.mem_range.mpr (by omega)
  obtain ⟨_, h⟩ := printEach_items hloop (nws - 1) hlast
  obtain ⟨ws, hget, -⟩ := bind_eq_ok.mp h
  obtain ⟨hlt, -⟩ := List.getElem?_eq_some_iff.mp (nonNull_eq_ok.mp hget)
  omega

theorem printOutputs_of_sendStr {r : Option Block} (h : sendStr m server = .ok r) :
    ∃ r, printOutputs m server = .ok r := by
  obtain ⟨_, -, h⟩ := bind_eq_ok.mp h
  obtain ⟨_, -, h⟩ := bind_eq_ok.mp h
  obtain ⟨_, -, h⟩ := bind_eq_ok.mp h
  obtain ⟨_, houtps, -⟩ := bind_eq_ok.mp h
  obtain ⟨r, hr, -⟩ := bind_eq_ok.mp houtps
  exact ⟨r, hr⟩

/-- **The state is printed** only if the array of every output has the workspaces. -/
theorem complete_of_sendStr {r : Option Block} (h : sendStr m server = .ok r) :
    server.Complete := by
  obtain ⟨_, h⟩ := printOutputs_of_sendStr h
  obtain ⟨_, -, h⟩ := bind_eq_ok.mp h
  obtain ⟨_, -, h⟩ := bind_eq_ok.mp h
  obtain ⟨_, hloop, -⟩ := bind_eq_ok.mp h
  intro outp houtp
  obtain ⟨_, hr⟩ := printEach_items hloop outp houtp
  exact workspaces_of_printOutput server.nws_pos hr

/-- Without outputs, the array of `print_outputs` has room for one string of two. -/
theorem outputs_of_sendStr {r : Option Block} (h : sendStr m server = .ok r) :
    server.outputs ≠ [] := by
  intro hnil
  obtain ⟨_, h⟩ := printOutputs_of_sendStr h
  rw [printOutputs, hnil] at h
  obtain ⟨n, hn, h⟩ := bind_eq_ok.mp h
  obtain rfl : n = 0 := (Except.ok.inj hn).symm
  obtain ⟨d, hd, h⟩ := bind_eq_ok.mp h
  have hfirst : Puts (fun d => printStrs m d [Dump.printStr "\"outputs\": \x7b" []])
      [ascii "\"outputs\": \x7b"] := puts_calls (.cons ⟨rfl, by decide⟩ .nil) (by decide)
  have hfull := hfirst.collected (collected_new (n := 1) (by decide)) (by decide) hd
  obtain ⟨_, hloop, h⟩ := bind_eq_ok.mp h
  obtain rfl := Except.ok.inj hloop
  obtain ⟨_, hlast, -⟩ := bind_eq_ok.mp h
  obtain ⟨p, hp, -⟩ := m.sprintf_short (s := ascii "\x7d\n") (by decide) (by decide)
  obtain ⟨d', hlast, -⟩ := bind_eq_ok.mp hlast
  obtain ⟨text, htext, hlast⟩ := bind_eq_ok.mp hlast
  obtain rfl : text = ascii "\x7d\n" := (Except.ok.inj htext).symm
  rw [hp, ok_bind, ifSome_some, hfull.toNat_curPos, hfull.length_strArr] at hlast
  obtain ⟨_, hlt, -⟩ := bind_eq_ok.mp hlast
  exact absurd (of_decide_eq_true (deref_eq_ok.mp hlt)) (by decide)

/-! ### The whole text -/

/-- The strings that `keybinding_dump` collects itself. -/
def fragments (server : Server) : Exec (List Text) := do
  let message ← messageConfText server.messageConfig
  let outps ← outputsText server
  let keyboards ← keyboardGroupsText server
  let inputDevs ← inputDevicesText server
  (headCalls server ++ modesCalls server.modes ++
    ([Dump.printStr "%s," [.str message], Dump.printStr "%s," [.str outps],
      Dump.printStr "%s," [.str keyboards], Dump.printStr "%s," [.str inputDevs]] ++
        lastCalls server)).mapM fun call => format call.1 call.2

/-- An `int` counts the bytes of each string, and a `uint32_t` those of all. -/
def Fits (server : Server) : Prop := ∀ us, fragments server = .ok us →
  (∀ u ∈ us, Short u) ∧ us.flatten.length + 1 < 2 ^ 32

theorem zero_notMem_getModeName {modes : List Text} (h0 : ∀ mode ∈ modes, 0 ∉ mode) (i : ℕ) :
    0 ∉ getModeName modes i := by
  rw [getModeName]
  cases hget : modes[i]? with
  | none => decide
  | some mode => exact h0 mode (List.mem_of_getElem? hget)

theorem clean_headCalls {server : Server} (h0 : ∀ s ∈ server.texts, 0 ∉ s) :
    Clean (headCalls server) := by
  have hmode : 0 ∉ getModeName server.modes server.defaultMode :=
    zero_notMem_getModeName (fun mode hmem => h0 mode (by simp [Server.texts, hmem])) _
  exact .numbers (by decide) rfl <| .numbers (by decide) rfl <| .numbers (by decide) rfl <|
    .numbers (by decide) rfl <| .numbers (by decide) rfl <|
    .str (by decide) (h0 _ (by simp [Server.texts])) <| .str (by decide) hmode .nil

theorem clean_lastCalls (server : Server) : Clean (lastCalls server) :=
  .numbers (by decide) rfl (.numbers (by decide) rfl .nil)

theorem prints_comma (s : Text) : Prints (Dump.printStr "%s," [.str s]) (s ++ [44]) := rfl

/-- `keybinding_dump`, up to the joining. -/
def collectStr (m : Malloc) (server : Server) (str : DynStr) : Exec DynStr := do
  let str ← printStrs m str (headCalls server)
  let str ← printModes m server.modes str
  let str ← printNested m "%s," (printMessageConf m server.messageConfig) str
  let str ← printNested m "%s," (printOutputs m server) str
  let str ← printNested m "%s," (printKeyboardGroups m server) str
  let str ← printNested m "%s," (printInputDevices m server) str
  printStrs m str (lastCalls server)

theorem sendStr_eq (m : Malloc) (server : Server) :
    sendStr m server = collectStr m server (newDynStr 14) >>= dynStrToStr m := by
  rw [sendStr, collectStr]
  simp only [bind_assoc]

/-- What `keybinding_dump` puts into its `dyn_str`. -/
theorem sendStr_adds (m : Malloc) {server : Server} (hne : server.outputs ≠ [])
    (hcomplete : server.Complete) (h0 : ∀ s ∈ server.texts, 0 ∉ s) :
    ∃ us, fragments server = .ok us ∧ us.length ≤ 14 ∧
      dumpText server = .ok us.flatten ∧ Adds (collectStr m server) us := by
  obtain ⟨T, hT, -⟩ := dumpText_gives server hne
  have hideal := hT
  obtain ⟨message, hmessage, hT⟩ := bind_eq_ok.mp hT
  obtain ⟨outps, houtps, hT⟩ := bind_eq_ok.mp hT
  obtain ⟨keyboards, hkeyboards, hT⟩ := bind_eq_ok.mp hT
  obtain ⟨inputDevs, hinputDevs, hT⟩ := bind_eq_ok.mp hT
  have hT : joinedText 14 (headCalls server ++ modesCalls server.modes ++
    ([Dump.printStr "%s," [.str message], Dump.printStr "%s," [.str outps],
      Dump.printStr "%s," [.str keyboards], Dump.printStr "%s," [.str inputDevs]] ++
        lastCalls server)) = .ok T := hT
  obtain ⟨hlen, us, hmap, hus, rfl⟩ := joinedText_eq_ok hT
  have hcount : us.length ≤ 14 := by
    rw [← hus.length_eq]
    exact hlen
  obtain ⟨us₁, us₂, rfl, hfront, hback⟩ := forall₂_append_left _ _ hus
  obtain ⟨us₃, us₄, rfl, hhead, hmodes⟩ := forall₂_append_left _ _ hfront
  obtain ⟨us₅, us₆, rfl, hnested, hlast⟩ := forall₂_append_left _ _ hback
  -- a text that is printed with `%s` stays as it is
  obtain rfl : us₅ = [message ++ [44], outps ++ [44], keyboards ++ [44], inputDevs ++ [44]] := by
    have htexts := List.Forall₂.cons (prints_comma message) <| .cons (prints_comma outps) <|
      .cons (prints_comma keyboards) <| .cons (prints_comma inputDevs) .nil
    refine List.right_unique_forall₂' (fun call u v hu hv => ?_) hnested htexts
    exact Except.ok.inj (hu.symm.trans hv)
  have hmodes0 : ∀ mode ∈ server.modes, 0 ∉ mode := fun mode hmem =>
    h0 mode (by simp [Server.texts, hmem])
  have hfont : 0 ∉ server.messageConfig.font := h0 _ (by simp [Server.texts])
  have hcomma : 0 ∉ ascii "%s," := by decide
  have hadds := (adds_calls (m := m) ((clean_headCalls h0).printsString hhead)).bind <|
    (adds_modes (m := m) hmodes0 hmodes).bind <|
    (adds_nested (m := m) hcomma prints_comma fun hs =>
      printMessageConf_string (m := m) hfont hmessage hs).bind <|
    (adds_nested (m := m) hcomma prints_comma fun hs =>
      printOutputs_string (m := m) hne hcomplete h0 houtps hs).bind <|
    (adds_nested (m := m) hcomma prints_comma fun hs =>
      printKeyboardGroups_string (m := m) h0 hkeyboards hs).bind <|
    (adds_nested (m := m) hcomma prints_comma fun hs =>
      printInputDevices_string (m := m) h0 hinputDevs hs).bind <|
    adds_calls (m := m) ((clean_lastCalls server).printsString hlast)
  refine ⟨_, ?_, hcount, hideal, ?_⟩
  · rw [fragments, hmessage, ok_bind, houtps, ok_bind, hkeyboards, ok_bind, hinputDevs, ok_bind]
    exact hmap
  · rw [List.append_assoc]
    exact hadds

/-- What is joined is the text only if the strings fit. -/
theorem fits_of_sendStr (hne : server.outputs ≠ []) (h0 : ∀ s ∈ server.texts, 0 ∉ s) {p : Block}
    (hT : dumpText server = .ok T) (hp : sendStr m server = .ok (some p))
    (hstring : p.string = .ok T) : Fits server := by
  obtain ⟨us, hus, hlen, hideal, hadds⟩ := sendStr_adds m hne (complete_of_sendStr hp) h0
  have hnew : Collected (newDynStr 14) 14 [] := collected_new (by decide)
  intro us' hus'
  obtain rfl := Except.ok.inj (hus.symm.trans hus')
  obtain rfl := Except.ok.inj (hT.symm.trans hideal)
  rw [sendStr_eq] at hp
  obtain ⟨d, hop, hjoin⟩ := bind_eq_ok.mp hp
  -- what has been joined is what has been collected
  have hjoined : ∀ ws, Collected d 14 ws → ws.flatten = us.flatten ∧
      ws.flatten.length + 1 < 2 ^ 32 := by
    intro ws hws
    by_cases hfit : ws.flatten.length + 1 < 2 ^ 32
    · obtain ⟨q, hq, hholds⟩ := dynStrToStr_short (m := m) hws hfit
      obtain rfl := Option.some.inj (Except.ok.inj (hq.symm.trans hjoin))
      exact ⟨Except.ok.inj (hholds.string.symm.trans hstring), hfit⟩
    · exact absurd hjoin (dynStrToStr_long hws (Nat.not_lt.mp hfit))
  by_cases hshort : ∀ u ∈ us, Short u
  · have hcollected := (hadds.short hshort).collected hnew (by simpa using hlen) hop
    exact ⟨hshort, (hjoined us hcollected).2⟩
  · obtain ⟨ws, hws, -, hlt⟩ := hadds.long hshort _ 14 [] d hnew (by simpa using hlen) hop
    rw [(hjoined ws hws).1] at hlt
    exact absurd hlt (Nat.lt_irrefl _)

/-- The strings that fit are joined. -/
theorem sendStr_of_fits (m : Malloc) (hne : server.outputs ≠ []) (hcomplete : server.Complete)
    (h0 : ∀ s ∈ server.texts, 0 ∉ s) (hfits : Fits server) :
    ∃ T p, dumpText server = .ok T ∧ sendStr m server = .ok (some p) ∧ p.Holds T := by
  obtain ⟨us, hus, hlen, hideal, hadds⟩ := sendStr_adds m hne hcomplete h0
  obtain ⟨hshort, htotal⟩ := hfits us hus
  obtain ⟨p, hp, hholds⟩ := (hadds.short hshort).join (m := m) hlen (by decide) htotal
  refine ⟨us.flatten, p, hideal, ?_, hholds⟩
  rw [sendStr_eq, hp]

/-- The modes that there are at the start. -/
def firstModes : List Text := [ascii "top", ascii "root", ascii "resize"]

/-- The first strings of a server with one mode. -/
theorem fragments_plain {mode : Text} {us : List Text}
    (h : fragments (plainServer [mode]) = .ok us) :
    2 * mode.length + 54 ≤ us.flatten.length := by
  obtain ⟨message, -, h⟩ := bind_eq_ok.mp h
  obtain ⟨outps, -, h⟩ := bind_eq_ok.mp h
  obtain ⟨keyboards, -, h⟩ := bind_eq_ok.mp h
  obtain ⟨inputDevs, -, h⟩ := bind_eq_ok.mp h
  obtain ⟨us₁, us₂, rfl, hfront, -⟩ := forall₂_append_left _ _ (forall₂_of_mapM h)
  obtain ⟨us₃, us₄, rfl, hhead, hmodes⟩ := forall₂_append_left _ _ hfront
  obtain ⟨event, rest, hevent, hrest, rfl⟩ := List.forall₂_cons_left_iff.mp hhead
  obtain ⟨ws₁, ws₂, rfl, -, hlast⟩ := forall₂_append_left [_, _, _, _, _] [_] hrest
  obtain ⟨name, -, hname, -, rfl⟩ := List.forall₂_cons_left_iff.mp hlast
  obtain ⟨modes, -, hmodes, -, rfl⟩ := List.forall₂_cons_left_iff.mp hmodes
  have hevent : event = ascii "\x7b\"event_name\":\"dump\"," := (Except.ok.inj hevent).symm
  have hname : name = ascii "\"default_mode\":\"" ++ (mode ++ ascii "\",\n") :=
    (Except.ok.inj hname).symm
  have hmodes : modes = modesText (mode ++ []) := (Except.ok.inj hmodes).symm
  have hlen : event.length = 21 ∧ name.length = mode.length + 19 ∧
      modes.length = mode.length + 14 := by
    rw [hevent, hname, hmodes, modesText]
    simp only [List.length_append, List.length_nil]
    refine ⟨rfl, ?_, ?_⟩
    · show 16 + (mode.length + 3) = _
      omega
    · show 10 + (mode.length + 0 + 4) = _
      omega
  simp only [List.flatten_append, List.flatten_cons, List.length_append]
  omega

theorem zero_notMem_plain {mode : Text} (h0 : 0 ∉ mode) :
    ∀ s ∈ (plainServer [mode]).texts, 0 ∉ s := by
  intro s hs
  have hall : s = ascii "A" ∨ s = ascii "pango:Monospace 10" ∨ s = mode := by
    simp [Server.texts, plainServer, Output.texts, Workspace.texts] at hs
    tauto
  obtain rfl | rfl | rfl := hall
  · decide
  · decide
  · exact h0

end DumpStrings

end Cagebreak
