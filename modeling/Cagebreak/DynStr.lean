/-
The strings of `dump` in memory (`struct dyn_str`).

A `dyn_str` collects strings in an array and joins them in a block of their
length; the numbers of bytes and of strings are of type `uint32_t`.  There is
memory for every allocation but those of no bytes.

* `Puts` — a part of a program that puts strings into a `dyn_str`;
* `Puts.join` — the strings are joined in order if their length fits in 32 bits;
* `dynStrToStr_long` — and not otherwise.
-/
import Cagebreak.DumpJson
import Cagebreak.Lib.Snprintf

namespace Cagebreak

namespace DumpStrings

open Buffer Block Exec Printf Dump

/-! ### The source -/

/-- `struct dyn_str`. -/
structure DynStr where
  len : UInt32
  curPos : UInt32
  strArr : List (Option Block)

/-- A `dyn_str` with an array of `nmemb` strings. -/
def newDynStr (nmemb : ℕ) : DynStr := ⟨0, 0, List.replicate nmemb none⟩

variable (m : Malloc)

/-- `print_str`. -/
def printStr (outp : DynStr) (call : Text × List PrintArg) : Exec DynStr := do
  let text ← format call.1 call.2
  let ret ← m.sprintf text
  ifSome ret outp fun ret => do
    deref (decide (outp.curPos.toNat < outp.strArr.length))
    let n ← ret.bytes.strlen ret.size
    .ok ⟨outp.len + UInt32.ofNat n, outp.curPos + 1, outp.strArr.set outp.curPos.toNat (some ret)⟩

/-- Calls of `print_str` one after the other. -/
def printStrs (outp : DynStr) (calls : List (Text × List PrintArg)) : Exec DynStr :=
  calls.foldlM (printStr m) outp

/-- The loop of `dyn_str_to_str` over the `k` strings from the `i`-th on. -/
def joinFrom (inp : DynStr) : ℕ → ℕ → Block → UInt32 → Exec Block
  | 0, _, outp, _ => .ok outp
  | k + 1, i, outp, tmpPos => do
    let str ← nonNull inp.strArr[i]?.join
    let s ← str.string
    let outp ← outp.strcat tmpPos.toNat s
    joinFrom inp k (i + 1) outp (tmpPos + UInt32.ofNat s.length)

/-- `dyn_str_to_str`. -/
def dynStrToStr (inp : DynStr) : Exec (Option Block) :=
  ifSome (m.calloc (inp.len + 1).toNat) none fun outp => do
    deref (decide (inp.len.toNat < outp.size))
    let outp := { outp with bytes := Function.update outp.bytes inp.len.toNat 0 }
    let outp ← joinFrom inp inp.curPos.toNat 0 outp 0
    .ok (some outp)

/-- A string that another function prints is printed, unless it is `NULL`. -/
def printNested (fmt : String) (print : Exec (Option Block)) (outp : DynStr) : Exec DynStr := do
  let str ← print
  ifSome str outp fun str => do
    let s ← str.string
    printStr m outp (Dump.printStr fmt [.str s])

/-- A loop that prints its items, from the `i`-th on; `comma` tells before which of
them a comma is printed. -/
def printEach {α : Type} (comma : ℕ → Bool) (fmt : String) (print : α → Exec (Option Block)) :
    ℕ → List α → DynStr → Exec DynStr
  | _, [], outp => .ok outp
  | i, it :: items, outp => do
    let outp ← if comma i then printStr m outp (Dump.printStr "," []) else .ok outp
    let outp ← printNested m fmt (print it) outp
    printEach comma fmt print (i + 1) items outp

/-! ### What has been collected -/

/-- The `dyn_str` has an array of `nmemb` strings, of which the first are `ts`. -/
structure Collected (d : DynStr) (nmemb : ℕ) (ts : List Text) : Prop where
  len : d.len = UInt32.ofNat ts.flatten.length
  curPos : d.curPos = UInt32.ofNat ts.length
  strArr : ∃ ps, List.Forall₂ Holds ps ts ∧
    d.strArr = ps.map some ++ List.replicate (nmemb - ts.length) none
  le : ts.length ≤ nmemb
  lt : nmemb < 2 ^ 32

variable {m} {d d' : DynStr} {outp p : Block} {call : Text × List PrintArg}
  {calls : List (Text × List PrintArg)} {ts us : List Text} {s t : Text} {n k : ℕ}

theorem collected_new (hn : n < 2 ^ 32) : Collected (newDynStr n) n [] :=
  ⟨rfl, rfl, ⟨[], .nil, rfl⟩, Nat.zero_le n, hn⟩

theorem Collected.toNat_curPos (h : Collected d n ts) : d.curPos.toNat = ts.length := by
  rw [h.curPos]
  exact Nat.mod_eq_of_lt (h.le.trans_lt h.lt)

theorem Collected.length_strArr (h : Collected d n ts) : d.strArr.length = n := by
  obtain ⟨ps, hps, harr⟩ := h.strArr
  have hlen := hps.length_eq
  have hle := h.le
  rw [harr, List.length_append, List.length_map, List.length_replicate]
  omega

/-- The strings are in the array. -/
theorem Collected.getElem (h : Collected d n (ts ++ t :: us)) :
    ∃ p, d.strArr[ts.length]?.join = some p ∧ p.Holds t := by
  obtain ⟨ps, hps, harr⟩ := h.strArr
  have hlt : ts.length < (ts ++ t :: us).length := by simp
  have hlt' : ts.length < ps.length := hps.length_eq ▸ hlt
  have hholds := hps.get hlt' hlt
  refine ⟨ps[ts.length], ?_, by simpa using hholds⟩
  rw [harr, List.getElem?_append_left (by simpa using hlt'), List.getElem?_map,
    List.getElem?_eq_getElem hlt']
  rfl

/-- One more string. -/
theorem Collected.push (h : Collected d n ts) (hroom : ts.length < n) (hp : p.Holds t) :
    Collected ⟨d.len + UInt32.ofNat t.length, d.curPos + 1,
      d.strArr.set d.curPos.toNat (some p)⟩ n (ts ++ [t]) := by
  refine ⟨?_, ?_, ?_, ?_, h.lt⟩
  · show d.len + _ = _
    rw [h.len, ← UInt32.ofNat_add, List.flatten_append, List.flatten_singleton, List.length_append]
  · show d.curPos + 1 = _
    rw [h.curPos, List.length_append, List.length_singleton, UInt32.ofNat_add]
    rfl
  · obtain ⟨ps, hps, harr⟩ := h.strArr
    refine ⟨ps ++ [p], List.rel_append hps (.cons hp .nil), ?_⟩
    obtain ⟨k, hk⟩ : ∃ k, n - ts.length = k + 1 := ⟨n - ts.length - 1, by omega⟩
    have hrest : n - (ts ++ [t]).length = k := by
      rw [List.length_append, List.length_singleton]
      omega
    show d.strArr.set d.curPos.toNat (some p) = _
    rw [harr, hk, hrest, h.toNat_curPos, ← hps.length_eq, List.replicate_succ]
    simp
  · rw [List.length_append, List.length_singleton]
    exact hroom

/-! ### Putting strings into it -/

/-- The strings `us` are put into every `dyn_str` that has room for them. -/
def Puts (op : DynStr → Exec DynStr) (us : List Text) : Prop :=
  ∀ d n ts, Collected d n ts → ts.length + us.length ≤ n →
    ∃ d', op d = .ok d' ∧ Collected d' n (ts ++ us)

/-- The text of a call of `print_str` is a string of C. -/
def PrintsString (call : Text × List PrintArg) (t : Text) : Prop := Prints call t ∧ 0 ∉ t

/-- The number of bytes of a string, with the one that ends it, is an `int`. -/
def Short (t : Text) : Prop := t.length + 1 < 2 ^ 31

instance : Decidable (Short t) := inferInstanceAs (Decidable (_ < _))

variable {op op' : DynStr → Exec DynStr} {us' : List Text} {fmt : String}
  {args : List PrintArg} {print : Exec (Option Block)}

theorem Puts.nil : Puts .ok [] := by
  intro d n ts hd _
  exact ⟨d, rfl, by rwa [List.append_nil]⟩

theorem Puts.bind (h : Puts op us) (h' : Puts op' us') :
    Puts (fun d => op d >>= op') (us ++ us') := by
  intro d n ts hd hroom
  rw [List.length_append] at hroom
  obtain ⟨d₁, hop, hd₁⟩ := h d n ts hd (by omega)
  obtain ⟨d₂, hop', hd₂⟩ := h' d₁ n (ts ++ us) hd₁ (by rw [List.length_append]; omega)
  refine ⟨d₂, ?_, by rwa [← List.append_assoc]⟩
  show op d >>= op' = _
  rw [hop, ok_bind, hop']

/-- A string is printed. -/
theorem puts_call (h : PrintsString call t) (hs : Short t) :
    Puts (fun d => printStr m d call) [t] := by
  intro d n ts hd hroom
  rw [List.length_singleton] at hroom
  obtain ⟨p, hp, hholds⟩ := m.sprintf_short h.2 hs
  refine ⟨_, ?_, hd.push hroom hholds⟩
  have hcur : d.curPos.toNat < d.strArr.length := by
    rw [hd.toNat_curPos, hd.length_strArr]
    exact hroom
  show printStr m d call = _
  rw [printStr, show format call.1 call.2 = _ from h.1, ok_bind, hp, ok_bind, ifSome_some,
    decide_eq_true hcur, Filled.strlen hholds]
  rfl

/-- Of a text that is too long nothing is printed. -/
theorem printStr_long (h : Prints call t) (hs : ¬ Short t) (hd : printStr m d call = .ok d') :
    d' = d := by
  rw [printStr, show format call.1 call.2 = _ from h, ok_bind] at hd
  obtain ⟨ret, hret, hd⟩ := bind_eq_ok.mp hd
  cases ret with
  | none => exact (Except.ok.inj hd).symm
  | some p =>
    have hsize : p.size = 0 := m.sprintf_long (Nat.not_lt.mp hs) hret
    rw [ifSome_some] at hd
    obtain ⟨_, -, hd⟩ := bind_eq_ok.mp hd
    have hstrlen : p.bytes.strlen p.size = .error .undefined := by
      rw [hsize]
      rfl
    rw [hstrlen] at hd
    cases hd

theorem puts_calls (h : List.Forall₂ PrintsString calls us) (hs : ∀ u ∈ us, Short u) :
    Puts (fun d => printStrs m d calls) us := by
  induction h with
  | nil => exact .nil
  | @cons call t calls us hcall _ ih =>
    obtain ⟨ht, hus⟩ := List.forall_mem_cons.mp hs
    have hboth := (puts_call (m := m) hcall ht).bind (ih hus)
    intro d n ts hd hroom
    obtain ⟨d', hop, hd'⟩ := hboth d n ts hd hroom
    refine ⟨d', ?_, hd'⟩
    show (call :: calls).foldlM (printStr m) d = _
    rw [List.foldlM_cons]
    exact hop

/-- A string of another function is printed. -/
theorem puts_nested (hprint : print = .ok (some p)) (hp : p.Holds s)
    (h : PrintsString (Dump.printStr fmt [.str s]) t) (hs : Short t) :
    Puts (printNested m fmt print) [t] := by
  intro d n ts hd hroom
  obtain ⟨d', hop, hd'⟩ := puts_call (m := m) h hs d n ts hd hroom
  refine ⟨d', ?_, hd'⟩
  rw [printNested, hprint, ok_bind, ifSome_some, hp.string, ok_bind]
  exact hop

theorem intersperse_cons {α : Type} (sep a : α) (l : List α) :
    (a :: l).intersperse sep = a :: l.flatMap fun b => [sep, b] := by
  induction l generalizing a with
  | nil => rfl
  | cons b l ih => rw [List.intersperse_cons_cons, ih b, List.flatMap_cons]; rfl

section Loop

variable {α : Type} {print : α → Exec (Option Block)} {items : List α} {strs : List Text}
  {wrap : Text → Text} {comma : ℕ → Bool} {i : ℕ}

/-- The item is printed as the string. -/
def PrintsItem (print : α → Exec (Option Block)) (it : α) (s : Text) : Prop :=
  ∃ p, print it = .ok (some p) ∧ p.Holds s

theorem puts_item (h0 : 0 ∉ ascii fmt) (hfmt : ∀ s, Prints (Dump.printStr fmt [.str s]) (wrap s))
    {it : α} (h : PrintsItem print it s) (hs : Short (wrap s)) :
    Puts (printNested m fmt (print it)) [wrap s] := by
  obtain ⟨p, hp, hholds⟩ := h
  refine puts_nested hp hholds ⟨hfmt s, format_noNul (hfmt s) h0 fun u hu => ?_⟩ hs
  obtain rfl := List.mem_singleton.mp hu
  exact hholds.noNul

/-- The items after the first one, each behind a comma. -/
theorem puts_rest (h0 : 0 ∉ ascii fmt) (hfmt : ∀ s, Prints (Dump.printStr fmt [.str s]) (wrap s))
    (h : List.Forall₂ (PrintsItem print) items strs) (hs : ∀ s ∈ strs, Short (wrap s))
    (hcomma : ∀ j, i ≤ j → j < i + items.length → comma j = true) :
    Puts (printEach m comma fmt print i items) ((strs.map wrap).flatMap fun u => [[44], u]) := by
  induction h generalizing i with
  | nil => exact .nil
  | @cons it s items strs hit _ ih =>
    obtain ⟨ht, hus⟩ := List.forall_mem_cons.mp hs
    rw [List.length_cons] at hcomma
    have hsep : PrintsString (Dump.printStr "," []) [44] := ⟨rfl, by decide⟩
    have hrest := ih (i := i + 1) hus fun j hj hj' => hcomma j (by omega) (by omega)
    have hall := (puts_call (m := m) hsep (by decide)).bind
      ((puts_item (m := m) h0 hfmt hit ht).bind hrest)
    intro d n ts hd hroom
    obtain ⟨d', hop, hd'⟩ := hall d n ts hd hroom
    refine ⟨d', ?_, hd'⟩
    rw [printEach, hcomma i (Nat.le_refl i) (by omega), if_pos rfl]
    exact hop

/-- **A loop** prints its items with commas between them. -/
theorem puts_each (h0 : 0 ∉ ascii fmt) (hfmt : ∀ s, Prints (Dump.printStr fmt [.str s]) (wrap s))
    (h : List.Forall₂ (PrintsItem print) items strs) (hs : ∀ s ∈ strs, Short (wrap s))
    (hfirst : comma 0 = false) (hcomma : ∀ j, 1 ≤ j → j < items.length → comma j = true) :
    Puts (printEach m comma fmt print 0 items) ((strs.map wrap).intersperse [44]) := by
  cases h with
  | nil => exact .nil
  | @cons it s items strs hit hitems =>
    obtain ⟨ht, hus⟩ := List.forall_mem_cons.mp hs
    rw [List.length_cons] at hcomma
    have hrest := puts_rest (m := m) (i := 1) h0 hfmt hitems hus
      fun j hj hj' => hcomma j hj (by omega)
    have hall := (puts_item (m := m) h0 hfmt hit ht).bind hrest
    rw [List.map_cons, intersperse_cons]
    intro d n ts hd hroom
    obtain ⟨d', hop, hd'⟩ := hall d n ts hd hroom
    refine ⟨d', ?_, hd'⟩
    rw [printEach, hfirst, if_neg Bool.false_ne_true, ok_bind]
    exact hop

end Loop

/-! ### Joining them -/

/-- What is joined is appended in order, as long as there is room. -/
theorem joinFrom_spec (ts : List Text) (h : Collected d n (ts ++ us)) (hp : outp.Holds ts.flatten)
    (hsize : outp.size ≤ 2 ^ 32) :
    ((ts ++ us).flatten.length < outp.size →
      ∃ p, joinFrom d us.length ts.length outp (UInt32.ofNat ts.flatten.length) = .ok p ∧
        p.Holds (ts ++ us).flatten) ∧
    (outp.size ≤ (ts ++ us).flatten.length →
      joinFrom d us.length ts.length outp (UInt32.ofNat ts.flatten.length) =
        .error .undefined) := by
  induction us generalizing ts outp with
  | nil =>
    rw [List.append_nil]
    refine ⟨fun _ => ⟨outp, rfl, hp⟩, fun hle => ?_⟩
    have hlt : ts.flatten.length < outp.size := hp.lt
    omega
  | cons t us ih =>
    obtain ⟨str, hstr, hholds⟩ := h.getElem
    have hlt : ts.flatten.length < outp.size := hp.lt
    have hpos : (UInt32.ofNat ts.flatten.length).toNat = ts.flatten.length :=
      Nat.mod_eq_of_lt (hlt.trans_le hsize)
    have hsplit : ts ++ t :: us = (ts ++ [t]) ++ us := by simp
    have hflat : (ts ++ [t]).flatten = ts.flatten ++ t := by simp
    have htotal : (ts ++ t :: us).flatten.length =
        ts.flatten.length + t.length + us.flatten.length := by
      simp only [List.flatten_append, List.flatten_cons, List.length_append]
      omega
    have hstep : joinFrom d (us.length + 1) ts.length outp (UInt32.ofNat ts.flatten.length) =
        outp.strcat ts.flatten.length t >>= fun outp =>
          joinFrom d us.length (ts.length + 1) outp
            (UInt32.ofNat ts.flatten.length + UInt32.ofNat t.length) := by
      rw [joinFrom, hstr]
      show str.string >>= _ = _
      rw [hholds.string, ok_bind, hpos]
    rw [List.length_cons, hstep]
    by_cases hroom : ts.flatten.length + t.length < outp.size
    · obtain ⟨q, hq, hjoined, hqsize⟩ := hp.strcat hholds.noNul hroom
      have hnext := ih (ts ++ [t]) (hsplit ▸ h) (hflat.symm ▸ hjoined) (hqsize.symm ▸ hsize)
      rw [← hsplit, hflat, List.length_append, List.length_append, List.length_singleton,
        UInt32.ofNat_add, hqsize] at hnext
      rw [hq, ok_bind]
      exact hnext
    · rw [hp.strcat_full (Nat.not_lt.mp hroom)]
      exact ⟨fun hshort => by omega, fun _ => rfl⟩

/-- The block that is allocated for the strings is one of zeros. -/
theorem holds_zeros (hn : k < n) : Block.Holds ⟨Function.update (fun _ => 0) k 0, n⟩ [] :=
  Filled.nil (by simp) (by simpa using Nat.zero_lt_of_lt hn)

/-- **The strings are joined** if their length and the byte that ends them fit. -/
theorem dynStrToStr_short (h : Collected d n ts) (hs : ts.flatten.length + 1 < 2 ^ 32) :
    ∃ p, dynStrToStr m d = .ok (some p) ∧ p.Holds ts.flatten := by
  have hlen : d.len.toNat = ts.flatten.length := by
    rw [h.len]
    exact Nat.mod_eq_of_lt (by omega)
  have hsize : (d.len + 1).toNat = ts.flatten.length + 1 := by
    rw [UInt32.toNat_add, hlen]
    exact Nat.mod_eq_of_lt hs
  obtain ⟨p, hp, hholds⟩ := (joinFrom_spec [] h
    (holds_zeros (k := ts.flatten.length) (Nat.lt_succ_self _)) hs.le).1 (Nat.lt_succ_self _)
  refine ⟨p, ?_, hholds⟩
  rw [dynStrToStr, hsize, m.calloc_of_pos (Nat.succ_pos _), ifSome_some, hlen,
    decide_eq_true (Nat.lt_succ_self _), h.toNat_curPos]
  show joinFrom d ts.length 0 _ 0 >>= _ = _
  rw [show joinFrom d ts.length 0 _ 0 = .ok p from hp]
  rfl

/-- Otherwise there is no string. -/
theorem dynStrToStr_long (h : Collected d n ts) (hs : 2 ^ 32 ≤ ts.flatten.length + 1) :
    dynStrToStr m d ≠ .ok (some p) := by
  intro hrun
  rw [dynStrToStr] at hrun
  cases hcalloc : m.calloc (d.len + 1).toNat with
  | none =>
    rw [hcalloc] at hrun
    cases hrun
  | some q =>
    rw [hcalloc, ifSome_some] at hrun
    obtain rfl := Malloc.eq_of_calloc hcalloc
    obtain ⟨⟨⟩, hlt, hrun⟩ := bind_eq_ok.mp hrun
    have hlt : d.len.toNat < (d.len + 1).toNat := of_decide_eq_true (deref_eq_ok.mp hlt)
    have hle : (d.len + 1).toNat ≤ ts.flatten.length := by
      have hmod := Nat.mod_le ts.flatten.length (2 ^ 32)
      have hlen : d.len.toNat = ts.flatten.length % 2 ^ 32 := by
        rw [h.len]
        rfl
      have hadd : (d.len + 1).toNat = (d.len.toNat + 1) % 2 ^ 32 := UInt32.toNat_add ..
      omega
    have hfull := (joinFrom_spec [] h (holds_zeros hlt) (UInt32.toNat_lt _).le).2 hle
    rw [h.toNat_curPos] at hrun
    obtain ⟨q, hq, -⟩ := bind_eq_ok.mp hrun
    rw [show joinFrom d ts.length 0 _ 0 = _ from hfull] at hq
    cases hq

/-- **Strings that are put** into a `dyn_str` with an array for them are joined. -/
theorem Puts.join (h : Puts op us) (hlen : us.length ≤ n) (hn : n < 2 ^ 32)
    (hs : us.flatten.length + 1 < 2 ^ 32) :
    ∃ p, op (newDynStr n) >>= dynStrToStr m = .ok (some p) ∧ p.Holds us.flatten := by
  obtain ⟨d, hop, hd⟩ := h (newDynStr n) n [] (collected_new hn) (by simpa using hlen)
  rw [List.nil_append] at hd
  rw [hop, ok_bind]
  exact dynStrToStr_short hd hs

end DumpStrings

end Cagebreak
