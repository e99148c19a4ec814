/-
The events that carry a string.

An event is formatted with `%s`, which prints a string as it is.

* `parse_carried_iff` — for which strings the text of an event is the JSON object that is
  meant, with these strings in their places and no other member;
* `event_json` — when the payload is that text and that object.
-/
import Cagebreak.DumpPayload

namespace Cagebreak

open Exec Printf Json Dump DumpStrings

/-- `keybinding_send_custom_event`. -/
def keybindingSendCustomEvent (m : Malloc) (msg : Text) : Exec (Option Text) :=
  ipcSendEvent m (ascii "\x7b\"event_name\":\"custom_event\",\"message\":\"%s\"\x7d") [.str msg]

/-- `keybinding_definemode`: the modes, and the event. -/
def keybindingDefinemode (m : Malloc) (modes : List Text) (mode : Text) :
    List Text × Exec (Option Text) :=
  (modes ++ [mode],
    ipcSendEvent m (ascii "\x7b\"event_name\":\"definemode\",\"mode\":\"%s\"\x7d") [.str mode])

/-- The event of `KEYBINDING_SWITCH_DEFAULT_MODE` in `run_action`. -/
def switchDefaultMode (m : Malloc) (modes : List Text) (defaultMode u : ℕ) :
    Exec (Option Text) :=
  ipcSendEvent m
    (ascii "\x7b\"event_name\":\"switch_default_mode\",\"old_mode\":\"%s\",\"mode\":\"%s\"\x7d")
    [.str (getModeName modes defaultMode), .str (getModeName modes u)]

/-- The event of `keybinding_configure_input`. -/
def configureInput (m : Malloc) (identifier : Text) : Exec (Option Text) :=
  ipcSendEvent m (ascii "\x7b\"event_name\":\"configure_input\",\"input\":\"%s\"\x7d")
    [.str identifier]

/-- The events that carry a string from a command line, a device or a client. -/
inductive StringEvent
  | customEvent (msg : Text)
  | definemode (modes : List Text) (mode : Text)
  | switchDefaultMode (modes : List Text) (defaultMode u : ℕ)
  | configureInput (identifier : Text)
  | dump (server : Server)

namespace StringEvent

/-- What is sent. -/
def payload (m : Malloc) : StringEvent → Exec (Option Text)
  | customEvent msg => keybindingSendCustomEvent m msg
  | definemode modes mode => (keybindingDefinemode m modes mode).2
  | switchDefaultMode modes defaultMode u => Cagebreak.switchDefaultMode m modes defaultMode u
  | configureInput identifier => Cagebreak.configureInput m identifier
  | dump server => keybindingDump m server

/-- The strings that are carried. -/
def carried : StringEvent → List Text
  | customEvent msg => [msg]
  | definemode _ mode => [mode]
  | switchDefaultMode modes defaultMode u =>
    [getModeName modes defaultMode, getModeName modes u]
  | configureInput identifier => [identifier]
  | dump server => server.texts

/-- The text of an event with further members. -/
def eventText (name : String) (u : Text) : Text :=
  123 :: (((named (ascii "event_name") (quoted (ascii name)) ++ [44]) ++ u) ++ [125])

/-- The text that is to be sent. -/
def text : StringEvent → Exec Text
  | customEvent msg => .ok (eventText "custom_event" (named (ascii "message") (quoted msg)))
  | definemode _ mode => .ok (eventText "definemode" (named (ascii "mode") (quoted mode)))
  | switchDefaultMode modes defaultMode u =>
    .ok (eventText "switch_default_mode"
      ((named (ascii "old_mode") (quoted (getModeName modes defaultMode)) ++ [44]) ++
        named (ascii "mode") (quoted (getModeName modes u))))
  | configureInput identifier =>
    .ok (eventText "configure_input" (named (ascii "input") (quoted identifier)))
  | dump server => dumpText server

/-- An `int` counts the bytes of the text. -/
def Counted (e : StringEvent) : Prop := ∀ T, e.text = .ok T → Short T

/-- The object that is meant. -/
def object : StringEvent → Json
  | customEvent msg =>
    .obj [(ascii "event_name", .str (ascii "custom_event")), (ascii "message", .str msg)]
  | definemode _ mode =>
    .obj [(ascii "event_name", .str (ascii "definemode")), (ascii "mode", .str mode)]
  | switchDefaultMode modes defaultMode u =>
    .obj [(ascii "event_name", .str (ascii "switch_default_mode")),
      (ascii "old_mode", .str (getModeName modes defaultMode)),
      (ascii "mode", .str (getModeName modes u))]
  | configureInput identifier =>
    .obj [(ascii "event_name", .str (ascii "configure_input")), (ascii "input", .str identifier)]
  | dump server => dumpJson server

/-- No character of the strings has to be escaped; for `dump` also, that there is
an output, that the arrays of the outputs have the workspaces, that the colours are
numbers, and that no string has a `%`. -/
def Escapeless : StringEvent → Prop
  | dump server => server.outputs ≠ [] ∧ server.Complete ∧ Dump.Clean (percent ∉ ·) server
  | e => ∀ s ∈ e.carried, Plain s

variable {name k : String} {t u : Text} {as : List (Text × Json)} {ok : Prop} {n : ℕ}

theorem reads_member (hk : Known k) (s : Text) :
    Reads Eq (member (value (n + 1))) (named (ascii k) (quoted s)) (ascii k, .str s) (Plain s) :=
  (Reads.key channel_eq hk (reads_quoted channel_eq n s)).congr (and_iff_left trivial)

/-- **Reading an event** is reading its further members. -/
theorem parse_event (hname : Known name)
    (hs : ∀ n, ReadsItems Eq (member (value (n + 1))) 125 u as ok) :
    parse (eventText name u) =
      some (.obj ((ascii "event_name", .str (ascii name)) :: as)) ↔ ok := by
  refine parse_iff (d := 2) channel_eq (fun n => ?_) rfl ?_
  · have hevent := Reads.key channel_eq (k := ascii "event_name") (by decide)
      (reads_literal channel_eq n hname)
    have hitems := (ReadsItems.comma channel_eq hevent (hs n)).congr (iff_of_eq (true_and _))
    exact Reads.obj channel_eq (Reads.listOf member_refuses (List.cons_ne_nil _ _) hitems)
  · rw [eventText, List.length_cons]
    omega

/-- An event with one string. -/
theorem parse_event_one (hname : Known name) (hk : Known k) (s : Text) :
    parse (eventText name (named (ascii k) (quoted s))) =
      some (.obj [(ascii "event_name", .str (ascii name)), (ascii k, .str s)]) ↔ Plain s :=
  parse_event hname fun _ => ReadsItems.last channel_eq (Or.inr rfl) (reads_member hk s)

/-- An event with two strings. -/
theorem parse_event_two {l : String} (hname : Known name) (hk : Known k) (hl : Known l)
    (s s' : Text) :
    parse (eventText name ((named (ascii k) (quoted s) ++ [44]) ++ named (ascii l) (quoted s'))) =
      some (.obj [(ascii "event_name", .str (ascii name)), (ascii k, .str s), (ascii l, .str s')]) ↔
      Plain s ∧ Plain s' :=
  parse_event hname fun _ => ReadsItems.comma channel_eq (reads_member hk s)
    (ReadsItems.last channel_eq (Or.inr rfl) (reads_member hl s'))

variable {m : Malloc} {e : StringEvent} {T y : Text}

/-- **The text of an event** other than `dump` is read as the object that is meant exactly
when no character of its strings has to be escaped. -/
theorem parse_carried_iff (hd : ∀ server, e ≠ dump server) (hT : e.text = .ok T) :
    parse T = some e.object ↔ e.Escapeless := by
  cases e with
  | customEvent msg =>
    obtain rfl := Except.ok.inj hT
    exact (parse_event_one (by decide) (by decide) msg).trans List.forall_mem_singleton.symm
  | definemode modes mode =>
    obtain rfl := Except.ok.inj hT
    exact (parse_event_one (by decide) (by decide) mode).trans List.forall_mem_singleton.symm
  | switchDefaultMode modes defaultMode u =>
    obtain rfl := Except.ok.inj hT
    refine (parse_event_two (by decide) (by decide) (by decide) _ _).trans ?_
    simp [Escapeless, carried]
  | configureInput identifier =>
    obtain rfl := Except.ok.inj hT
    exact (parse_event_one (by decide) (by decide) identifier).trans
      List.forall_mem_singleton.symm
  | dump server => exact absurd rfl (hd server)

/-- Such an event is formatted once. -/
theorem exists_format (m : Malloc) (hd : ∀ server, e ≠ dump server) : ∃ fmt args,
    e.payload m = ipcSendEvent m fmt args ∧ 0 ∉ fmt ∧ strings args = e.carried ∧
      format fmt args = e.text := by
  cases e with
  | customEvent msg =>
    refine ⟨_, _, rfl, by decide, rfl, ?_⟩
    simp only [text, eventText, named_append, quoted_append, List.append_assoc,
      List.cons_append, List.nil_append]
    rfl
  | definemode modes mode =>
    refine ⟨_, _, rfl, by decide, rfl, ?_⟩
    simp only [text, eventText, named_append, quoted_append, List.append_assoc,
      List.cons_append, List.nil_append]
    rfl
  | switchDefaultMode modes defaultMode u =>
    refine ⟨_, _, rfl, by decide, rfl, ?_⟩
    simp only [text, eventText, named_append, quoted_append, List.append_assoc,
      List.cons_append, List.nil_append]
    rfl
  | configureInput identifier =>
    refine ⟨_, _, rfl, by decide, rfl, ?_⟩
    simp only [text, eventText, named_append, quoted_append, List.append_assoc,
      List.cons_append, List.nil_append]
    rfl
  | dump server => exact absurd rfl (hd server)

theorem payload_eq_some_iff (hd : ∀ server, e ≠ dump server) (h0 : ∀ s ∈ e.carried, 0 ∉ s) :
    e.payload m = .ok (some y) ↔ e.text = .ok y ∧ Short y := by
  obtain ⟨fmt, args, hpayload, hfmt, hargs, htext⟩ := exists_format m hd
  rw [hpayload, ← htext]
  rw [← hargs] at h0
  exact ipcSendEvent_eq_some_iff hfmt h0

/-- **What is sent is read** as the object that is meant exactly when no character has to be
escaped, if an `int` counts the text. -/
theorem payload_reads_iff (h0 : ∀ s ∈ e.carried, 0 ∉ s) (hcounted : e.Counted) :
    (∃ y, e.payload m = .ok (some y) ∧ parse y = some e.object) ↔ e.Escapeless := by
  by_cases hd : ∀ server, e ≠ dump server
  · have hT : ∃ T, e.text = .ok T := by
      cases e with
      | dump server => exact absurd rfl (hd server)
      | _ => exact ⟨_, rfl⟩
    obtain ⟨T, hT⟩ := hT
    rw [← parse_carried_iff hd hT]
    constructor
    · rintro ⟨y, hy, hparse⟩
      obtain ⟨hy, -⟩ := (payload_eq_some_iff hd h0).mp hy
      obtain rfl := Except.ok.inj (hT.symm.trans hy)
      exact hparse
    · intro hparse
      exact ⟨T, (payload_eq_some_iff hd h0).mpr ⟨hT, hcounted T hT⟩, hparse⟩
  · rw [not_forall_not] at hd
    obtain ⟨server, rfl⟩ := hd
    constructor
    · rintro ⟨y, hy, hparse⟩
      obtain ⟨hne, hcomplete⟩ := complete_of_keybindingDump hy
      obtain ⟨T, hT, -⟩ := dumpText_gives server hne
      -- the text is the format of a second call
      have hformat := (keybindingDump_eq_some_iff hne hcomplete h0 hT (hcounted T hT)).mp hy
      exact ⟨hne, hcomplete,
        (parse_dumpText_iff channel_format hne hcomplete hT hformat).mp hparse⟩
    · rintro ⟨hne, hcomplete, hclean⟩
      obtain ⟨T, hT, -⟩ := dumpText_gives server hne
      have hdump := (keybindingDump_text_iff m h0 hT).mpr
        ⟨hne, hcomplete, fun s hs => (hclean.strings s hs).2, hcounted⟩
      have hformat :=
        (keybindingDump_eq_some_iff hne hcomplete h0 hT (hcounted T hT)).mp hdump
      exact ⟨T, hdump,
        (parse_dumpText_iff channel_format hne hcomplete hT hformat).mpr hclean⟩

/-- The text itself is sent then. -/
theorem payload_text (h0 : ∀ s ∈ e.carried, 0 ∉ s) (hcounted : e.Counted)
    (hok : e.Escapeless) : ∃ T, e.text = .ok T ∧ e.payload m = .ok (some T) := by
  by_cases hd : ∀ server, e ≠ dump server
  · obtain ⟨y, hy, -⟩ := (payload_reads_iff (m := m) h0 hcounted).mpr hok
    exact ⟨y, ((payload_eq_some_iff hd h0).mp hy).1, hy⟩
  · rw [not_forall_not] at hd
    obtain ⟨server, rfl⟩ := hd
    obtain ⟨hne, hcomplete, hclean⟩ := hok
    obtain ⟨T, hT, -⟩ := dumpText_gives server hne
    exact ⟨T, hT, (keybindingDump_text_iff m h0 hT).mpr
      ⟨hne, hcomplete, fun s hs => (hclean.strings s hs).2, hcounted⟩⟩

/-- An `int` counts what is sent. -/
theorem short_of_payload (h0 : ∀ s ∈ e.carried, 0 ∉ s) (h : e.payload m = .ok (some y)) :
    Short y := by
  by_cases hd : ∀ server, e ≠ dump server
  · exact ((payload_eq_some_iff hd h0).mp h).2
  · rw [not_forall_not] at hd
    obtain ⟨server, rfl⟩ := hd
    obtain ⟨-, -, -, -, -, hs⟩ := exists_of_keybindingDump h
    exact hs

end StringEvent

end Cagebreak
