/-
The strings in the text of `dump`.

* `joinedText_gives` — a joined text has a `%` if one of the strings has that are
  printed;
* `dumpText_gives` — the arrays have room for their strings as long as there is an
  output, and a `%` in the text is one of the data.
-/
import Cagebreak.Dump

namespace Cagebreak

namespace Dump

open Exec Printf

variable {n nws : ℕ} {bs : Bool} {fmt : String} {args : List PrintArg} {strs l : List Text}
  {calls calls' : List (Text × List PrintArg)}

/-! ### The strings that are printed -/

def View.texts (bs : Bool) (view : View) : List Text := if bs then [view.title.getD []] else []

def Workspace.texts (bs : Bool) (ws : Workspace) : List Text := ws.views.flatMap (View.texts bs)

def Output.texts (bs : Bool) (nws : ℕ) (outp : Output) : List Text :=
  outp.name :: (outp.printed nws).flatMap (Workspace.texts bs)

def KeyboardGroup.texts (grp : KeyboardGroup) : List Text := grp.identifier.toList

def InputDev.texts (dev : InputDev) : List Text := dev.identifier.toList

/-- The names of the modes and of the outputs, the font of the messages, the
identifiers of the input devices, and with `--bs` the titles of the views. -/
def Server.texts (server : Server) : List Text :=
  server.currOutput :: server.messageConfig.font :: server.modes ++
    server.outputs.flatMap (Output.texts server.bs server.nws) ++
    server.keyboardGroups.flatMap KeyboardGroup.texts ++
    server.inputDevices.flatMap InputDev.texts

/-- The arrays of the outputs have the workspaces that are printed. -/
def Server.Complete (server : Server) : Prop :=
  ∀ outp ∈ server.outputs, server.nws ≤ outp.workspaces.length

instance (server : Server) : Decidable server.Complete :=
  inferInstanceAs (Decidable (∀ outp ∈ server.outputs, _))

/-! ### Joined strings -/

/-- The strings among the arguments of the calls. -/
def printed (calls : List (Text × List PrintArg)) : List Text :=
  calls.flatMap fun call => strings call.2

/-- The formats fit their arguments. -/
def Fit (calls : List (Text × List PrintArg)) : Prop :=
  ∀ call ∈ calls, fits call.1 (call.2.map kind) = true

theorem Fit.nil : Fit [] := fun _ hmem => absurd hmem List.not_mem_nil

theorem Fit.cons (kinds : List Kind) (hfmt : fits (ascii fmt) kinds = true)
    (hargs : args.map kind = kinds) (h : Fit calls) : Fit (printStr fmt args :: calls) := by
  intro call hmem
  obtain rfl | hmem := List.mem_cons.mp hmem
  · rw [← hargs] at hfmt
    exact hfmt
  · exact h call hmem

theorem Fit.append (h : Fit calls) (h' : Fit calls') : Fit (calls ++ calls') := by
  intro call hmem
  obtain hmem | hmem := List.mem_append.mp hmem
  · exact h call hmem
  · exact h' call hmem

/-- Texts of which each has a `%` exactly if one of its strings has. -/
theorem marked_of_forall₂ {α : Type} {texts : α → List Text} {as : List α}
    (h : List.Forall₂ (fun a t => percent ∈ t ↔ Marked (texts a)) as l) :
    Marked l ↔ Marked (as.flatMap texts) := by
  induction h with
  | nil => rfl
  | cons hd _ ih => rw [marked_cons, List.flatMap_cons, marked_append, hd, ih]

theorem percent_mem_flatten : percent ∈ l.flatten ↔ Marked l := by
  rw [List.mem_flatten]
  rfl

/-- What `dyn_str_to_str` returns. -/
theorem joinedText_gives (hlen : calls.length ≤ n) (hfit : Fit calls) :
    Gives (joinedText n calls) fun t => percent ∈ t ↔ Marked (printed calls) := by
  refine Gives.deref (decide_eq_true hlen) ?_
  refine Gives.bind (Gives.mapM fun call hmem => format_fits (hfit call hmem)) ?_
  intro arr harr
  refine Gives.ok ?_
  rw [percent_mem_flatten]
  exact marked_of_forall₂ harr

/-! ### Loops -/

theorem length_intersperse {α : Type} (sep : α) (l : List α) :
    (l.intersperse sep).length = 2 * l.length - 1 := by
  induction l with
  | nil => rfl
  | cons a l ih =>
    cases l with
    | nil => rfl
    | cons b l =>
      rw [List.intersperse_cons_cons, List.length_cons, List.length_cons, ih]
      simp only [List.length_cons]
      omega

theorem length_separated : (separated fmt strs).length = 2 * strs.length - 1 := by
  rw [separated, length_intersperse, List.length_map]

theorem separated_cons_cons (s s' : Text) : separated fmt (s :: s' :: strs) =
    printStr fmt [.str s] :: printStr "," [] :: separated fmt (s' :: strs) := rfl

theorem fit_separated (hfmt : fits (ascii fmt) [.str] = true) : Fit (separated fmt strs) := by
  induction strs with
  | nil => exact .nil
  | cons s strs ih =>
    cases strs with
    | nil => exact .cons [.str] hfmt rfl .nil
    | cons s' strs =>
      rw [separated_cons_cons]
      exact .cons [.str] hfmt rfl (.cons [] (by decide) rfl ih)

theorem printed_separated : printed (separated fmt strs) = strs := by
  induction strs with
  | nil => rfl
  | cons s strs ih =>
    cases strs with
    | nil => rfl
    | cons s' strs =>
      rw [separated_cons_cons]
      show s :: printed (separated fmt (s' :: strs)) = _
      rw [ih]

/-- A loop between two strings without arguments. -/
theorem enclosed_gives {first last : String} (hlen : 2 * strs.length - 1 + 2 ≤ n)
    (hfmt : fits (ascii fmt) [.str] = true) (hfirst : fits (ascii first) [] = true)
    (hlast : fits (ascii last) [] = true) :
    Gives (joinedText n (printStr first [] :: separated fmt strs ++ [printStr last []])) fun t =>
      percent ∈ t ↔ Marked strs := by
  refine (joinedText_gives ?_ ?_).mono ?_
  · simp only [List.cons_append, List.length_cons, List.length_append, List.length_nil,
      length_separated]
    omega
  · exact .cons [] hfirst rfl ((fit_separated hfmt).append (.cons [] hlast rfl .nil))
  · intro t ht
    rw [ht, printed, List.flatMap_append, List.flatMap_cons]
    show Marked ([] ++ printed (separated fmt strs) ++ []) ↔ _
    rw [printed_separated, List.nil_append, List.append_nil]

/-! ### The parts of the text -/

theorem viewText_gives (view : View) :
    Gives (viewText bs view) fun t => percent ∈ t ↔ Marked (view.texts bs) := by
  have htype : percent ∉ (if view.xwayland then ascii "xwayland" else ascii "xdg") := by
    cases view.xwayland <;> decide
  cases bs with
  | true =>
    refine (joinedText_gives (Nat.le_refl _) ?_).mono fun t ht => ht.trans ?_
    · exact .cons [.int] rfl rfl <| .cons [.int] rfl rfl <|
        .cons [.str] rfl rfl <| .cons [.int, .int] rfl rfl <|
        .cons [.str] rfl rfl .nil
    · show Marked (_ :: _ :: []) ↔ Marked (_ :: [])
      rw [marked_cons, marked_cons, marked_cons]
      exact or_congr_right (by simp [htype])
  | false =>
    refine (joinedText_gives (Nat.le_succ _) ?_).mono fun t ht => ht.trans ?_
    · exact .cons [.int] rfl rfl <| .cons [.int] rfl rfl <|
        .cons [.int, .int] rfl rfl <| .cons [.str] rfl rfl .nil
    · show Marked (_ :: []) ↔ Marked []
      rw [marked_cons]
      exact or_iff_right htype

theorem tileText_gives (tile : Tile) :
    Gives (tileText tile) fun t => percent ∈ t ↔ Marked [] := by
  refine (joinedText_gives (Nat.le_refl _) ?_).mono fun t ht => ht
  exact .cons [.int] rfl rfl <| .cons [.int, .int] rfl rfl <|
    .cons [.int, .int] rfl rfl <| .cons [.int] rfl rfl .nil

theorem viewsText_gives (ws : Workspace) :
    Gives (viewsText bs ws) fun t => percent ∈ t ↔ Marked (ws.texts bs) := by
  rw [viewsText]
  by_cases hnil : ws.views = []
  · rw [if_pos hnil]
    refine Gives.ok ?_
    rw [Workspace.texts, hnil]
    exact iff_of_false (by decide) marked_nil
  · rw [if_neg hnil]
    refine Gives.bind (Gives.mapM fun view _ => viewText_gives view) fun strs hstrs => ?_
    refine (joinedText_gives ?_ (fit_separated rfl)).mono fun t ht => ?_
    · rw [length_separated, hstrs.length_eq]
    · rw [ht, printed_separated]
      exact marked_of_forall₂ hstrs

theorem tilesText_gives (ws : Workspace) : Gives (tilesText ws) fun t => percent ∉ t := by
  rw [tilesText]
  refine Gives.bind (Gives.mapM fun tile _ => tileText_gives tile) fun strs hstrs => ?_
  refine (joinedText_gives ?_ (fit_separated rfl)).mono fun t ht => ?_
  · rw [length_separated, hstrs.length_eq]
  · rw [ht, printed_separated, marked_of_forall₂ hstrs]
    rintro ⟨s, hs, -⟩
    obtain ⟨tile, -, hs⟩ := List.mem_flatMap.mp hs
    cases hs

theorem workspaceText_gives (ws : Workspace) :
    Gives (workspaceText bs ws) fun t => percent ∈ t ↔ Marked (ws.texts bs) := by
  refine Gives.bind (viewsText_gives ws) fun views hviews => ?_
  refine Gives.bind (tilesText_gives ws) fun tiles htiles => ?_
  refine (joinedText_gives (Nat.le_refl _) ?_).mono fun t ht => ht.trans ?_
  · exact .cons [] rfl rfl <| .cons [.str] rfl rfl <|
      .cons [] rfl rfl <| .cons [] rfl rfl <|
      .cons [.str] rfl rfl <| .cons [] rfl rfl .nil
  · show Marked (views :: tiles :: []) ↔ _
    rw [marked_cons, marked_cons, hviews]
    exact or_iff_left (by simp [htiles])

theorem length_printed {outp : Output} (hws : nws ≤ outp.workspaces.length) :
    (outp.printed nws).length = nws :=
  List.length_take_of_le hws

theorem length_printed_le (nws : ℕ) (outp : Output) : (outp.printed nws).length ≤ nws :=
  List.length_take_le _ _

theorem workspacesText_gives (hn : 1 ≤ nws) (outp : Output) :
    Gives (workspacesText bs nws outp) fun t =>
      percent ∈ t ↔ Marked ((outp.printed nws).flatMap (Workspace.texts bs)) := by
  refine Gives.bind (Gives.mapM fun ws _ => workspaceText_gives ws) fun strs hstrs => ?_
  refine (enclosed_gives ?_ rfl rfl rfl).mono fun t ht => ?_
  · have hlen := hstrs.length_eq
    have hle := length_printed_le nws outp
    omega
  · rw [ht]
    exact marked_of_forall₂ hstrs

theorem outputText_gives (hn : 1 ≤ nws) (outp : Output) :
    Gives (outputText bs nws outp) fun t => percent ∈ t ↔ Marked (outp.texts bs nws) := by
  refine Gives.bind (workspacesText_gives hn outp) fun workspaces hworkspaces => ?_
  refine (joinedText_gives (Nat.le_refl _) ?_).mono fun t ht => ht.trans ?_
  · exact .cons [.str] rfl rfl <| .cons [.int] rfl rfl <|
      .cons [.int, .int] rfl rfl <| .cons [.int, .int] rfl rfl <|
      .cons [.double] rfl rfl <| .cons [.int] rfl rfl <|
      .cons [.int] rfl rfl <| .cons [.int] rfl rfl <|
      .cons [.str] rfl rfl <| .cons [] rfl rfl .nil
  · show Marked (outp.name :: workspaces :: []) ↔ Marked (outp.name :: _)
    rw [marked_cons, marked_cons, marked_cons, hworkspaces]
    exact or_congr_right (or_iff_left marked_nil)

/-- The array of `print_outputs` has room for its strings if there is an output. -/
theorem outputsText_gives (server : Server) (hne : server.outputs ≠ []) :
    Gives (outputsText server) fun t =>
      percent ∈ t ↔ Marked (server.outputs.flatMap (Output.texts server.bs server.nws)) := by
  refine Gives.bind (Gives.mapM fun outp _ => outputText_gives server.nws_pos outp) ?_
  intro strs hstrs
  have hpos := List.length_pos_iff.mpr hne
  refine (enclosed_gives ?_ rfl rfl rfl).mono fun t ht => ?_
  · have hlen := hstrs.length_eq
    omega
  · rw [ht]
    exact marked_of_forall₂ hstrs

theorem printIdentifier_cons {identifier : Option Text} (h : Fit calls) :
    Fit (printIdentifier identifier :: calls) ∧
      printed (printIdentifier identifier :: calls) = identifier.toList ++ printed calls := by
  cases identifier with
  | none => exact ⟨.cons [] rfl rfl h, rfl⟩
  | some identifier => exact ⟨.cons [.str] rfl rfl h, rfl⟩

theorem keyboardGroupText_gives (grp : KeyboardGroup) :
    Gives (keyboardGroupText grp) fun t => percent ∈ t ↔ Marked grp.texts := by
  have hfit : Fit [printStr "\"commands_enabled\": %d,\n" [flag grp.enableKeybindings],
      printStr "\"repeat_delay\": %d,\n" [.int grp.repeatDelay],
      printStr "\"repeat_rate\": %d\n" [.int grp.repeatRate], printStr "\x7d" []] :=
    .cons [.int] rfl rfl <| .cons [.int] rfl rfl <|
      .cons [.int] rfl rfl <| .cons [] rfl rfl .nil
  obtain ⟨hfit, hprinted⟩ := @printIdentifier_cons _ grp.identifier hfit
  refine (joinedText_gives (Nat.le_refl _) hfit).mono fun t ht => ht.trans ?_
  rw [hprinted, marked_append]
  exact or_iff_left marked_nil

theorem keyboardGroupsText_gives (server : Server) :
    Gives (keyboardGroupsText server) fun t =>
      percent ∈ t ↔ Marked (server.keyboardGroups.flatMap KeyboardGroup.texts) := by
  refine Gives.bind (Gives.mapM fun grp _ => keyboardGroupText_gives grp) fun strs hstrs => ?_
  refine (enclosed_gives ?_ rfl rfl rfl).mono fun t ht => ?_
  · have hlen := hstrs.length_eq
    omega
  · rw [ht]
    exact marked_of_forall₂ hstrs

theorem percent_notMem_deviceType (type : Option WlrInputDeviceType) :
    percent ∉ deviceType type := by
  cases type with
  | none => decide
  | some type => cases type <;> decide

theorem inputDeviceText_gives (dev : InputDev) :
    Gives (inputDeviceText dev) fun t => percent ∈ t ↔ Marked dev.texts := by
  have hfit : Fit [printStr "\"is_virtual\": %d,\n" [flag dev.isVirtual],
      printStr "\"type\": \"%s\"\n" [.str (deviceType dev.type)], printStr "\x7d" []] :=
    .cons [.int] rfl rfl <| .cons [.str] rfl rfl <|
      .cons [] rfl rfl .nil
  obtain ⟨hfit, hprinted⟩ := @printIdentifier_cons _ dev.identifier hfit
  refine (joinedText_gives (Nat.le_refl _) hfit).mono fun t ht => ht.trans ?_
  rw [hprinted, marked_append]
  show Marked _ ∨ Marked [deviceType dev.type] ↔ _
  rw [marked_cons]
  exact or_iff_left (by simp [percent_notMem_deviceType])

theorem inputDevicesText_gives (server : Server) :
    Gives (inputDevicesText server) fun t =>
      percent ∈ t ↔ Marked (server.inputDevices.flatMap InputDev.texts) := by
  refine Gives.bind (Gives.mapM fun dev _ => inputDeviceText_gives dev) fun strs hstrs => ?_
  refine (enclosed_gives ?_ rfl rfl rfl).mono fun t ht => ?_
  · have hlen := hstrs.length_eq
    omega
  · rw [ht]
    exact marked_of_forall₂ hstrs

theorem anchor_cons (anchor : MessageAnchor) (h : Fit calls) : Fit (anchor.text :: calls) ∧
    printed (anchor.text :: calls) = printed calls := by
  cases anchor <;> exact ⟨.cons [] rfl rfl h, rfl⟩

theorem messageConfText_gives (config : MessageConfig) :
    Gives (messageConfText config) fun t => percent ∈ t ↔ percent ∈ config.font := by
  obtain ⟨hfit, hprinted⟩ := anchor_cons config.anchor
    (.cons [] rfl rfl .nil : Fit [printStr "\x7d" []])
  refine (joinedText_gives (Nat.le_refl _) ?_).mono fun t ht => ht.trans ?_
  · exact .cons [] rfl rfl <| .cons [.str] rfl rfl <|
      .cons [.int] rfl rfl <|
      .cons [.double, .double, .double, .double] rfl rfl <|
      .cons [.double, .double, .double, .double] rfl rfl <|
      .cons [.int] rfl rfl hfit
  · show Marked (config.font :: printed (config.anchor.text :: _)) ↔ _
    rw [hprinted, marked_cons]
    exact or_iff_left marked_nil

/-! ### The text -/

/-- The strings that `print_modes` prints. -/
theorem modesCalls_spec (modes : List Text) : Fit (modesCalls modes) ∧
    (modesCalls modes).length ≤ 1 ∧ (Marked (printed (modesCalls modes)) ↔ Marked modes) := by
  rw [modesCalls]
  by_cases hnil : modes = []
  · rw [if_pos hnil, hnil]
    exact ⟨.nil, Nat.zero_le _, Iff.rfl⟩
  · rw [if_neg hnil]
    refine ⟨.cons [.str] rfl rfl .nil, Nat.le_refl _, ?_⟩
    show Marked ((modes.intersperse (ascii "\",\"")).flatten :: []) ↔ _
    rw [marked_cons, or_iff_left marked_nil, percent_mem_flatten]
    clear hnil
    induction modes with
    | nil => rfl
    | cons mode modes ih =>
      cases modes with
      | nil => rfl
      | cons mode' modes =>
        have hsep : percent ∉ ascii "\",\"" := by decide
        rw [List.intersperse_cons_cons, marked_cons, marked_cons, ih]
        exact (or_congr_right (or_iff_right hsep)).trans marked_cons.symm

theorem getModeName_percent {modes : List Text} {i : ℕ} (h : percent ∈ getModeName modes i) :
    Marked modes := by
  rw [getModeName] at h
  cases hget : modes[i]? with
  | none =>
    rw [hget] at h
    exact absurd h (by decide)
  | some mode =>
    rw [hget] at h
    exact ⟨mode, List.mem_of_getElem? hget, h⟩

/-- **The text that is assembled.** -/
theorem dumpText_gives (server : Server) (hne : server.outputs ≠ []) :
    Gives (dumpText server) fun t => percent ∈ t ↔ Marked server.texts := by
  refine Gives.bind (messageConfText_gives _) fun message hmessage => ?_
  refine Gives.bind (outputsText_gives server hne) fun outps houtps => ?_
  refine Gives.bind (keyboardGroupsText_gives server) fun keyboards hkeyboards => ?_
  refine Gives.bind (inputDevicesText_gives server) fun inputDevs hinputDevs => ?_
  obtain ⟨hfit, hlen, hmodes⟩ := modesCalls_spec server.modes
  refine (joinedText_gives ?_ ?_).mono fun t ht => ht.trans ?_
  · simp only [List.cons_append, List.nil_append, List.length_cons, List.length_append,
      List.length_nil]
    omega
  · refine (Fit.append ?_ hfit).append ?_
    · exact .cons [] rfl rfl <| .cons [.int] rfl rfl <|
        .cons [.double, .double, .double] rfl rfl <|
        .cons [.int] rfl rfl <| .cons [.int] rfl rfl <|
        .cons [.str] rfl rfl <| .cons [.str] rfl rfl .nil
    · exact .cons [.str] rfl rfl <| .cons [.str] rfl rfl <|
        .cons [.str] rfl rfl <| .cons [.str] rfl rfl <|
        .cons [.double, .double] rfl rfl <| .cons [] rfl rfl .nil
  · rw [printed, List.flatMap_append, List.flatMap_append, marked_append, marked_append]
    show (Marked (server.currOutput :: getModeName server.modes server.defaultMode :: []) ∨
      Marked (printed _)) ∨ Marked (message :: outps :: keyboards :: inputDevs :: []) ↔ _
    simp only [Server.texts, hmodes, marked_append, marked_cons, hmessage, houtps, hkeyboards,
      hinputDevs, marked_nil, or_false]
    constructor
    · rintro (((h | h) | h) | h | h | h | h)
      · exact Or.inl (Or.inl (Or.inl (Or.inl h)))
      · exact Or.inl (Or.inl (Or.inl (Or.inr (Or.inr (getModeName_percent h)))))
      · exact Or.inl (Or.inl (Or.inl (Or.inr (Or.inr h))))
      · exact Or.inl (Or.inl (Or.inl (Or.inr (Or.inl h))))
      · exact Or.inl (Or.inl (Or.inr h))
      · exact Or.inl (Or.inr h)
      · exact Or.inr h
    · rintro ((((h | h | h) | h) | h) | h)
      · exact Or.inl (Or.inl (Or.inl h))
      · exact Or.inr (Or.inl h)
      · exact Or.inl (Or.inr h)
      · exact Or.inr (Or.inr (Or.inl h))
      · exact Or.inr (Or.inr (Or.inr (Or.inl h)))
      · exact Or.inr (Or.inr (Or.inr (Or.inr h)))

/-- A server with one output, on which nothing is shown, and these modes. -/
def plainServer (modes : List Text) : Server where
  nws := 1
  nws_pos := Nat.le_refl 1
  bs := false
  bgColor := #v[.fin 0, .fin 0, .fin 0]
  focus := none
  currOutput := ascii "A"
  modes := modes
  defaultMode := 0
  messageConfig := {
    font := ascii "pango:Monospace 10"
    displayTime := 2
    bgColor := #v[.fin 0, .fin 0, .fin 0, .fin 1]
    fgColor := #v[.fin 1, .fin 1, .fin 1, .fin 1]
    enabled := 1
    anchor := .topRight }
  outputs := [{
    name := ascii "A"
    priority := 0
    x := 0
    y := 0
    width := 800
    height := 600
    refreshRate := 60
    permanent := false
    destroyed := false
    currWorkspace := 0
    workspaces := [⟨[], ⟨1, 0, 0, 800, 600, none⟩, []⟩] }]
  keyboardGroups := []
  inputDevices := []
  cursorX := 0
  cursorY := 0

end Dump

end Cagebreak
