/-
The `print_*` functions of `dump` in memory.

They are written once more, with the arrays of their `dyn_str` and the numbers of
32 bits that size them.  As long as an `int` counts the bytes of the text, each of
them prints what the function of the same name in `Cagebreak.Dump` does:

* `separated_string`, `enclosed_string` — the loops;
* `printView_string`, `printOutput_string` and the others — the functions.
-/
import Cagebreak.DynStr

namespace Cagebreak

namespace DumpStrings

open Buffer Block Exec Printf Dump

variable (m : Malloc)

/-! ### The source -/

/-- `wl_list_length`, an `int`. -/
def wlListLength {α : Type} (l : List α) : Exec UInt32 := do
  deref (decide (l.length < 2 ^ 31))
  .ok (UInt32.ofNat l.length)

/-- `count != 0`. -/
def counted (i : ℕ) : Bool := decide (UInt32.ofNat i ≠ 0)

/-- `first == false`, and `i != 0` for an `int`. -/
def notFirst (i : ℕ) : Bool := decide (i ≠ 0)

/-- A function that prints nothing but its own strings. -/
def printAll (nmemb : ℕ) (calls : List (Text × List PrintArg)) : Exec (Option Block) := do
  let outp ← printStrs m (newDynStr nmemb) calls
  dynStrToStr m outp

/-- `print_view`. -/
def printView (bs : Bool) (view : View) : Exec (Option Block) :=
  printAll m 5 (
    [Dump.printStr "\"id\": %d,\n" [.int view.id],
      Dump.printStr "\"pid\": %d,\n" [.int view.pid]] ++
    (if bs then [Dump.printStr "\"title\": \"%s\",\n" [.str (view.title.getD [])]] else []) ++
    [Dump.printStr "\"coords\": \x7b\"x\":%d,\"y\":%d\x7d,\n" [.int view.ox, .int view.oy],
      Dump.printStr "\"type\": \"%s\"\n"
        [.str (if view.xwayland then ascii "xwayland" else ascii "xdg")]])

/-- `print_tile`. -/
def printTile (tile : Tile) : Exec (Option Block) :=
  printAll m 4
    [Dump.printStr "\"id\": %d,\n" [.int tile.id],
      Dump.printStr "\"coords\": \x7b\"x\":%d,\"y\":%d\x7d,\n" [.int tile.x, .int tile.y],
      Dump.printStr "\"size\": \x7b\"width\":%d,\"height\":%d\x7d,\n"
        [.int tile.width, .int tile.height],
      Dump.printStr "\"view_id\": %d\n" [.int (tile.viewId.getD (-1))]]

/-- `print_views`. -/
def printViews (bs : Bool) (ws : Workspace) : Exec (Option Block) := do
  let nviews ← wlListLength ws.views
  if nviews = 0 then .ok (some (strdup (ascii "\x7b\x7d")))
  else do
    let outp ← printEach m counted "\x7b\n%s\n\x7d" (printView m bs) 0 ws.views
      (newDynStr (2 * nviews - 1).toNat)
    dynStrToStr m outp

/-- `print_tiles`. -/
def printTiles (ws : Workspace) : Exec (Option Block) := do
  let tiles := ws.focusedTile :: ws.tiles
  let ntiles := UInt32.ofNat tiles.length
  if ntiles = 0 then .ok (some (strdup (ascii "\x7b\x7d")))
  else do
    let outp ← printEach m notFirst "\x7b\n%s\n\x7d" (printTile m) 0 tiles
      (newDynStr (2 * ntiles - 1).toNat)
    dynStrToStr m outp

/-- `print_workspace`. -/
def printWorkspace (bs : Bool) (ws : Workspace) : Exec (Option Block) := do
  let outp ← printStrs m (newDynStr 6) [Dump.printStr "\"views\": [" []]
  let outp ← printNested m "%s" (printViews m bs ws) outp
  let outp ← printStrs m outp [Dump.printStr "]," [], Dump.printStr "\"tiles\": [" []]
  let outp ← printNested m "%s" (printTiles m ws) outp
  let outp ← printStrs m outp [Dump.printStr "]" []]
  dynStrToStr m outp

/-- `print_workspace(outp->workspaces[i])`, where the array has the element. -/
def printWorkspaceAt (bs : Bool) (outp : Output) (i : ℕ) : Exec (Option Block) := do
  let ws ← nonNull outp.workspaces[i]?
  printWorkspace m bs ws

/-- `print_workspaces`; `(2 * nws - 1) + 2` is an `int`. -/
def printWorkspaces (bs : Bool) (nws : ℕ) (outp : Output) : Exec (Option Block) := do
  deref (decide (2 * nws + 1 < 2 ^ 31))
  let str ← printStrs m (newDynStr (2 * nws + 1)) [Dump.printStr "\"workspaces\": [" []]
  let str ← printEach m notFirst "\x7b%s\x7d" (printWorkspaceAt m bs outp) 0 (List.range nws) str
  let str ← printStrs m str [Dump.printStr "]\n" []]
  dynStrToStr m str

/-- `print_output`. -/
def printOutput (bs : Bool) (nws : ℕ) (outp : Output) : Exec (Option Block) := do
  let str ← printStrs m (newDynStr 10)
    [Dump.printStr "\"%s\": \x7b\n" [.str outp.name],
      Dump.printStr "\"priority\": %d,\n" [.int outp.priority],
      Dump.printStr "\"coords\": \x7b\"x\":%d,\"y\":%d\x7d,\n" [.int outp.x, .int outp.y],
      Dump.printStr "\"size\": \x7b\"width\":%d,\"height\":%d\x7d,\n"
        [.int outp.width, .int outp.height],
      Dump.printStr "\"refresh_rate\": %f,\n" [.double (.fin outp.refreshRate)],
      Dump.printStr "\"permanent\": %d,\n" [flag outp.permanent],
      Dump.printStr "\"active\": %d,\n" [flag (!outp.destroyed)],
      Dump.printStr "\"curr_workspace\": %d,\n" [.int (outp.currWorkspace + 1)]]
  let str ← printNested m "%s" (printWorkspaces m bs nws outp) str
  let str ← printStrs m str [Dump.printStr "\x7d" []]
  dynStrToStr m str

/-- The functions that print a list between braces.  The array has room for
`(2 * n - 1) + room` strings. -/
def printList {α : Type} (room : UInt32) (first : String) (print : α → Exec (Option Block))
    (items : List α) : Exec (Option Block) := do
  let n ← wlListLength items
  let str ← printStrs m (newDynStr ((2 * n - 1) + room).toNat) [Dump.printStr first []]
  let str ← printEach m counted "%s" print 0 items str
  let str ← printStrs m str [Dump.printStr "\x7d\n" []]
  dynStrToStr m str

/-- `print_outputs`. -/
def printOutputs (server : Server) : Exec (Option Block) :=
  printList m 2 "\"outputs\": \x7b" (printOutput m server.bs server.nws) server.outputs

/-- `print_keyboard_group`. -/
def printKeyboardGroup (grp : KeyboardGroup) : Exec (Option Block) :=
  printAll m 5
    [printIdentifier grp.identifier,
      Dump.printStr "\"commands_enabled\": %d,\n" [flag grp.enableKeybindings],
      Dump.printStr "\"repeat_delay\": %d,\n" [.int grp.repeatDelay],
      Dump.printStr "\"repeat_rate\": %d\n" [.int grp.repeatRate],
      Dump.printStr "\x7d" []]

/-- `print_keyboard_groups`. -/
def printKeyboardGroups (server : Server) : Exec (Option Block) :=
  printList m 3 "\"keyboards\": \x7b" (printKeyboardGroup m) server.keyboardGroups

/-- `print_input_device`. -/
def printInputDevice (dev : InputDev) : Exec (Option Block) :=
  printAll m 4
    [printIdentifier dev.identifier,
      Dump.printStr "\"is_virtual\": %d,\n" [flag dev.isVirtual],
      Dump.printStr "\"type\": \"%s\"\n" [.str (deviceType dev.type)],
      Dump.printStr "\x7d" []]

/-- `print_input_devices`. -/
def printInputDevices (server : Server) : Exec (Option Block) :=
  printList m 3 "\"input_devices\": \x7b" (printInputDevice m) server.inputDevices

/-- `print_message_conf`. -/
def printMessageConf (config : MessageConfig) : Exec (Option Block) :=
  printAll m 8
    [Dump.printStr "\"message_config\": \x7b" [],
      Dump.printStr "\"font\": \"%s\",\n" [.str config.font],
      Dump.printStr "\"display_time\": %d,\n" [.int config.displayTime],
      Dump.printStr "\"bg_color\": [%f,%f,%f,%f],\n" (config.bg.map .double),
      Dump.printStr "\"fg_color\": [%f,%f,%f,%f],\n" (config.fg.map .double),
      Dump.printStr "\"enabled\": %d,\n" [flag (decide (config.enabled = 1))],
      config.anchor.text,
      Dump.printStr "\x7d" []]

/-- The loop of `print_modes`, from the `i`-th mode on. -/
def joinModes : ℕ → List Text → Block → UInt32 → Exec Block
  | _, [], modesStr, _ => .ok modesStr
  | i, mode :: modes, modesStr, tmpPos =>
    if i ≠ 0 then do
      let modesStr ← modesStr.strcat tmpPos.toNat (ascii "\",\"")
      let modesStr ← modesStr.strcat (tmpPos + 3).toNat mode
      joinModes (i + 1) modes modesStr (tmpPos + 3 + UInt32.ofNat mode.length)
    else do
      let modesStr ← modesStr.strcat tmpPos.toNat mode
      joinModes (i + 1) modes modesStr (tmpPos + UInt32.ofNat mode.length)

/-- `print_modes`. -/
def printModes (modes : List Text) (str : DynStr) : Exec DynStr :=
  let len := modes.foldl (fun len mode => len + UInt32.ofNat mode.length) 0
  let nmemb := UInt32.ofNat modes.length
  if nmemb = 0 then .ok str
  else do
    let modesStr ← nonNull (m.calloc (len + 3 * (nmemb - 1) + 1).toNat)
    deref (decide ((len + nmemb - 1).toNat < modesStr.size))
    let modesStr : Block :=
      { modesStr with bytes := Function.update modesStr.bytes (len + nmemb - 1).toNat 0 }
    let modesStr ← joinModes 0 (modes.take nmemb.toNat) modesStr 0
    let modesStr ← modesStr.string
    printStr m str (Dump.printStr "\"modes\":[\"%s\"],\n" [.str modesStr])

/-- The strings of `keybinding_dump` before the modes, and the last ones. -/
def headCalls (server : Server) : List (Text × List PrintArg) :=
  [Dump.printStr "\x7b\"event_name\":\"dump\"," [],
    Dump.printStr "\"nws\":%d,\n" [.int server.nws],
    Dump.printStr "\"bg_color\":[%f,%f,%f],\n" (server.bg.map .double),
    Dump.printStr "\"views_curr_id\":%d,\n" [.int (server.focus.elim (-1) Focus.viewId)],
    Dump.printStr "\"tiles_curr_id\":%d,\n" [.int ((server.focus.bind Focus.tileId).getD (-1))],
    Dump.printStr "\"curr_output\":\"%s\",\n" [.str server.currOutput],
    Dump.printStr "\"default_mode\":\"%s\",\n"
      [.str (getModeName server.modes server.defaultMode)]]

def lastCalls (server : Server) : List (Text × List PrintArg) :=
  [Dump.printStr "\"cursor_coords\":\x7b\"x\":%f,\"y\":%f\x7d\n" [.double (.fin server.cursorX),
      .double (.fin server.cursorY)],
    Dump.printStr "\x7d" []]

/-- The string that `keybinding_dump` sends. -/
def sendStr (server : Server) : Exec (Option Block) := do
  let str ← printStrs m (newDynStr 14) (headCalls server)
  let str ← printModes m server.modes str
  let str ← printNested m "%s," (printMessageConf m server.messageConfig) str
  let str ← printNested m "%s," (printOutputs m server) str
  let str ← printNested m "%s," (printKeyboardGroups m server) str
  let str ← printNested m "%s," (printInputDevices m server) str
  let str ← printStrs m str (lastCalls server)
  dynStrToStr m str

/-! ### Texts -/

variable {m} {nws : ℕ} {bs : Bool} {calls : List (Text × List PrintArg)} {us : List Text}
  {s t u T : Text}
  {n k : ℕ} {fmt : String} {args : List PrintArg}

/-- The strings of the calls are strings of C. -/
def Clean (calls : List (Text × List PrintArg)) : Prop :=
  ∀ call ∈ calls, 0 ∉ call.1 ∧ ∀ s ∈ strings call.2, 0 ∉ s

theorem Clean.nil : Clean [] := by
  intro call hcall
  cases hcall

theorem Clean.cons (h0 : 0 ∉ ascii fmt) (hs : ∀ s ∈ strings args, 0 ∉ s) (h : Clean calls) :
    Clean (Dump.printStr fmt args :: calls) :=
  List.forall_mem_cons.mpr ⟨⟨h0, hs⟩, h⟩

/-- A call that has numbers for its arguments. -/
theorem Clean.numbers (h0 : 0 ∉ ascii fmt) (hs : strings args = []) (h : Clean calls) :
    Clean (Dump.printStr fmt args :: calls) := by
  refine Clean.cons h0 (fun s hmem => ?_) h
  rw [hs] at hmem
  cases hmem

/-- A call with one string. -/
theorem Clean.str (h0 : 0 ∉ ascii fmt) (hs : 0 ∉ s) (h : Clean calls) :
    Clean (Dump.printStr fmt [.str s] :: calls) := by
  refine Clean.cons h0 (fun u hmem => ?_) h
  rw [List.mem_singleton.mp hmem]
  exact hs

theorem Clean.append {calls' : List (Text × List PrintArg)} (h : Clean calls)
    (h' : Clean calls') : Clean (calls ++ calls') := by
  intro call hcall
  obtain hcall | hcall := List.mem_append.mp hcall
  · exact h call hcall
  · exact h' call hcall

/-- The texts of the calls. -/
theorem forall₂_of_mapM {α : Type} {f : α → Exec Text} {l : List α} (h : l.mapM f = .ok us) :
    List.Forall₂ (fun a u => f a = .ok u) l us := by
  induction l generalizing us with
  | nil =>
    cases h
    exact .nil
  | cons a l ih =>
    rw [List.mapM_cons] at h
    obtain ⟨u, hu, h⟩ := bind_eq_ok.mp h
    obtain ⟨us, hus, h⟩ := bind_eq_ok.mp h
    cases h
    exact .cons hu (ih hus)

theorem Clean.printsString (h : Clean calls) (hp : List.Forall₂ Prints calls us) :
    List.Forall₂ PrintsString calls us := by
  induction hp with
  | nil => exact .nil
  | @cons call u calls us hu _ ih =>
    obtain ⟨hcall, hcalls⟩ := List.forall_mem_cons.mp h
    exact .cons ⟨hu, format_noNul hu hcall.1 hcall.2⟩ (ih hcalls)

theorem joinedText_eq_ok (h : joinedText n calls = .ok T) :
    calls.length ≤ n ∧ ∃ us, (calls.mapM fun call => format call.1 call.2) = .ok us ∧
      List.Forall₂ Prints calls us ∧ T = us.flatten := by
  obtain ⟨⟨⟩, hlen, h⟩ := bind_eq_ok.mp h
  obtain ⟨us, hus, h⟩ := bind_eq_ok.mp h
  exact ⟨of_decide_eq_true (deref_eq_ok.mp hlen), us, hus, forall₂_of_mapM hus,
    (Except.ok.inj h).symm⟩

theorem short_of_le (h : Short T) (hle : s.length ≤ T.length) : Short s :=
  Nat.lt_of_le_of_lt (Nat.succ_le_succ hle) h

theorem short_of_mem (h : Short us.flatten) (hu : u ∈ us) : Short u :=
  short_of_le h (List.sublist_flatten_of_mem hu).length_le

/-- A function that prints nothing but its own strings. -/
theorem printAll_string (hT : joinedText n calls = .ok T) (hn : n < 2 ^ 32) (h0 : Clean calls)
    (hs : Short T) : ∃ p, printAll m n calls = .ok (some p) ∧ p.Holds T := by
  obtain ⟨hlen, us, -, hus, rfl⟩ := joinedText_eq_ok hT
  have hputs := puts_calls (m := m) (h0.printsString hus) fun u => short_of_mem hs
  refine hputs.join ?_ hn (Nat.lt_trans hs (by decide))
  rw [← hus.length_eq]
  exact hlen

/-! ### Numbers -/

theorem toNat_ofNat (hn : n < 2 ^ 32) : (UInt32.ofNat n).toNat = n := Nat.mod_eq_of_lt hn

theorem ofNat_eq_zero (hn : n < 2 ^ 32) (hpos : 0 < n) : UInt32.ofNat n ≠ 0 := by
  intro hzero
  have htoNat := toNat_ofNat hn
  rw [hzero] at htoNat
  exact absurd htoNat hpos.ne

/-- `2 * n - 1` in 32 bits. -/
theorem double_sub_one (hpos : 0 < n) : 2 * UInt32.ofNat n - 1 = UInt32.ofNat (2 * n - 1) := by
  obtain ⟨k, rfl⟩ : ∃ k, n = k + 1 := ⟨n - 1, by omega⟩
  have hodd : 2 * (k + 1) - 1 = 2 * k + 1 := by omega
  have hsum : UInt32.ofNat (2 * k + 1) = 2 * UInt32.ofNat k + 1 := by
    rw [UInt32.ofNat_add, UInt32.ofNat_mul]
    rfl
  rw [hodd, hsum, UInt32.ofNat_add]
  grind

/-- With room for more strings it may be of nothing. -/
theorem double_sub_one_add (n k : ℕ) :
    2 * UInt32.ofNat n - 1 + UInt32.ofNat (k + 1) = UInt32.ofNat (2 * n + k) := by
  have hsum : UInt32.ofNat (2 * n + k) = 2 * UInt32.ofNat n + UInt32.ofNat k := by
    rw [UInt32.ofNat_add, UInt32.ofNat_mul]
    rfl
  have hroom : UInt32.ofNat (k + 1) = UInt32.ofNat k + 1 := by
    rw [UInt32.ofNat_add]
    rfl
  rw [hsum, hroom]
  grind

theorem wlListLength_of_lt {α : Type} {l : List α} (h : l.length < 2 ^ 31) :
    wlListLength l = .ok (UInt32.ofNat l.length) := by
  rw [wlListLength, decide_eq_true h]
  rfl

theorem counted_of_lt {i : ℕ} (hpos : 1 ≤ i) (hi : i < 2 ^ 32) : counted i = true :=
  decide_eq_true (ofNat_eq_zero hi hpos)

theorem notFirst_of_pos {i : ℕ} (hpos : 1 ≤ i) : notFirst i = true :=
  decide_eq_true (Nat.one_le_iff_ne_zero.mp hpos)

/-- The commas between the strings count. -/
theorem length_separated_ge (us : List Text) (k : ℕ) (h : ∀ u ∈ us, k ≤ u.length) :
    us.length * (k + 1) ≤ (us.intersperse [44]).flatten.length + 1 := by
  cases us with
  | nil => simp
  | cons u us =>
    obtain ⟨hu, hus⟩ := List.forall_mem_cons.mp h
    have hrest : us.length * (k + 1) ≤ (us.flatMap fun b => [[44], b]).flatten.length := by
      clear h
      induction us with
      | nil => simp
      | cons v us ih =>
        obtain ⟨hv, hus⟩ := List.forall_mem_cons.mp hus
        have ih := ih hus
        simp only [List.flatMap_cons, List.flatten_append, List.length_append, List.length_cons,
          List.flatten_cons, List.flatten_nil, List.length_nil] at ih ⊢
        rw [Nat.succ_mul]
        omega
    rw [intersperse_cons, List.flatten_cons, List.length_append, List.length_cons, Nat.succ_mul]
    omega

/-! ### Loops -/

section Loop

variable {α : Type} {ideal : α → Exec Text} {print : α → Exec (Option Block)} {items : List α}
  {strs : List Text} {wrap : Text → Text} {comma : ℕ → Bool}

theorem mem_intersperse {sep : Text} (h : u ∈ us) : u ∈ us.intersperse sep := by
  cases us with
  | nil => cases h
  | cons v us =>
    rw [intersperse_cons, List.mem_cons, List.mem_flatMap]
    obtain rfl | h := List.mem_cons.mp h
    · exact .inl rfl
    · exact .inr ⟨u, h, by simp⟩

/-- Every item is printed as its text, if the texts are short. -/
theorem printsItems (h : List.Forall₂ (fun it s => ideal it = .ok s) items strs)
    (hitem : ∀ it ∈ items, ∀ s, ideal it = .ok s → Short s → PrintsItem print it s)
    (hs : ∀ s ∈ strs, Short s) : List.Forall₂ (PrintsItem print) items strs := by
  induction h with
  | nil => exact .nil
  | @cons it s items strs hit _ ih =>
    obtain ⟨hfirst, hrest⟩ := List.forall_mem_cons.mp hitem
    obtain ⟨ht, hus⟩ := List.forall_mem_cons.mp hs
    exact .cons (hfirst s hit ht) (ih hrest hus)

/-- **A loop whose text is short** has fewer items than an `int` counts, and prints
all of them. -/
theorem loop_puts (hstrs : items.mapM ideal = .ok strs)
    (hitem : ∀ it ∈ items, ∀ s, ideal it = .ok s → Short s → PrintsItem print it s)
    (h0 : 0 ∉ ascii fmt) (hfmt : ∀ s, Prints (Dump.printStr fmt [.str s]) (wrap s))
    (hwrap : ∀ s, s.length ≤ (wrap s).length) (hfirst : comma 0 = false)
    (hcomma : ∀ j, 1 ≤ j → j < 2 ^ 31 → comma j = true)
    (hs : Short ((strs.map wrap).intersperse [44]).flatten) :
    items.length < 2 ^ 31 ∧
      Puts (printEach m comma fmt print 0 items) ((strs.map wrap).intersperse [44]) := by
  have htexts := forall₂_of_mapM hstrs
  have hshort : ∀ s ∈ strs, Short (wrap s) := by
    intro s hmem
    exact short_of_mem hs (mem_intersperse (List.mem_map_of_mem hmem))
  have hlen : items.length < 2 ^ 31 := by
    have hcount := length_separated_ge (strs.map wrap) 0 fun _ _ => Nat.zero_le _
    rw [List.length_map, ← htexts.length_eq] at hcount
    have hbytes : ((strs.map wrap).intersperse [44]).flatten.length + 1 < 2 ^ 31 := hs
    omega
  have hall := printsItems htexts hitem fun s hmem => short_of_le (hshort s hmem) (hwrap s)
  exact ⟨hlen, puts_each h0 hfmt hall hshort hfirst fun j hj hj' => hcomma j hj (by omega)⟩

/-- The loop of `print_views` and `print_tiles`. -/
theorem separated_string (comma : ℕ → Bool) (print : α → Exec (Option Block)) (hne : items ≠ [])
    (hstrs : items.mapM ideal = .ok strs)
    (hT : joinedText (2 * items.length - 1) (separated fmt strs) = .ok T)
    (hitem : ∀ it ∈ items, ∀ s, ideal it = .ok s → Short s → PrintsItem print it s)
    (h0 : 0 ∉ ascii fmt) (hfmt : ∀ s, Prints (Dump.printStr fmt [.str s]) (wrap s))
    (hwrap : ∀ s, s.length ≤ (wrap s).length) (hfirst : comma 0 = false)
    (hcomma : ∀ j, 1 ≤ j → j < 2 ^ 31 → comma j = true) (hs : Short T) :
    items.length < 2 ^ 31 ∧ ∃ p, (printEach m comma fmt print 0 items
      (newDynStr (2 * UInt32.ofNat items.length - 1).toNat) >>= dynStrToStr m) = .ok (some p) ∧
        p.Holds T := by
  have htext : T = ((strs.map wrap).intersperse [44]).flatten := by
    have heq := joinedText_eq _ (joinedText_eq_ok hT).1 (separated_forall₂ hfmt)
    exact Except.ok.inj (hT.symm.trans heq)
  subst htext
  obtain ⟨hlen, hputs⟩ :=
    loop_puts (m := m) hstrs hitem h0 hfmt hwrap hfirst hcomma hs
  have hpos : 0 < items.length := List.length_pos_iff.mpr hne
  refine ⟨hlen, ?_⟩
  -- the size that is computed in 32 bits is the exact one
  rw [double_sub_one hpos, toNat_ofNat (by omega)]
  refine hputs.join ?_ (by omega) (Nat.lt_trans hs (by decide))
  rw [length_intersperse, List.length_map, (forall₂_of_mapM hstrs).length_eq]

/-- The text of a loop between two strings is longer than it has items. -/
theorem enclosed_length (wrap : Text → Text) (hlen : strs.length = items.length) (ht : t ≠ [])
    (hu : u ≠ []) :
    items.length < ([t] ++ ((strs.map wrap).intersperse [44] ++ [u])).flatten.length := by
  have hcount := length_separated_ge (strs.map wrap) 0 fun _ _ => Nat.zero_le _
  have htpos : 0 < t.length := List.length_pos_iff.mpr ht
  have hupos : 0 < u.length := List.length_pos_iff.mpr hu
  rw [List.length_map, hlen] at hcount
  simp only [List.flatten_append, List.flatten_cons, List.flatten_nil, List.length_append,
    List.length_nil]
  omega

/-- The loop of the functions that print a list. -/
theorem enclosed_string (comma : ℕ → Bool) (print : α → Exec (Option Block)) {first last : String}
    (hlen : 2 * items.length - 1 + 2 ≤ n) (hn : items.length + 2 < 2 ^ 31 → n < 2 ^ 32)
    (hstrs : items.mapM ideal = .ok strs)
    (hT : joinedText k (Dump.printStr first [] :: separated fmt strs ++ [Dump.printStr last []]) =
      .ok T)
    (hitem : ∀ it ∈ items, ∀ s, ideal it = .ok s → Short s → PrintsItem print it s)
    (h0 : 0 ∉ ascii fmt) (hfmt : ∀ s, Prints (Dump.printStr fmt [.str s]) (wrap s))
    (hwrap : ∀ s, s.length ≤ (wrap s).length) (hcommas : comma 0 = false)
    (hcomma : ∀ j, 1 ≤ j → j < 2 ^ 31 → comma j = true)
    (hfirst : PrintsString (Dump.printStr first []) t) (ht : t ≠ [])
    (hlast : PrintsString (Dump.printStr last []) u) (hu : u ≠ []) (hs : Short T) :
    items.length + 2 < 2 ^ 31 ∧ ∃ p, (printStrs m (newDynStr n) [Dump.printStr first []] >>=
      fun str => printEach m comma fmt print 0 items str >>= fun str =>
        printStrs m str [Dump.printStr last []] >>= dynStrToStr m) = .ok (some p) ∧
          p.Holds T := by
  have hroom := (joinedText_eq_ok hT).1
  have htext : T = ([t] ++ ((strs.map wrap).intersperse [44] ++ [u])).flatten := by
    have hcalls : List.Forall₂ Prints
        (Dump.printStr first [] :: separated fmt strs ++ [Dump.printStr last []])
        ([t] ++ ((strs.map wrap).intersperse [44] ++ [u])) :=
      .cons hfirst.1 (List.rel_append (separated_forall₂ hfmt) (.cons hlast.1 .nil))
    exact Except.ok.inj (hT.symm.trans (joinedText_eq _ hroom hcalls))
  subst htext
  have hstrslen : strs.length = items.length := (forall₂_of_mapM hstrs).length_eq.symm
  -- every item has its comma, so the text bounds the number of items
  have hbytes := enclosed_length wrap hstrslen ht hu
  have hfit : items.length + 2 < 2 ^ 31 := Nat.lt_of_le_of_lt (Nat.succ_le_succ hbytes) hs
  have hfirst' : Short t := short_of_mem hs (by simp)
  have hlast' : Short u := short_of_mem hs (by simp)
  have hloop : Short ((strs.map wrap).intersperse [44]).flatten := by
    refine short_of_le hs ?_
    simp only [List.flatten_append, List.length_append]
    omega
  obtain ⟨-, hputs⟩ :=
    loop_puts (m := m) hstrs hitem h0 hfmt hwrap hcommas hcomma hloop
  have hfront := puts_calls (m := m) (.cons hfirst .nil)
    fun v hv => List.mem_singleton.mp hv ▸ hfirst'
  have hback := puts_calls (m := m) (.cons hlast .nil)
    fun v hv => List.mem_singleton.mp hv ▸ hlast'
  have hcount : ([t] ++ ((strs.map wrap).intersperse [44] ++ [u])).length ≤ n := by
    rw [List.length_append, List.length_append, length_intersperse, List.length_map, hstrslen,
      List.length_singleton, List.length_singleton]
    omega
  -- the three parts fill the array from its start
  obtain ⟨p, hp, hholds⟩ := (hfront.bind (hputs.bind hback)).join (m := m) hcount (hn hfit)
    (Nat.lt_trans hs (by decide))
  refine ⟨hfit, p, ?_, hholds⟩
  simpa only [bind_assoc] using hp

end Loop

theorem length_braced (s : Text) : s.length ≤ (braced s).length := by
  simp only [braced, List.length_cons, List.length_append]
  omega

/-! ### Views and tiles -/

theorem printView_string {view : View} (h0 : ∀ s ∈ view.texts bs, 0 ∉ s)
    (hT : viewText bs view = .ok T) (hs : Short T) : PrintsItem (printView m bs) view T := by
  refine printAll_string hT (by decide) (Clean.append (Clean.append ?_ ?_) ?_) hs
  · exact .numbers (by decide) rfl (.numbers (by decide) rfl .nil)
  · by_cases hbs : bs = true
    · rw [if_pos hbs]
      rw [View.texts, if_pos hbs] at h0
      exact .str (by decide) (h0 _ (List.mem_singleton_self _)) .nil
    · rw [if_neg hbs]
      exact .nil
  · have htype : 0 ∉ (if view.xwayland then ascii "xwayland" else ascii "xdg") := by
      cases view.xwayland <;> decide
    exact .numbers (by decide) rfl (.str (by decide) htype .nil)

theorem printTile_string {tile : Tile} (hT : tileText tile = .ok T) (hs : Short T) :
    PrintsItem (printTile m) tile T := by
  refine printAll_string hT (by decide) ?_ hs
  exact .numbers (by decide) rfl (.numbers (by decide) rfl (.numbers (by decide) rfl
    (.numbers (by decide) rfl .nil)))

theorem printViews_string {ws : Workspace} (h0 : ∀ s ∈ ws.texts bs, 0 ∉ s)
    (hT : viewsText bs ws = .ok T) (hs : Short T) :
    ∃ p, printViews m bs ws = .ok (some p) ∧ p.Holds T := by
  rw [viewsText] at hT
  by_cases hnil : ws.views = []
  · rw [if_pos hnil] at hT
    obtain rfl := Except.ok.inj hT
    have hcount : wlListLength ws.views = .ok 0 := by
      rw [hnil]
      rfl
    refine ⟨strdup (ascii "\x7b\x7d"), ?_, strdup_holds (by decide)⟩
    rw [printViews, hcount, ok_bind, if_pos rfl]
  · rw [if_neg hnil] at hT
    obtain ⟨strs, hstrs, hT⟩ := bind_eq_ok.mp hT
    have hpos : 0 < ws.views.length := List.length_pos_iff.mpr hnil
    obtain ⟨hlen, p, hp, hholds⟩ := separated_string (m := m) counted (printView m bs) hnil
      hstrs hT (fun view hview s hs hshort =>
        printView_string (fun t ht => h0 t (List.mem_flatMap.mpr ⟨view, hview, ht⟩)) hs hshort)
      (by decide) prints_braced length_braced rfl
      (fun j hj hj' => counted_of_lt hj (Nat.lt_trans hj' (by decide))) hs
    refine ⟨p, ?_, hholds⟩
    rw [printViews, wlListLength_of_lt hlen, ok_bind,
      if_neg (ofNat_eq_zero (Nat.lt_trans hlen (by decide)) hpos)]
    exact hp

theorem printTiles_string {ws : Workspace} (hT : tilesText ws = .ok T) (hs : Short T) :
    ∃ p, printTiles m ws = .ok (some p) ∧ p.Holds T := by
  obtain ⟨strs, hstrs, hT⟩ := bind_eq_ok.mp hT
  have hne : ws.focusedTile :: ws.tiles ≠ [] := List.cons_ne_nil _ _
  obtain ⟨hlen, p, hp, hholds⟩ := separated_string (m := m) notFirst (printTile m) hne
    hstrs hT (fun tile _ s hs hshort => printTile_string hs hshort)
    (by decide) prints_braced length_braced rfl (fun j hj _ => notFirst_of_pos hj) hs
  refine ⟨p, ?_, hholds⟩
  have hcount : UInt32.ofNat (ws.focusedTile :: ws.tiles).length ≠ 0 :=
    ofNat_eq_zero (Nat.lt_trans hlen (by decide)) (List.length_pos_iff.mpr hne)
  rw [printTiles]
  show (if UInt32.ofNat (ws.focusedTile :: ws.tiles).length = 0 then _ else _) = _
  rw [if_neg hcount]
  exact hp

/-! ### Workspaces and outputs -/

/-- A string that another function prints as it is. -/
theorem puts_string {print : Exec (Option Block)}
    (h : ∃ p, print = .ok (some p) ∧ p.Holds T) (hs : Short T) :
    Puts (printNested m "%s" print) [T] := by
  obtain ⟨p, hp, hholds⟩ := h
  exact puts_nested hp hholds ⟨prints_str T, hholds.noNul⟩ hs

theorem printWorkspace_string {ws : Workspace} (h0 : ∀ s ∈ ws.texts bs, 0 ∉ s)
    (hT : workspaceText bs ws = .ok T) (hs : Short T) :
    PrintsItem (printWorkspace m bs) ws T := by
  obtain ⟨views, hviews, hT⟩ := bind_eq_ok.mp hT
  obtain ⟨tiles, htiles, hT⟩ := bind_eq_ok.mp hT
  have hcalls : List.Forall₂ Prints
      [Dump.printStr "\"views\": [" [], Dump.printStr "%s" [.str views], Dump.printStr "]," [],
        Dump.printStr "\"tiles\": [" [], Dump.printStr "%s" [.str tiles], Dump.printStr "]" []]
      [ascii "\"views\": [", views, ascii "],", ascii "\"tiles\": [", tiles, ascii "]"] :=
    .cons rfl (.cons (prints_str _) (.cons rfl (.cons rfl (.cons (prints_str _) (.cons rfl .nil)))))
  obtain rfl := Except.ok.inj (hT.symm.trans (joinedText_eq _ (Nat.le_refl _) hcalls))
  have hv : Short views := short_of_mem hs (by simp)
  have ht : Short tiles := short_of_mem hs (by simp)
  have hfirst : Puts (fun d => printStrs m d [Dump.printStr "\"views\": [" []])
      [ascii "\"views\": ["] :=
    puts_calls (.cons ⟨rfl, by decide⟩ .nil) (by decide)
  have hmiddle : Puts (fun d => printStrs m d
      [Dump.printStr "]," [], Dump.printStr "\"tiles\": [" []])
      [ascii "],", ascii "\"tiles\": ["] :=
    puts_calls (.cons ⟨rfl, by decide⟩ (.cons ⟨rfl, by decide⟩ .nil)) (by decide)
  have hlast : Puts (fun d => printStrs m d [Dump.printStr "]" []]) [ascii "]"] :=
    puts_calls (.cons ⟨rfl, by decide⟩ .nil) (by decide)
  have hprintViews : Puts (printNested m "%s" (printViews m bs ws)) [views] :=
    puts_string (printViews_string h0 hviews hv) hv
  have hprintTiles : Puts (printNested m "%s" (printTiles m ws)) [tiles] :=
    puts_string (printTiles_string htiles ht) ht
  have hputs := hfirst.bind (hprintViews.bind (hmiddle.bind (hprintTiles.bind hlast)))
  obtain ⟨p, hp, hholds⟩ := hputs.join (m := m) (n := 6) (by simp) (by decide)
    (Nat.lt_trans hs (by decide))
  refine ⟨p, ?_, hholds⟩
  rw [printWorkspace]
  simpa only [bind_assoc] using hp

/-- The loop over the indices of an array is one over its elements. -/
theorem mapM_range {α β : Type} {f : α → Exec β} {l : List α} (hn : n ≤ l.length) :
    ((List.range n).mapM fun i => nonNull l[i]? >>= f) = (l.take n).mapM f := by
  induction l generalizing n with
  | nil =>
    obtain rfl := Nat.le_zero.mp hn
    rfl
  | cons a l ih =>
    cases n with
    | zero => rfl
    | succ n =>
      rw [List.range_succ_eq_map, List.take_succ_cons, List.mapM_cons, List.mapM_cons,
        List.mapM_map, ← ih (Nat.le_of_succ_le_succ hn)]
      rfl

theorem printWorkspaces_string {outp : Output} (hpos : 1 ≤ nws)
    (hws : nws ≤ outp.workspaces.length)
    (h0 : ∀ s ∈ (outp.printed nws).flatMap (Workspace.texts bs), 0 ∉ s)
    (hT : workspacesText bs nws outp = .ok T) (hs : Short T) :
    ∃ p, printWorkspaces m bs nws outp = .ok (some p) ∧ p.Holds T := by
  obtain ⟨strs, hstrs, hT⟩ := bind_eq_ok.mp hT
  have hloop := (mapM_range (f := workspaceText bs) hws).trans hstrs
  have hlen : (List.range nws).length = nws := List.length_range
  have hfmt : ∀ s, Prints (Dump.printStr "\x7b%s\x7d" [.str s]) (123 :: (s ++ [125])) :=
    fun _ => rfl
  have hitem : ∀ i ∈ List.range nws, ∀ s, nonNull outp.workspaces[i]? >>= workspaceText bs = .ok s →
      Short s → PrintsItem (printWorkspaceAt m bs outp) i s := by
    intro i hi s hs hshort
    obtain ⟨ws, hget, hs⟩ := bind_eq_ok.mp hs
    have hmem : ws ∈ outp.printed nws := by
      refine List.mem_of_getElem? (i := i) ?_
      rw [Output.printed, List.getElem?_take_of_lt (List.mem_range.mp hi)]
      exact nonNull_eq_ok.mp hget
    obtain ⟨p, hp, hholds⟩ := printWorkspace_string (m := m)
      (fun t ht => h0 t (List.mem_flatMap.mpr ⟨ws, hmem, ht⟩)) hs hshort
    refine ⟨p, ?_, hholds⟩
    rw [printWorkspaceAt, hget, ok_bind, hp]
  obtain ⟨-, p, hp, hholds⟩ := enclosed_string (m := m) (n := 2 * nws + 1) notFirst
    (printWorkspaceAt m bs outp) (by omega) (by omega) hloop hT hitem (by decide) hfmt
      (fun s => by simp only [List.length_cons, List.length_append]; omega) rfl
    (fun j hj _ => notFirst_of_pos hj) ⟨rfl, by decide⟩ (by decide) ⟨rfl, by decide⟩ (by decide) hs
  refine ⟨p, ?_, hholds⟩
  -- every workspace has its braces and a comma
  have hroom : 2 * nws + 1 < 2 ^ 31 := by
    have hcount := length_separated_ge (strs.map fun s => 123 :: (s ++ [125])) 2
      fun u hu => by
        obtain ⟨s, -, rfl⟩ := List.mem_map.mp hu
        simp
    have htext : joinedText (2 * nws + 1) (Dump.printStr "\"workspaces\": [" [] ::
        separated "\x7b%s\x7d" strs ++ [Dump.printStr "]\n" []]) = .ok
          (ascii "\"workspaces\": [" ++ (((strs.map fun s => 123 :: (s ++ [125])).intersperse
            [44]).flatten ++ ascii "]\n")) := by
      refine enclosed_eq rfl rfl hfmt ?_
      rw [← (forall₂_of_mapM hloop).length_eq]
      omega
    obtain rfl := Except.ok.inj (hT.symm.trans htext)
    have hbytes := hs
    rw [Short, List.length_append, List.length_append] at hbytes
    rw [List.length_map, ← (forall₂_of_mapM hloop).length_eq, hlen] at hcount
    omega
  rw [printWorkspaces, decide_eq_true hroom]
  exact hp

theorem forall₂_append_left {α β : Type} {R : α → β → Prop} (l l' : List α) {r : List β}
    (h : List.Forall₂ R (l ++ l') r) :
    ∃ r₁ r₂, r = r₁ ++ r₂ ∧ List.Forall₂ R l r₁ ∧ List.Forall₂ R l' r₂ := by
  induction l generalizing r with
  | nil => exact ⟨[], r, rfl, .nil, h⟩
  | cons a l ih =>
    obtain ⟨b, r, hab, hr, rfl⟩ := List.forall₂_cons_left_iff.mp h
    obtain ⟨r₁, r₂, rfl, hr₁, hr₂⟩ := ih hr
    exact ⟨b :: r₁, r₂, rfl, .cons hab hr₁, hr₂⟩

theorem printOutput_string {outp : Output} (hpos : 1 ≤ nws)
    (hws : nws ≤ outp.workspaces.length) (h0 : ∀ s ∈ outp.texts bs nws, 0 ∉ s)
    (hT : outputText bs nws outp = .ok T) (hs : Short T) :
    PrintsItem (printOutput m bs nws) outp T := by
  obtain ⟨workspaces, hworkspaces, hT⟩ := bind_eq_ok.mp hT
  obtain ⟨hname, htexts⟩ := List.forall_mem_cons.mp h0
  have hclean : Clean
      [Dump.printStr "\"%s\": \x7b\n" [.str outp.name],
        Dump.printStr "\"priority\": %d,\n" [.int outp.priority],
        Dump.printStr "\"coords\": \x7b\"x\":%d,\"y\":%d\x7d,\n" [.int outp.x, .int outp.y],
        Dump.printStr "\"size\": \x7b\"width\":%d,\"height\":%d\x7d,\n"
          [.int outp.width, .int outp.height],
        Dump.printStr "\"refresh_rate\": %f,\n" [.double (.fin outp.refreshRate)],
        Dump.printStr "\"permanent\": %d,\n" [flag outp.permanent],
        Dump.printStr "\"active\": %d,\n" [flag (!outp.destroyed)],
        Dump.printStr "\"curr_workspace\": %d,\n" [.int (outp.currWorkspace + 1)]] :=
    .str (by decide) hname <| .numbers (by decide) rfl <| .numbers (by decide) rfl <|
      .numbers (by decide) rfl <| .numbers (by decide) rfl <| .numbers (by decide) rfl <|
      .numbers (by decide) rfl <| .numbers (by decide) rfl .nil
  obtain ⟨hlen, us, -, hus, rfl⟩ := joinedText_eq_ok hT
  obtain ⟨us₁, us₂, rfl, hfront, hback⟩ := forall₂_append_left
    [_, _, _, _, _, _, _, _] [_, _] hus
  -- the last two strings are the workspaces and the brace
  have hends : us₂ = [workspaces, ascii "\x7d"] := by
    have htexts : List.Forall₂ Prints [Dump.printStr "%s" [.str workspaces],
        Dump.printStr "\x7d" []] [workspaces, ascii "\x7d"] :=
      .cons (prints_str _) (.cons rfl .nil)
    refine List.right_unique_forall₂' (fun call u v hu hv => ?_) hback htexts
    exact Except.ok.inj (hu.symm.trans hv)
  subst hends
  have hw : Short workspaces := short_of_mem hs (by simp)
  have hnested : Puts (printNested m "%s" (printWorkspaces m bs nws outp)) [workspaces] :=
    puts_string (printWorkspaces_string hpos hws htexts hworkspaces hw) hw
  have hfirst := puts_calls (m := m) (hclean.printsString hfront)
    fun u hu => short_of_mem hs (List.mem_append_left _ hu)
  have hlast : Puts (fun d => printStrs m d [Dump.printStr "\x7d" []]) [ascii "\x7d"] :=
    puts_calls (.cons ⟨rfl, by decide⟩ .nil) (by decide)
  have hcount : (us₁ ++ ([workspaces] ++ [ascii "\x7d"])).length ≤ 10 := by
    rw [List.length_append, ← hfront.length_eq]
    simp
  obtain ⟨p, hp, hholds⟩ := (hfirst.bind (hnested.bind hlast)).join (m := m) hcount (by decide)
    (Nat.lt_trans hs (by decide))
  refine ⟨p, ?_, hholds⟩
  rw [printOutput]
  simpa only [bind_assoc] using hp

/-- The functions that print a list. -/
theorem printList_string {α : Type} {ideal : α → Exec Text} {items : List α} {first : String}
    (room : ℕ) (print : α → Exec (Option Block)) {strs : List Text}
    (hroom : 2 * items.length - 1 + 2 ≤ 2 * items.length + room) (hle : room ≤ 2)
    (hstrs : items.mapM ideal = .ok strs)
    (hT : joinedText k (Dump.printStr first [] :: separated "%s" strs ++
      [Dump.printStr "\x7d\n" []]) = .ok T)
    (hitem : ∀ it ∈ items, ∀ s, ideal it = .ok s → Short s → PrintsItem print it s)
    (hfirst : PrintsString (Dump.printStr first []) (ascii first)) (ht : ascii first ≠ [])
    (hs : Short T) : ∃ p, printList m (UInt32.ofNat (room + 1)) first print items = .ok (some p) ∧
      p.Holds T := by
  obtain ⟨hlen, p, hp, hholds⟩ := enclosed_string (m := m) counted print hroom (by omega) hstrs hT
    hitem (by decide) prints_str (fun s => Nat.le_refl _) rfl
    (fun j hj hj' => counted_of_lt hj (Nat.lt_trans hj' (by decide))) hfirst ht
    ⟨rfl, by decide⟩ (List.cons_ne_nil _ _) hs
  refine ⟨p, ?_, hholds⟩
  rw [printList, wlListLength_of_lt (by omega), ok_bind, double_sub_one_add,
    toNat_ofNat (by omega)]
  exact hp

theorem printOutputs_string {server : Server} (hne : server.outputs ≠ [])
    (hcomplete : server.Complete) (h0 : ∀ s ∈ server.texts, 0 ∉ s) (hT : outputsText server = .ok T)
    (hs : Short T) :
    ∃ p, printOutputs m server = .ok (some p) ∧ p.Holds T := by
  obtain ⟨strs, hstrs, hT⟩ := bind_eq_ok.mp hT
  have hpos : 0 < server.outputs.length := List.length_pos_iff.mpr hne
  refine printList_string 1 (printOutput m server.bs server.nws) (by omega) (by decide) hstrs hT
    (fun outp houtp s hs hshort =>
      printOutput_string server.nws_pos (hcomplete outp houtp) (fun t ht => h0 t ?_) hs hshort)
    ⟨rfl, by decide⟩ (by decide) hs
  have hmem : t ∈ server.outputs.flatMap (Output.texts server.bs server.nws) :=
    List.mem_flatMap.mpr ⟨outp, houtp, ht⟩
  simp only [Server.texts, List.mem_append]
  exact .inl (.inl (.inr hmem))

/-! ### Input devices and messages -/

theorem clean_identifier {identifier : Option Text} (h0 : ∀ s ∈ identifier.toList, 0 ∉ s)
    (h : Clean calls) : Clean (printIdentifier identifier :: calls) := by
  cases identifier with
  | none => exact .numbers (by decide) rfl h
  | some identifier => exact .str (by decide) (h0 _ (List.mem_singleton_self _)) h

theorem printKeyboardGroup_string {grp : KeyboardGroup} (h0 : ∀ s ∈ grp.texts, 0 ∉ s)
    (hT : keyboardGroupText grp = .ok T) (hs : Short T) :
    PrintsItem (printKeyboardGroup m) grp T := by
  refine printAll_string hT (by decide) (clean_identifier h0 ?_) hs
  exact .numbers (by decide) rfl <| .numbers (by decide) rfl <| .numbers (by decide) rfl <|
    .numbers (by decide) rfl .nil

theorem printKeyboardGroups_string {server : Server} (h0 : ∀ s ∈ server.texts, 0 ∉ s)
    (hT : keyboardGroupsText server = .ok T) (hs : Short T) :
    ∃ p, printKeyboardGroups m server = .ok (some p) ∧ p.Holds T := by
  obtain ⟨strs, hstrs, hT⟩ := bind_eq_ok.mp hT
  refine printList_string 2 (printKeyboardGroup m) (by omega) (Nat.le_refl 2) hstrs hT
    (fun grp hgrp s hs hshort => printKeyboardGroup_string (fun t ht => h0 t ?_) hs hshort)
    ⟨rfl, by decide⟩ (by decide) hs
  have hmem : t ∈ server.keyboardGroups.flatMap KeyboardGroup.texts :=
    List.mem_flatMap.mpr ⟨grp, hgrp, ht⟩
  simp only [Server.texts, List.mem_append]
  exact .inl (.inr hmem)

theorem zero_notMem_deviceType (type : Option WlrInputDeviceType) : 0 ∉ deviceType type := by
  cases type with
  | none => decide
  | some type => cases type <;> decide

theorem printInputDevice_string {dev : InputDev} (h0 : ∀ s ∈ dev.texts, 0 ∉ s)
    (hT : inputDeviceText dev = .ok T) (hs : Short T) :
    PrintsItem (printInputDevice m) dev T := by
  refine printAll_string hT (by decide) (clean_identifier h0 ?_) hs
  exact .numbers (by decide) rfl <| .str (by decide) (zero_notMem_deviceType _) <|
    .numbers (by decide) rfl .nil

theorem printInputDevices_string {server : Server} (h0 : ∀ s ∈ server.texts, 0 ∉ s)
    (hT : inputDevicesText server = .ok T) (hs : Short T) :
    ∃ p, printInputDevices m server = .ok (some p) ∧ p.Holds T := by
  obtain ⟨strs, hstrs, hT⟩ := bind_eq_ok.mp hT
  refine printList_string 2 (printInputDevice m) (by omega) (Nat.le_refl 2) hstrs hT
    (fun dev hdev s hs hshort => printInputDevice_string (fun t ht => h0 t ?_) hs hshort)
    ⟨rfl, by decide⟩ (by decide) hs
  have hmem : t ∈ server.inputDevices.flatMap InputDev.texts :=
    List.mem_flatMap.mpr ⟨dev, hdev, ht⟩
  simp only [Server.texts, List.mem_append]
  exact .inr hmem

theorem printMessageConf_string {config : MessageConfig} (h0 : 0 ∉ config.font)
    (hT : messageConfText config = .ok T) (hs : Short T) :
    ∃ p, printMessageConf m config = .ok (some p) ∧ p.Holds T := by
  refine printAll_string hT (by decide) ?_ hs
  have hanchor : Clean [config.anchor.text, Dump.printStr "\x7d" []] := by
    cases config.anchor <;> exact .numbers (by decide) rfl (.numbers (by decide) rfl .nil)
  exact .numbers (by decide) rfl <| .str (by decide) h0 <| .numbers (by decide) rfl <|
    .numbers (by decide) rfl <| .numbers (by decide) rfl <| .numbers (by decide) rfl hanchor

end DumpStrings

end Cagebreak
