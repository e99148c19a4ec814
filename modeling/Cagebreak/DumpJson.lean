/-
The text of `dump` as a JSON object.

`dumpJson` is the object that the text stands for.  `dumpText_reads` says of the
text, on a channel that may still change it, when that object is read from it, and
`parse_dumpText_iff` of what has arrived as a whole.
-/
import Cagebreak.DumpTexts
import Cagebreak.Lib.JsonReads

namespace Cagebreak

namespace Dump

open Exec Printf Json

/-! ### The object -/

def int (i : ℤ) : Json := .num (decimal i)

def double (x : CFloat) : Json := .num (fixed x)

def bool (b : Bool) : Json := int (if b then 1 else 0)

/-- A pair of numbers. -/
def pair (k : String) (x : ℤ) (l : String) (y : ℤ) : Json :=
  .obj [(ascii k, int x), (ascii l, int y)]

def View.members (bs : Bool) (view : View) : List (Text × Json) :=
  (ascii "id", int view.id) :: (ascii "pid", int view.pid) ::
    ((if bs then [(ascii "title", .str (view.title.getD []))] else []) ++
    [(ascii "coords", pair "x" view.ox "y" view.oy),
      (ascii "type", .str (if view.xwayland then ascii "xwayland" else ascii "xdg"))])

def Tile.members (tile : Tile) : List (Text × Json) :=
  [(ascii "id", int tile.id), (ascii "coords", pair "x" tile.x "y" tile.y),
    (ascii "size", pair "width" tile.width "height" tile.height),
    (ascii "view_id", int (tile.viewId.getD (-1)))]

/-- A workspace without views has an empty object in their place. -/
def Workspace.members (bs : Bool) (ws : Workspace) : List (Text × Json) :=
  [(ascii "views", .arr (if ws.views = [] then [.obj []]
      else ws.views.map fun view => .obj (view.members bs))),
    (ascii "tiles", .arr ((ws.focusedTile :: ws.tiles).map fun tile => .obj tile.members))]

def Output.member (bs : Bool) (nws : ℕ) (outp : Output) : Text × Json :=
  (outp.name, .obj [(ascii "priority", int outp.priority),
    (ascii "coords", pair "x" outp.x "y" outp.y),
    (ascii "size", pair "width" outp.width "height" outp.height),
    (ascii "refresh_rate", double (.fin outp.refreshRate)),
    (ascii "permanent", bool outp.permanent), (ascii "active", bool (!outp.destroyed)),
    (ascii "curr_workspace", int (outp.currWorkspace + 1)),
    (ascii "workspaces", .arr ((outp.printed nws).map fun ws => .obj (ws.members bs)))])

def KeyboardGroup.member (grp : KeyboardGroup) : Text × Json :=
  (grp.identifier.getD (ascii "NULL"), .obj [(ascii "commands_enabled", bool grp.enableKeybindings),
    (ascii "repeat_delay", int grp.repeatDelay), (ascii "repeat_rate", int grp.repeatRate)])

def InputDev.member (dev : InputDev) : Text × Json :=
  (dev.identifier.getD (ascii "NULL"), .obj [(ascii "is_virtual", bool dev.isVirtual),
    (ascii "type", .str (deviceType dev.type))])

def MessageAnchor.name : MessageAnchor → Text
  | .topLeft => ascii "top_left"
  | .topCenter => ascii "top_center"
  | .topRight => ascii "top_right"
  | .bottomLeft => ascii "bottom_left"
  | .bottomCenter => ascii "bottom_center"
  | .bottomRight => ascii "bottom_right"
  | .center => ascii "center"
  | .noOpt => ascii "no_op"

def MessageConfig.bg (config : MessageConfig) : List CFloat :=
  [config.bgColor.get 0, config.bgColor.get 1, config.bgColor.get 2, config.bgColor.get 3]

def MessageConfig.fg (config : MessageConfig) : List CFloat :=
  [config.fgColor.get 0, config.fgColor.get 1, config.fgColor.get 2, config.fgColor.get 3]

def Server.bg (server : Server) : List CFloat :=
  [server.bgColor.get 0, server.bgColor.get 1, server.bgColor.get 2]

def MessageConfig.json (config : MessageConfig) : Json :=
  .obj [(ascii "font", .str config.font), (ascii "display_time", int config.displayTime),
    (ascii "bg_color", .arr (config.bg.map double)),
    (ascii "fg_color", .arr (config.fg.map double)),
    (ascii "enabled", bool (decide (config.enabled = 1))),
    (ascii "anchor", .str config.anchor.name)]

/-- The member `modes`, which is left out when there are none. -/
def modesMember (modes : List Text) : List (Text × Json) :=
  if modes = [] then [] else [(ascii "modes", .arr (modes.map .str))]

/-- The object that `dump` sends. -/
def dumpJson (server : Server) : Json :=
  .obj ([(ascii "event_name", .str (ascii "dump")), (ascii "nws", int server.nws),
    (ascii "bg_color", .arr (server.bg.map double)),
    (ascii "views_curr_id", int (server.focus.elim (-1) Focus.viewId)),
    (ascii "tiles_curr_id", int ((server.focus.bind Focus.tileId).getD (-1))),
    (ascii "curr_output", .str server.currOutput),
    (ascii "default_mode", .str (getModeName server.modes server.defaultMode))] ++
    modesMember server.modes ++
    [(ascii "message_config", server.messageConfig.json),
    (ascii "outputs", .obj (server.outputs.map (Output.member server.bs server.nws))),
    (ascii "keyboards", .obj (server.keyboardGroups.map KeyboardGroup.member)),
    (ascii "input_devices", .obj (server.inputDevices.map InputDev.member)),
    (ascii "cursor_coords", .obj [(ascii "x", double (.fin server.cursorX)),
      (ascii "y", double (.fin server.cursorY))])])

/-! ### Joined strings -/

variable {E : Text → Text → Prop} {Safe : Text → Prop} {n m nws : ℕ} {bs : Bool} {t u : Text}
  {a : Json} {ok : Prop} {calls : List (Text × List PrintArg)}

/-- The text of a call of `print_str`. -/
def Prints (call : Text × List PrintArg) (t : Text) : Prop := format call.1 call.2 = .ok t

/-- The joined text, from the texts of the calls. -/
theorem joinedText_eq (ts : List Text) (hlen : calls.length ≤ m)
    (h : List.Forall₂ Prints calls ts) :
    joinedText m calls = .ok ts.flatten := by
  have hmap : (calls.mapM fun str => format str.1 str.2) = (.ok ts : Exec (List Text)) := by
    clear hlen
    induction h with
    | nil => rfl
    | cons hd _ ih =>
      rw [List.mapM_cons, show format _ _ = _ from hd, ok_bind, ih]
      rfl
  rw [joinedText, decide_eq_true hlen, hmap]
  rfl

/-- The texts of a loop. -/
theorem separated_forall₂ {fmt : String} {wrap : Text → Text} {strs : List Text}
    (hfmt : ∀ s, Prints (printStr fmt [.str s]) (wrap s)) :
    List.Forall₂ Prints (separated fmt strs) ((strs.map wrap).intersperse [44]) := by
  induction strs with
  | nil => exact .nil
  | cons s strs ih =>
    cases strs with
    | nil => exact .cons (hfmt s) .nil
    | cons s' strs => exact .cons (hfmt s) (.cons rfl ih)

/-! ### Values -/

/-- No character has to be escaped, and the channel does not change it. -/
def Good (Safe : Text → Prop) (s : Text) : Prop := Plain s ∧ Safe s

/-- A space before a value. -/
theorem Reads.spaced (h : Channel E Safe) (hr : Reads E (value n) t a ok) :
    Reads E (value n) (32 :: t) a ok := by
  refine Reads.ws (w := [32]) h value_skips hr fun c hc => ?_
  rw [List.mem_singleton.mp hc]
  decide

def quoted (s : Text) : Text := quote :: (s ++ [quote])

theorem quoted_append (s : Text) : quoted s ++ u = quote :: (s ++ quote :: u) := by
  simp only [quoted, List.cons_append, List.append_assoc, List.nil_append]

theorem reads_quoted (h : Channel E Safe) (n : ℕ) (s : Text) :
    Reads E (value (n + 1)) (quoted s) (.str s) (Good Safe s) := Reads.str h n s

/-- A string that is known. -/
theorem reads_literal (h : Channel E Safe) (n : ℕ) {s : Text} (hs : Plain s ∧ percent ∉ s) :
    Reads E (value (n + 1)) (quoted s) (.str s) True :=
  (Reads.str h n s).congr (iff_of_true ⟨hs.1, h.safe hs.2⟩ trivial)

def pairText (k : String) (x : ℤ) (l : String) (y : ℤ) : Text :=
  123 :: ((named (ascii k) (decimal x) ++ 44 :: named (ascii l) (decimal y)) ++ [125])

/-- Nothing that is not known. -/
def Known (k : String) : Prop := Plain (ascii k) ∧ percent ∉ ascii k

instance : DecidablePred Known := fun k =>
  inferInstanceAs (Decidable (Plain (ascii k) ∧ percent ∉ ascii k))

theorem newlines_nil : ∀ c ∈ ([] : Text), c = 10 := fun _ hc => absurd hc List.not_mem_nil

theorem newlines_singleton : ∀ c ∈ ([10] : Text), c = 10 := fun _ hc => List.mem_singleton.mp hc

theorem reads_pair (h : Channel E Safe) (n : ℕ) {k l : String} (hk : Known k) (hl : Known l)
    (x y : ℤ) : Reads E (value (n + 2)) (pairText k x l y) (pair k x l y) True := by
  refine Reads.obj h ?_
  refine Reads.listOf member_refuses (List.cons_ne_nil _ _) ?_
  refine (ReadsItems.cons (w := []) h (Reads.key h hk (Reads.int h n x)) newlines_nil
    (ReadsItems.last h (Or.inr rfl) (Reads.key h hl (Reads.int h n y)))).congr ?_
  exact iff_of_true ⟨trivial, trivial⟩ trivial

/-- Numbers between brackets. -/
def doublesText (l : List CFloat) : Text := 91 :: (((l.map fixed).intersperse [44]).flatten ++ [93])

theorem reads_doubles (h : Channel E Safe) (n : ℕ) {l : List CFloat} (hne : l ≠ []) :
    Reads E (value (n + 2)) (doublesText l) (.arr (l.map double)) (∀ x ∈ l, Finite x) := by
  refine Reads.arr h ?_
  refine Reads.listOf value_refuses (fun hnil => hne (List.map_eq_nil_iff.mp hnil)) ?_
  have hall : List.Forall₂ (fun x t => Reads E (value (n + 1)) t (double x) (Finite x)) l
      (l.map fixed) := by
    rw [List.forall₂_map_right_iff, List.forall₂_same]
    exact fun x _ => Reads.double h n x
  exact ReadsItems.joined h (Or.inl rfl) hne hall

/-! ### Views and tiles -/

/-- A member on a line of its own, whose value follows a space. -/
theorem ReadsItems.known (h : Channel E Safe) {k : String} {a : Json}
    {as : List (Text × Json)} {ok' : Prop} (hk : Known k) (hr : Reads E (value n) t a ok)
    (hs : ReadsItems E (member (value n)) 125 u as ok') :
    ReadsItems E (member (value n)) 125 ((named (ascii k) (32 :: t) ++ [44, 10]) ++ u)
      ((ascii k, a) :: as) (ok ∧ ok') :=
  ReadsItems.line h member_skips (Reads.key h hk (Reads.spaced h hr)) hs

/-- The last one of them. -/
theorem ReadsItems.knownLast (h : Channel E Safe) {k : String} {a : Json} {w : Text}
    (hk : Known k) (hr : Reads E (value n) t a ok) (hw : ∀ c ∈ w, c = 10) :
    ReadsItems E (member (value n)) 125 (named (ascii k) (32 :: t) ++ w) [(ascii k, a)] ok :=
  (ReadsItems.last h (Or.inr rfl) (Reads.key h hk (Reads.spaced h hr))).newlines hw

theorem pairText_append (k : String) (x : ℤ) (l : String) (y : ℤ) : pairText k x l y ++ u =
    123 :: named (ascii k) (decimal x ++ 44 :: named (ascii l) (decimal y ++ 125 :: u)) := by
  simp only [pairText, named_append, List.cons_append, List.append_assoc, List.nil_append]

theorem tileText_reads (h : Channel E Safe) (n : ℕ) (tile : Tile) :
    Gives (tileText tile) fun t =>
      ReadsItems E (member (value (n + 2))) 125 t tile.members True := by
  refine ⟨_, joinedText_eq [named (ascii "id") (32 :: decimal tile.id) ++ [44, 10],
    named (ascii "coords") (32 :: pairText "x" tile.x "y" tile.y) ++ [44, 10],
    named (ascii "size") (32 :: pairText "width" tile.width "height" tile.height) ++ [44, 10],
    named (ascii "view_id") (32 :: decimal (tile.viewId.getD (-1))) ++ [10]] (Nat.le_refl _) ?_, ?_⟩
  · refine .cons ?_ (.cons ?_ (.cons ?_ (.cons ?_ .nil)))
    · rw [named_append]
      rfl
    · rw [named_append, List.cons_append, pairText_append]
      rfl
    · rw [named_append, List.cons_append, pairText_append]
      rfl
    · rw [named_append]
      rfl
  · show ReadsItems E _ 125 (_ ++ (_ ++ (_ ++ (_ ++ [])))) _ _
    rw [List.append_nil]
    refine (ReadsItems.known h (by decide) (Reads.int h (n + 1) _) <|
      ReadsItems.known h (by decide) (reads_pair h n (by decide) (by decide) _ _) <|
      ReadsItems.known h (by decide) (reads_pair h n (by decide) (by decide) _ _) <|
      ReadsItems.knownLast h (by decide) (Reads.int h (n + 1) _) newlines_singleton).congr ?_
    simp only [and_self]

theorem viewText_reads (h : Channel E Safe) (n : ℕ) (view : View) :
    Gives (viewText bs view) fun t => ReadsItems E (member (value (n + 2))) 125 t
      (view.members bs) (∀ s ∈ view.texts bs, Good Safe s) := by
  have hid : Prints (printStr "\"id\": %d,\n" [.int view.id])
      (named (ascii "id") (32 :: decimal view.id) ++ [44, 10]) := by
    rw [named_append]
    rfl
  have hpid : Prints (printStr "\"pid\": %d,\n" [.int view.pid])
      (named (ascii "pid") (32 :: decimal view.pid) ++ [44, 10]) := by
    rw [named_append]
    rfl
  have htitle : Prints (printStr "\"title\": \"%s\",\n" [.str (view.title.getD [])])
      (named (ascii "title") (32 :: quoted (view.title.getD [])) ++ [44, 10]) := by
    rw [named_append, List.cons_append, quoted_append]
    rfl
  have hcoords : Prints
      (printStr "\"coords\": \x7b\"x\":%d,\"y\":%d\x7d,\n" [.int view.ox, .int view.oy])
      (named (ascii "coords") (32 :: pairText "x" view.ox "y" view.oy) ++ [44, 10]) := by
    rw [named_append, List.cons_append, pairText_append]
    rfl
  generalize hx : (if view.xwayland then ascii "xwayland" else ascii "xdg") = type
  have hreads : Reads E (value (n + 2)) (quoted type) (.str type) True := by
    rw [← hx]
    cases view.xwayland with
    | true => exact reads_literal h (n + 1) (by decide)
    | false => exact reads_literal h (n + 1) (by decide)
  have htype : Prints (printStr "\"type\": \"%s\"\n" [.str type])
      (named (ascii "type") (32 :: quoted type) ++ [10]) := by
    rw [named_append, List.cons_append, quoted_append]
    rfl
  have hlast := ReadsItems.known h (k := "coords") (by decide)
    (reads_pair h n (k := "x") (l := "y") (by decide) (by decide) view.ox view.oy)
    (ReadsItems.knownLast h (k := "type") (by decide) hreads newlines_singleton)
  rw [viewText, View.members, hx]
  -- the title is printed with `--bs` only
  cases bs with
  | true =>
    refine ⟨_, joinedText_eq [_, _, _, _, _] (Nat.le_refl _)
      (.cons hid (.cons hpid (.cons htitle (.cons hcoords (.cons htype .nil))))), ?_⟩
    show ReadsItems E _ 125 (_ ++ (_ ++ (_ ++ (_ ++ (_ ++ []))))) _ _
    rw [List.append_nil]
    refine (ReadsItems.known h (by decide) (Reads.int h (n + 1) _) <|
      ReadsItems.known h (by decide) (Reads.int h (n + 1) _) <|
      ReadsItems.known h (by decide) (reads_quoted h (n + 1) _) hlast).congr ?_
    show True ∧ True ∧ Good Safe _ ∧ True ∧ True ↔ ∀ s ∈ [view.title.getD []], Good Safe s
    rw [List.forall_mem_singleton]
    simp only [true_and, and_true]
  | false =>
    refine ⟨_, joinedText_eq [_, _, _, _] (Nat.le_succ _)
      (.cons hid (.cons hpid (.cons hcoords (.cons htype .nil)))), ?_⟩
    show ReadsItems E _ 125 (_ ++ (_ ++ (_ ++ (_ ++ [])))) _ _
    rw [List.append_nil]
    refine (ReadsItems.known h (by decide) (Reads.int h (n + 1) _) <|
      ReadsItems.known h (by decide) (Reads.int h (n + 1) _) hlast).congr ?_
    exact iff_of_true ⟨trivial, trivial, trivial, trivial⟩ fun s hs => absurd hs List.not_mem_nil

/-! ### Workspaces -/

variable {α X : Type} {as : List (Text × Json)} {xs : List X} {strs : List Text}

/-- Members between braces, each of which is on a line of its own. -/
def braced (s : Text) : Text := 123 :: (([10] ++ (s ++ [10])) ++ [125])

theorem prints_braced (s : Text) : Prints (printStr "\x7b\n%s\n\x7d" [.str s]) (braced s) := by
  rw [braced, List.append_assoc, List.append_assoc]
  rfl

theorem reads_braced (h : Channel E Safe) {s : Text} (hne : as ≠ [])
    (hs : ReadsItems E (member (value n)) 125 s as ok) :
    Reads E (value (n + 1)) (braced s) (.obj as) ok := by
  refine Reads.obj h (Reads.listOf member_refuses hne ?_)
  refine ReadsItems.ws h member_skips (hs.newlines newlines_singleton) fun c hc => ?_
  rw [List.mem_singleton.mp hc]
  decide

/-- A loop that prints objects. -/
theorem objects_reads (h : Channel E Safe) (hne : xs ≠ []) {f : X → List (Text × Json)}
    {okf : X → Prop} (hf : ∀ x, f x ≠ []) (hlen : 2 * strs.length - 1 ≤ m)
    (hs : List.Forall₂ (fun x s => ReadsItems E (member (value n)) 125 s (f x) (okf x)) xs strs) :
    Gives (joinedText m (separated "\x7b\n%s\n\x7d" strs)) fun t =>
      ReadsItems E (value (n + 1)) 93 t (xs.map fun x => .obj (f x)) (∀ x ∈ xs, okf x) := by
  refine ⟨_, joinedText_eq _ (length_separated.trans_le hlen) (separated_forall₂ prints_braced), ?_⟩
  refine ReadsItems.joined h (Or.inl rfl) hne ?_
  rw [List.forall₂_map_right_iff]
  exact hs.imp fun x s hx => reads_braced h (hf x) hx

theorem forall_mem_texts {f : X → List Text} {P : Text → Prop} :
    (∀ x ∈ xs, ∀ s ∈ f x, P s) ↔ ∀ s ∈ xs.flatMap f, P s := by
  simp only [List.mem_flatMap]
  exact ⟨fun hall s ⟨x, hx, hs⟩ => hall x hx s hs, fun hall x hx s hs => hall s ⟨x, hx, hs⟩⟩

theorem viewsText_reads (h : Channel E Safe) (n : ℕ) (ws : Workspace) :
    Gives (viewsText bs ws) fun t => ReadsItems E (value (n + 3)) 93 t
      (if ws.views = [] then [.obj []] else ws.views.map fun view => .obj (view.members bs))
      (∀ s ∈ ws.texts bs, Good Safe s) := by
  rw [viewsText]
  by_cases hnil : ws.views = []
  · rw [if_pos hnil, if_pos hnil]
    refine Gives.ok ?_
    have hempty : ascii "\x7b\x7d" = [123, 125] := rfl
    rw [hempty, Workspace.texts, hnil]
    refine (ReadsItems.last h (Or.inl rfl) (Reads.obj h (Reads.listOf_nil h (Or.inr rfl)))).congr ?_
    exact iff_of_true trivial fun s hs => absurd hs List.not_mem_nil
  · rw [if_neg hnil, if_neg hnil]
    refine Gives.bind (Gives.mapM fun view _ => viewText_reads h n view) fun strs hstrs => ?_
    have hlen := hstrs.length_eq
    refine (objects_reads h hnil (fun _ => List.cons_ne_nil _ _) (by omega) hstrs).mono ?_
    exact fun t ht => ht.congr forall_mem_texts

theorem tilesText_reads (h : Channel E Safe) (n : ℕ) (ws : Workspace) :
    Gives (tilesText ws) fun t => ReadsItems E (value (n + 3)) 93 t
      ((ws.focusedTile :: ws.tiles).map fun tile => .obj tile.members) True := by
  refine Gives.bind (Gives.mapM fun tile _ => tileText_reads h n tile) fun strs hstrs => ?_
  have hlen := hstrs.length_eq
  refine (objects_reads h (List.cons_ne_nil _ _) (fun _ => List.cons_ne_nil _ _) ?_ hstrs).mono ?_
  · omega
  · exact fun t ht => ht.congr (iff_of_true (fun _ _ => trivial) trivial)

theorem prints_str (s : Text) : Prints (printStr "%s" [.str s]) s := by
  show Except.ok (s ++ []) = _
  rw [List.append_nil]

theorem workspaceText_reads (h : Channel E Safe) (n : ℕ) (ws : Workspace) :
    Gives (workspaceText bs ws) fun t => ReadsItems E (member (value (n + 4))) 125 t
      (ws.members bs) (∀ s ∈ ws.texts bs, Good Safe s) := by
  refine Gives.bind (viewsText_reads h n ws) fun views hviews => ?_
  refine Gives.bind (tilesText_reads h n ws) fun tiles htiles => ?_
  refine ⟨_, joinedText_eq [named (ascii "views") [32, 91], views, [93, 44],
    named (ascii "tiles") [32, 91], tiles, [93]] (Nat.le_refl _) ?_, ?_⟩
  · exact .cons rfl (.cons (prints_str _) (.cons rfl (.cons rfl (.cons (prints_str _)
      (.cons rfl .nil)))))
  · have hflat : [named (ascii "views") [32, 91], views, [93, 44], named (ascii "tiles") [32, 91],
        tiles, [93]].flatten = named (ascii "views") (32 :: 91 :: (views ++ [93])) ++
          ([] ++ 44 :: named (ascii "tiles") (32 :: 91 :: (tiles ++ [93]))) := by
      simp only [List.flatten_cons, List.flatten_nil, named_append, List.cons_append,
        List.append_assoc, List.nil_append, List.append_nil]
    rw [hflat]
    have hne : (if ws.views = [] then [Json.obj []]
        else ws.views.map fun view => Json.obj (view.members bs)) ≠ [] := by
      by_cases hnil : ws.views = []
      · rw [if_pos hnil]
        exact List.cons_ne_nil _ _
      · rw [if_neg hnil]
        exact fun hmap => hnil (List.map_eq_nil_iff.mp hmap)
    have hv := Reads.arr h (Reads.listOf value_refuses hne hviews)
    have ht := Reads.arr h (Reads.listOf value_refuses (List.cons_ne_nil _ _) htiles)
    refine (ReadsItems.cons h (Reads.key h (by decide) (Reads.spaced h hv)) newlines_nil
      (ReadsItems.last h (Or.inr rfl) (Reads.key h (by decide) (Reads.spaced h ht)))).congr ?_
    exact and_iff_left trivial

/-- A loop between two strings. -/
theorem enclosed_eq {first last fmt : String} {wrap : Text → Text} {t u : Text}
    (hfirst : Prints (printStr first []) t) (hlast : Prints (printStr last []) u)
    (hfmt : ∀ s, Prints (printStr fmt [.str s]) (wrap s)) (hlen : 2 * strs.length - 1 + 2 ≤ m) :
    joinedText m (printStr first [] :: separated fmt strs ++ [printStr last []]) =
      .ok (t ++ (((strs.map wrap).intersperse [44]).flatten ++ u)) := by
  rw [joinedText_eq (t :: (strs.map wrap).intersperse [44] ++ [u])]
  · rw [List.cons_append, List.flatten_cons, List.flatten_append, List.flatten_singleton]
  · simp only [List.cons_append, List.length_cons, List.length_append, List.length_nil,
      length_separated]
    omega
  · exact .cons hfirst (List.rel_append (separated_forall₂ hfmt) (.cons hlast .nil))

theorem workspacesText_reads (h : Channel E Safe) (n : ℕ) (hn : 1 ≤ nws) {outp : Output}
    (hws : nws ≤ outp.workspaces.length) :
    Gives (workspacesText bs nws outp) fun t => ReadsItems E (member (value (n + 6))) 125 t
      [(ascii "workspaces", .arr ((outp.printed nws).map fun ws => .obj (ws.members bs)))]
      (∀ s ∈ (outp.printed nws).flatMap (Workspace.texts bs), Good Safe s) := by
  refine Gives.bind (Gives.mapM fun ws _ => workspaceText_reads h n ws) fun strs hstrs => ?_
  have hlen := hstrs.length_eq
  have hprinted := length_printed hws
  have hwrap : ∀ s, Prints (printStr "\x7b%s\x7d" [.str s]) (123 :: (s ++ [125])) := fun _ => rfl
  refine ⟨_, enclosed_eq (t := named (ascii "workspaces") [32, 91]) (u := [93, 10]) rfl rfl hwrap
    (by omega), ?_⟩
  have hne : outp.printed nws ≠ [] := by
    rw [← List.length_pos_iff, hprinted]
    exact hn
  have hall : List.Forall₂ (fun ws t => Reads E (value (n + 5)) t (.obj (ws.members bs))
      (∀ s ∈ ws.texts bs, Good Safe s)) (outp.printed nws)
      (strs.map fun s => 123 :: (s ++ [125])) := by
    rw [List.forall₂_map_right_iff]
    exact hstrs.imp fun ws s hs =>
      Reads.obj h (Reads.listOf member_refuses (List.cons_ne_nil _ _) hs)
  have hitems := ReadsItems.joined h (Or.inl rfl) hne hall
  have harr := Reads.arr h (Reads.listOf value_refuses
    (fun hnil => hne (List.map_eq_nil_iff.mp hnil)) hitems)
  have hflat : ∀ u : Text, named (ascii "workspaces") [32, 91] ++ (u ++ [93, 10]) =
      named (ascii "workspaces") (32 :: 91 :: (u ++ [93])) ++ [10] := by
    intro u
    simp only [named_append, List.cons_append, List.append_assoc, List.nil_append]
  rw [hflat]
  exact (ReadsItems.knownLast h (by decide) harr newlines_singleton).congr forall_mem_texts

/-! ### Outputs -/

/-- A line with a number. -/
theorem reads_int_line (h : Channel E Safe) {k : String} (hk : Known k) (i : ℤ)
    (hs : ReadsItems E (member (value (n + 1))) 125 u as ok) :
    ReadsItems E (member (value (n + 1))) 125
      ((named (ascii k) (32 :: decimal i) ++ [44, 10]) ++ u) ((ascii k, int i) :: as) ok :=
  (ReadsItems.known h hk (Reads.int h n i) hs).congr (iff_of_eq (true_and _))

/-- A line with a pair of numbers. -/
theorem reads_pair_line (h : Channel E Safe) {k l l' : String} (hk : Known k) (hl : Known l)
    (hl' : Known l') (x y : ℤ) (hs : ReadsItems E (member (value (n + 2))) 125 u as ok) :
    ReadsItems E (member (value (n + 2))) 125
      ((named (ascii k) (32 :: pairText l x l' y) ++ [44, 10]) ++ u)
      ((ascii k, pair l x l' y) :: as) ok :=
  (ReadsItems.known h hk (reads_pair h n hl hl' x y) hs).congr (iff_of_eq (true_and _))

theorem outputText_reads (h : Channel E Safe) (n : ℕ) (hn : 1 ≤ nws) {outp : Output}
    (hws : nws ≤ outp.workspaces.length) :
    Gives (outputText bs nws outp) fun t => Reads E (member (value (n + 7))) t
      (outp.member bs nws) (∀ s ∈ outp.texts bs nws, Good Safe s) := by
  refine Gives.bind (workspacesText_reads h n hn hws) fun workspaces hworkspaces => ?_
  refine ⟨_, joinedText_eq [named outp.name [32, 123, 10],
    named (ascii "priority") (32 :: decimal outp.priority) ++ [44, 10],
    named (ascii "coords") (32 :: pairText "x" outp.x "y" outp.y) ++ [44, 10],
    named (ascii "size") (32 :: pairText "width" outp.width "height" outp.height) ++ [44, 10],
    named (ascii "refresh_rate") (32 :: fixed (.fin outp.refreshRate)) ++ [44, 10],
    named (ascii "permanent") (32 :: decimal (if outp.permanent then 1 else 0)) ++ [44, 10],
    named (ascii "active") (32 :: decimal (if !outp.destroyed then 1 else 0)) ++ [44, 10],
    named (ascii "curr_workspace") (32 :: decimal (outp.currWorkspace + 1)) ++ [44, 10],
    workspaces, [125]] (Nat.le_refl _) ?_, ?_⟩
  · simp only [named_append, List.cons_append, pairText_append]
    exact .cons rfl (.cons rfl (.cons rfl (.cons rfl (.cons rfl (.cons rfl (.cons rfl (.cons rfl
      (.cons (prints_str _) (.cons rfl .nil)))))))))
  · have hlines := reads_int_line h (k := "priority") (by decide) outp.priority <|
      reads_pair_line h (by decide : Known "coords") (by decide : Known "x") (by decide : Known "y")
        outp.x outp.y <|
      reads_pair_line h (by decide : Known "size") (by decide : Known "width")
        (by decide : Known "height") outp.width outp.height <|
      ReadsItems.known h (k := "refresh_rate") (by decide)
        (Reads.double h (n + 5) (.fin outp.refreshRate)) <|
      reads_int_line h (k := "permanent") (by decide) (if outp.permanent then 1 else 0) <|
      reads_int_line h (k := "active") (by decide) (if !outp.destroyed then 1 else 0) <|
      reads_int_line h (k := "curr_workspace") (by decide) (outp.currWorkspace + 1) hworkspaces
    have hobj := Reads.obj h (Reads.listOf member_refuses (List.cons_ne_nil _ _)
      (ReadsItems.ws (w := [10]) h member_skips hlines (by decide)))
    have hmember := Reads.member h outp.name (Reads.spaced h hobj)
    simp only [named_append, List.cons_append, List.append_assoc, List.nil_append] at hmember
    simp only [List.flatten_cons, List.flatten_nil, named_append, List.cons_append,
      List.append_assoc, List.nil_append, List.append_nil]
    refine hmember.congr ?_
    rw [Output.texts, List.forall_mem_cons]
    exact and_congr_right fun _ => and_iff_right trivial

/-- A loop that prints the members of an object, which may have none. -/
theorem members_reads (h : Channel E Safe) {f : X → Text × Json} {okf : X → Prop}
    (hs : List.Forall₂ (fun x s => Reads E (member (value n)) s (f x) (okf x)) xs strs) :
    Reads E (value (n + 1)) (123 :: ((strs.intersperse [44]).flatten ++ [125])) (.obj (xs.map f))
      (∀ x ∈ xs, okf x) := by
  refine Reads.obj h ?_
  cases xs with
  | nil =>
    cases hs
    exact (Reads.listOf_nil h (Or.inr rfl)).congr
      (iff_of_true trivial fun x hx => absurd hx List.not_mem_nil)
  | cons x xs =>
    exact Reads.listOf member_refuses (List.cons_ne_nil _ _)
      (ReadsItems.joined h (Or.inr rfl) (List.cons_ne_nil _ _) hs)

/-- Such a loop, with the name of the object. -/
theorem named_members (h : Channel E Safe) (first k : String) {f : X → Text × Json}
    {okf : X → Prop} (hfirst : Prints (printStr first []) (named (ascii k) [32, 123]))
    (hlen : 2 * strs.length - 1 + 2 ≤ m)
    (hs : List.Forall₂ (fun x s => Reads E (member (value n)) s (f x) (okf x)) xs strs) :
    Gives
      (joinedText m (printStr first [] :: separated "%s" strs ++ [printStr "\x7d\n" []])) fun t =>
      ∃ u, t = named (ascii k) (32 :: u) ++ [10] ∧
        Reads E (value (n + 1)) u (.obj (xs.map f)) (∀ x ∈ xs, okf x) := by
  refine ⟨_, enclosed_eq (u := [125, 10]) hfirst rfl prints_str hlen, _, ?_, members_reads h hs⟩
  rw [List.map_id']
  simp only [named_append, List.cons_append, List.append_assoc, List.nil_append]

theorem outputsText_reads (h : Channel E Safe) (n : ℕ) (server : Server)
    (hne : server.outputs ≠ []) (hcomplete : server.Complete) :
    Gives (outputsText server) fun t => ∃ u, t = named (ascii "outputs") (32 :: u) ++ [10] ∧
      Reads E (value (n + 8)) u (.obj (server.outputs.map (Output.member server.bs server.nws)))
        (∀ s ∈ server.outputs.flatMap (Output.texts server.bs server.nws), Good Safe s) := by
  refine Gives.bind (Gives.mapM fun outp houtp =>
    outputText_reads h n server.nws_pos (hcomplete outp houtp)) ?_
  intro strs hstrs
  have hlen := hstrs.length_eq
  have hpos := List.length_pos_iff.mpr hne
  refine (named_members h "\"outputs\": \x7b" "outputs" rfl (by omega) hstrs).mono ?_
  rintro t ⟨u, ht, hu⟩
  exact ⟨u, ht, hu.congr forall_mem_texts⟩

/-! ### Input devices -/

theorem prints_identifier (identifier : Option Text) :
    Prints (printIdentifier identifier) (named (identifier.getD (ascii "NULL")) [32, 123, 10]) := by
  cases identifier with
  | none => rfl
  | some identifier => rfl

/-- An object with the name of a device. -/
theorem reads_identifier (h : Channel E Safe) (identifier : Option Text)
    (hs : ReadsItems E (member (value n)) 125 t as ok) (hne : as ≠ []) {u : Text}
    (hu : u = named (identifier.getD (ascii "NULL")) (32 :: 123 :: 10 :: (t ++ [125]))) :
    Reads E (member (value (n + 1))) u (identifier.getD (ascii "NULL"), .obj as)
      ((∀ s ∈ identifier.toList, Good Safe s) ∧ ok) := by
  have hobj := Reads.spaced h (Reads.obj h (Reads.listOf member_refuses hne
    (ReadsItems.ws (w := [10]) h member_skips hs (by decide))))
  rw [hu]
  cases identifier with
  | none =>
    refine (Reads.key h (k := ascii "NULL") (by decide) hobj).congr ?_
    exact (and_iff_right fun s hs => absurd hs List.not_mem_nil).symm
  | some identifier =>
    refine (Reads.member h identifier hobj).congr (and_congr_left fun _ => ?_)
    show Good Safe identifier ↔ ∀ s ∈ [identifier], Good Safe s
    exact List.forall_mem_singleton.symm

theorem keyboardGroupText_reads (h : Channel E Safe) (n : ℕ) (grp : KeyboardGroup) :
    Gives (keyboardGroupText grp) fun t =>
      Reads E (member (value (n + 2))) t grp.member (∀ s ∈ grp.texts, Good Safe s) := by
  have hlines := reads_int_line h (k := "commands_enabled") (by decide)
      (if grp.enableKeybindings then 1 else 0) <|
    reads_int_line h (k := "repeat_delay") (by decide) grp.repeatDelay <|
    ReadsItems.knownLast h (k := "repeat_rate") (by decide) (Reads.int h n grp.repeatRate)
      newlines_singleton
  refine ⟨_, joinedText_eq [named (grp.identifier.getD (ascii "NULL")) [32, 123, 10],
    named (ascii "commands_enabled") (32 :: decimal (if grp.enableKeybindings then 1 else 0)) ++
      [44, 10],
    named (ascii "repeat_delay") (32 :: decimal grp.repeatDelay) ++ [44, 10],
    named (ascii "repeat_rate") (32 :: decimal grp.repeatRate) ++ [10], [125]]
      (Nat.le_refl _) ?_, ?_⟩
  · simp only [named_append, List.cons_append]
    exact .cons (prints_identifier _) (.cons rfl (.cons rfl (.cons rfl (.cons rfl .nil))))
  · refine (reads_identifier h grp.identifier hlines (List.cons_ne_nil _ _) ?_).congr
      (and_iff_left trivial)
    simp only [List.flatten_cons, List.flatten_nil, named_append, List.cons_append,
      List.append_assoc, List.nil_append, List.append_nil]

theorem keyboardGroupsText_reads (h : Channel E Safe) (n : ℕ) (server : Server) :
    Gives (keyboardGroupsText server) fun t => ∃ u,
      t = named (ascii "keyboards") (32 :: u) ++ [10] ∧
      Reads E (value (n + 3)) u (.obj (server.keyboardGroups.map KeyboardGroup.member))
        (∀ s ∈ server.keyboardGroups.flatMap KeyboardGroup.texts, Good Safe s) := by
  refine Gives.bind (Gives.mapM fun grp _ => keyboardGroupText_reads h n grp) fun strs hstrs => ?_
  have hlen := hstrs.length_eq
  refine (named_members h "\"keyboards\": \x7b" "keyboards" rfl (by omega) hstrs).mono ?_
  rintro t ⟨u, ht, hu⟩
  exact ⟨u, ht, hu.congr forall_mem_texts⟩

theorem known_deviceType (type : Option WlrInputDeviceType) :
    Plain (deviceType type) ∧ percent ∉ deviceType type := by
  cases type with
  | none => decide
  | some type => cases type <;> decide

theorem inputDeviceText_reads (h : Channel E Safe) (n : ℕ) (dev : InputDev) :
    Gives (inputDeviceText dev) fun t =>
      Reads E (member (value (n + 2))) t dev.member (∀ s ∈ dev.texts, Good Safe s) := by
  have hlines := reads_int_line h (k := "is_virtual") (by decide)
      (if dev.isVirtual then 1 else 0) <|
    ReadsItems.knownLast h (k := "type") (by decide)
      (reads_literal h n (known_deviceType dev.type)) newlines_singleton
  refine ⟨_, joinedText_eq [named (dev.identifier.getD (ascii "NULL")) [32, 123, 10],
    named (ascii "is_virtual") (32 :: decimal (if dev.isVirtual then 1 else 0)) ++ [44, 10],
    named (ascii "type") (32 :: quoted (deviceType dev.type)) ++ [10], [125]]
      (Nat.le_refl _) ?_, ?_⟩
  · simp only [named_append, List.cons_append, quoted_append]
    exact .cons (prints_identifier _) (.cons rfl (.cons rfl (.cons rfl .nil)))
  · refine (reads_identifier h dev.identifier hlines (List.cons_ne_nil _ _) ?_).congr
      (and_iff_left trivial)
    simp only [List.flatten_cons, List.flatten_nil, named_append, List.cons_append,
      List.append_assoc, List.nil_append, List.append_nil]

theorem inputDevicesText_reads (h : Channel E Safe) (n : ℕ) (server : Server) :
    Gives (inputDevicesText server) fun t => ∃ u,
      t = named (ascii "input_devices") (32 :: u) ++ [10] ∧
      Reads E (value (n + 3)) u (.obj (server.inputDevices.map InputDev.member))
        (∀ s ∈ server.inputDevices.flatMap InputDev.texts, Good Safe s) := by
  refine Gives.bind (Gives.mapM fun dev _ => inputDeviceText_reads h n dev) fun strs hstrs => ?_
  have hlen := hstrs.length_eq
  refine (named_members h "\"input_devices\": \x7b" "input_devices" rfl (by omega) hstrs).mono ?_
  rintro t ⟨u, ht, hu⟩
  exact ⟨u, ht, hu.congr forall_mem_texts⟩

/-! ### The whole text -/

theorem doublesText_three (x y z : CFloat) : doublesText [x, y, z] ++ u =
    91 :: (fixed x ++ 44 :: (fixed y ++ 44 :: (fixed z ++ 93 :: u))) := by
  simp only [doublesText, List.map_cons, List.map_nil, List.intersperse_cons_cons,
    List.intersperse_singleton, List.flatten_cons, List.flatten_nil, List.cons_append,
    List.append_assoc, List.nil_append]

theorem doublesText_four (x y z w : CFloat) : doublesText [x, y, z, w] ++ u =
    91 :: (fixed x ++ 44 :: (fixed y ++ 44 :: (fixed z ++ 44 :: (fixed w ++ 93 :: u)))) := by
  simp only [doublesText, List.map_cons, List.map_nil, List.intersperse_cons_cons,
    List.intersperse_singleton, List.flatten_cons, List.flatten_nil, List.cons_append,
    List.append_assoc, List.nil_append]

theorem prints_anchor (anchor : MessageAnchor) :
    Prints anchor.text (named (ascii "anchor") (32 :: quoted anchor.name) ++ [10]) := by
  rw [named_append, List.cons_append, quoted_append]
  cases anchor <;> rfl

theorem known_anchor (anchor : MessageAnchor) : Plain anchor.name ∧ percent ∉ anchor.name := by
  cases anchor <;> decide

theorem messageConfText_reads (h : Channel E Safe) (n : ℕ) (config : MessageConfig) :
    Gives (messageConfText config) fun t =>
      Reads E (member (value (n + 3))) t (ascii "message_config", config.json)
        (Good Safe config.font ∧ (∀ x ∈ config.bg, Finite x) ∧ ∀ x ∈ config.fg, Finite x) := by
  have hlines := ReadsItems.known h (k := "font") (by decide)
    (reads_quoted h (n + 1) config.font) <|
    reads_int_line h (k := "display_time") (by decide) config.displayTime <|
    ReadsItems.known h (k := "bg_color") (by decide)
      (reads_doubles h n (l := config.bg) (List.cons_ne_nil _ _)) <|
    ReadsItems.known h (k := "fg_color") (by decide)
      (reads_doubles h n (l := config.fg) (List.cons_ne_nil _ _)) <|
    reads_int_line h (k := "enabled") (by decide) (if decide (config.enabled = 1) then 1 else 0) <|
    ReadsItems.knownLast h (k := "anchor") (by decide)
      (reads_literal h (n + 1) (known_anchor config.anchor)) newlines_singleton
  refine ⟨_, joinedText_eq [named (ascii "message_config") [32, 123],
    named (ascii "font") (32 :: quoted config.font) ++ [44, 10],
    named (ascii "display_time") (32 :: decimal config.displayTime) ++ [44, 10],
    named (ascii "bg_color") (32 :: doublesText config.bg) ++ [44, 10],
    named (ascii "fg_color") (32 :: doublesText config.fg) ++ [44, 10],
    named (ascii "enabled") (32 :: decimal (if decide (config.enabled = 1) then 1 else 0)) ++
      [44, 10],
    named (ascii "anchor") (32 :: quoted config.anchor.name) ++ [10], [125]] (Nat.le_refl _) ?_, ?_⟩
  · refine .cons rfl (.cons ?_ (.cons ?_ (.cons ?_ (.cons ?_ (.cons ?_
      (.cons (prints_anchor _) (.cons rfl .nil)))))))
    · rw [named_append, List.cons_append, quoted_append]
      rfl
    · rw [named_append]
      rfl
    · rw [named_append, List.cons_append, MessageConfig.bg, doublesText_four]
      rfl
    · rw [named_append, List.cons_append, MessageConfig.fg, doublesText_four]
      rfl
    · rw [named_append]
      rfl
  · have hobj := Reads.key h (k := ascii "message_config") (by decide) (Reads.spaced h
      (Reads.obj h (Reads.listOf member_refuses (List.cons_ne_nil _ _) hlines)))
    simp only [named_append, List.cons_append, List.append_assoc, List.nil_append] at hobj
    simp only [List.flatten_cons, List.flatten_nil, named_append, List.cons_append,
      List.append_assoc, List.nil_append, List.append_nil]
    exact hobj.congr (and_congr_right fun _ => and_congr_right fun _ => and_iff_left trivial)

/-- The names of the modes, as `print_modes` joins them. -/
theorem quoted_modes {modes : List Text} (hne : modes ≠ []) :
    quote :: ((modes.intersperse (ascii "\",\"")).flatten ++ [quote]) =
      ((modes.map quoted).intersperse [44]).flatten := by
  induction modes with
  | nil => exact absurd rfl hne
  | cons mode modes ih =>
    cases modes with
    | nil =>
      simp only [List.intersperse_singleton, List.flatten_cons, List.flatten_nil, List.append_nil,
        List.map_cons, List.map_nil, quoted]
    | cons mode' modes =>
      have hsep : ascii "\",\"" = [quote, 44, quote] := rfl
      have ih := ih (List.cons_ne_nil _ _)
      rw [List.intersperse_cons_cons, List.map_cons, List.map_cons, List.intersperse_cons_cons,
        List.flatten_cons, List.flatten_cons, List.flatten_cons, List.flatten_cons, ← List.map_cons,
        ← ih, quoted, hsep]
      simp only [List.cons_append, List.append_assoc, List.nil_append]

theorem modesCalls_reads (h : Channel E Safe) (modes : List Text) {as : List (Text × Json)}
    (hs : ReadsItems E (member (value (n + 2))) 125 u as ok) :
    ∃ ts, List.Forall₂ Prints (modesCalls modes) ts ∧
      ReadsItems E (member (value (n + 2))) 125 (ts.flatten ++ u) (modesMember modes ++ as)
        ((∀ s ∈ modes, Good Safe s) ∧ ok) := by
  rw [modesCalls, modesMember]
  by_cases hnil : modes = []
  · rw [if_pos hnil, if_pos hnil, hnil]
    exact ⟨[], .nil, hs.congr (and_iff_right fun s hs => absurd hs List.not_mem_nil).symm⟩
  · rw [if_neg hnil, if_neg hnil]
    have hall : List.Forall₂ (fun s t => Reads E (value (n + 1)) t (.str s) (Good Safe s)) modes
        (modes.map quoted) := by
      rw [List.forall₂_map_right_iff, List.forall₂_same]
      exact fun s _ => Reads.str h n s
    have harr := Reads.arr h (Reads.listOf value_refuses
      (fun hmap => hnil (List.map_eq_nil_iff.mp hmap)) (ReadsItems.joined h (Or.inl rfl) hnil hall))
    refine ⟨[named (ascii "modes")
        (91 :: (((modes.map quoted).intersperse [44]).flatten ++ [93])) ++
      [44, 10]], .cons ?_ .nil, ?_⟩
    · rw [← quoted_modes hnil, named_append]
      simp only [List.cons_append, List.append_assoc, List.nil_append]
      rfl
    · rw [List.flatten_singleton]
      exact ReadsItems.line h member_skips (Reads.key h (by decide) harr) hs

/-- A member on a line of its own, whose value follows at once. -/
theorem ReadsItems.close (h : Channel E Safe) {k : String} {a : Json} {ok' : Prop} (hk : Known k)
    (hr : Reads E (value n) t a ok) (hs : ReadsItems E (member (value n)) 125 u as ok') :
    ReadsItems E (member (value n)) 125 ((named (ascii k) t ++ [44, 10]) ++ u)
      ((ascii k, a) :: as) (ok ∧ ok') :=
  ReadsItems.line h member_skips (Reads.key h hk hr) hs

/-- A member that another function has printed, with the newline at its end. -/
theorem ReadsItems.printed (h : Channel E Safe) {k : String} {a : Json} {ok' : Prop} {s : Text}
    (hk : Known k) (hs : s = named (ascii k) (32 :: t) ++ [10]) (hr : Reads E (value n) t a ok)
    (hu : ReadsItems E (member (value n)) 125 u as ok') :
    ReadsItems E (member (value n)) 125 ((s ++ [44]) ++ u) ((ascii k, a) :: as) (ok ∧ ok') := by
  rw [hs, List.append_assoc, List.append_assoc]
  exact ReadsItems.cons h (Reads.key h hk (Reads.spaced h hr)) newlines_singleton hu

def cursorText (x y : ℚ) : Text :=
  123 :: ((named (ascii "x") (fixed (.fin x)) ++ 44 :: named (ascii "y") (fixed (.fin y))) ++ [125])

theorem reads_cursor (h : Channel E Safe) (n : ℕ) (x y : ℚ) :
    Reads E (value (n + 2)) (cursorText x y)
      (.obj [(ascii "x", double (.fin x)), (ascii "y", double (.fin y))]) True := by
  refine Reads.obj h (Reads.listOf member_refuses (List.cons_ne_nil _ _) ?_)
  refine (ReadsItems.cons (w := []) h (Reads.key h (by decide) (Reads.double h n (.fin x)))
    newlines_nil (ReadsItems.last h (Or.inr rfl)
      (Reads.key h (by decide) (Reads.double h n (.fin y))))).congr ?_
  exact iff_of_true ⟨trivial, trivial⟩ trivial

theorem prints_cursor (x y : ℚ) : Prints
    (printStr "\"cursor_coords\":\x7b\"x\":%f,\"y\":%f\x7d\n" [.double (.fin x), .double (.fin y)])
    (named (ascii "cursor_coords") (cursorText x y) ++ [10]) := by
  have htext : cursorText x y ++ [10] = 123 :: named (ascii "x") (fixed (.fin x) ++
      44 :: named (ascii "y") (fixed (.fin y) ++ [125, 10])) := by
    simp only [cursorText, named_append, List.cons_append, List.append_assoc, List.nil_append]
  rw [named_append, htext]
  rfl

/-- The strings need no escaping and reach the clients, and the colours are
numbers. -/
structure Clean (Safe : Text → Prop) (server : Server) : Prop where
  strings : ∀ s ∈ server.texts, Good Safe s
  colours : ∀ x ∈ server.bg ++ server.messageConfig.bg ++ server.messageConfig.fg, Finite x

theorem good_getModeName (h : Channel E Safe) {modes : List Text} {i : ℕ}
    (hmodes : ∀ s ∈ modes, Good Safe s) : Good Safe (getModeName modes i) := by
  rw [getModeName]
  cases hget : modes[i]? with
  | none =>
    have hknown : Known "NULL" := by decide
    exact ⟨hknown.1, h.safe hknown.2⟩
  | some mode => exact hmodes mode (List.mem_of_getElem? hget)

/-- A member before a comma. -/
theorem ReadsItems.comma (h : Channel E Safe) {a : Text × Json} {ok' : Prop}
    (hr : Reads E (member (value n)) t a ok)
    (hu : ReadsItems E (member (value n)) 125 u as ok') :
    ReadsItems E (member (value n)) 125 ((t ++ [44]) ++ u) (a :: as) (ok ∧ ok') := by
  rw [List.append_assoc]
  exact ReadsItems.cons (w := []) h hr newlines_nil hu

theorem prints_comma (s : Text) : Prints (printStr "%s," [.str s]) (s ++ [44]) := rfl

/-- **The text of `dump`** is read as the object exactly when the server is
clean. -/
theorem dumpText_reads (h : Channel E Safe) (n : ℕ) (server : Server)
    (hne : server.outputs ≠ []) (hcomplete : server.Complete) :
    Gives (dumpText server) fun t => (∃ u, t = 123 :: named (ascii "event_name") u) ∧
      Reads E (value (n + 9)) t (dumpJson server) (Clean Safe server) := by
  refine Gives.bind (messageConfText_reads h (n + 5) _) fun message hmessage => ?_
  refine Gives.bind (outputsText_reads h n server hne hcomplete) fun outps houtps => ?_
  refine Gives.bind (keyboardGroupsText_reads h (n + 5) server) fun keyboards hkeyboards => ?_
  refine Gives.bind (inputDevicesText_reads h (n + 5) server) fun inputDevs hinputDevs => ?_
  obtain ⟨u₁, hu₁, houtps⟩ := houtps
  obtain ⟨u₂, hu₂, hkeyboards⟩ := hkeyboards
  obtain ⟨u₃, hu₃, hinputDevs⟩ := hinputDevs
  -- the members from the message configuration on: the text is read from its end
  have hend := ReadsItems.comma h hmessage <|
    ReadsItems.printed h (k := "outputs") (by decide) hu₁ houtps <|
    ReadsItems.printed h (k := "keyboards") (by decide) hu₂ hkeyboards <|
    ReadsItems.printed h (k := "input_devices") (by decide) hu₃ hinputDevs <|
    (ReadsItems.last h (Or.inr rfl) (Reads.key h (k := ascii "cursor_coords") (by decide)
      (reads_cursor h (n + 6) server.cursorX server.cursorY))).newlines newlines_singleton
  obtain ⟨ts, hts, hmodes⟩ := modesCalls_reads h server.modes hend
  have hall := ReadsItems.comma h (Reads.key h (k := ascii "event_name") (by decide)
      (reads_literal h (n + 7) (s := ascii "dump") (by decide))) <|
    ReadsItems.close h (k := "nws") (by decide) (Reads.int h (n + 7) server.nws) <|
    ReadsItems.close h (k := "bg_color") (by decide)
      (reads_doubles h (n + 6) (l := server.bg) (List.cons_ne_nil _ _)) <|
    ReadsItems.close h (k := "views_curr_id") (by decide)
      (Reads.int h (n + 7) (server.focus.elim (-1) Focus.viewId)) <|
    ReadsItems.close h (k := "tiles_curr_id") (by decide)
      (Reads.int h (n + 7) ((server.focus.bind Focus.tileId).getD (-1))) <|
    ReadsItems.close h (k := "curr_output") (by decide)
      (reads_quoted h (n + 7) server.currOutput) <|
    ReadsItems.close h (k := "default_mode") (by decide)
      (reads_quoted h (n + 7) (getModeName server.modes server.defaultMode)) hmodes
  have hobj := Reads.obj h (Reads.listOf member_refuses (List.cons_ne_nil _ _) hall)
  refine ⟨_, joinedText_eq (
    [123 :: (named (ascii "event_name") (quoted (ascii "dump")) ++ [44]),
      named (ascii "nws") (decimal server.nws) ++ [44, 10],
      named (ascii "bg_color") (doublesText server.bg) ++ [44, 10],
      named (ascii "views_curr_id") (decimal (server.focus.elim (-1) Focus.viewId)) ++ [44, 10],
      named (ascii "tiles_curr_id") (decimal ((server.focus.bind Focus.tileId).getD (-1))) ++
        [44, 10],
      named (ascii "curr_output") (quoted server.currOutput) ++ [44, 10],
      named (ascii "default_mode") (quoted (getModeName server.modes server.defaultMode)) ++
        [44, 10]] ++ ts ++
    [message ++ [44], outps ++ [44], keyboards ++ [44], inputDevs ++ [44],
      named (ascii "cursor_coords") (cursorText server.cursorX server.cursorY) ++ [10],
      [125]]) ?_ ?_, ?_⟩
  · obtain ⟨-, hlen, -⟩ := modesCalls_spec server.modes
    simp only [List.cons_append, List.nil_append, List.length_cons, List.length_append,
      List.length_nil]
    omega
  · refine List.rel_append (List.rel_append ?_ hts) ?_
    · refine .cons rfl (.cons ?_ (.cons ?_ (.cons ?_ (.cons ?_ (.cons ?_ (.cons ?_ .nil))))))
      · rw [named_append]
        rfl
      · rw [named_append, Server.bg, doublesText_three]
        rfl
      · rw [named_append]
        rfl
      · rw [named_append]
        rfl
      · rw [named_append, quoted_append]
        rfl
      · rw [named_append, quoted_append]
        rfl
    · exact .cons (prints_comma _) (.cons (prints_comma _) (.cons (prints_comma _)
        (.cons (prints_comma _) (.cons (prints_cursor _ _) (.cons rfl .nil)))))
  · simp only [named_append, List.cons_append, List.append_assoc, List.nil_append] at hobj
    simp only [List.flatten_append, List.flatten_cons, List.flatten_nil, named_append,
      List.cons_append, List.append_assoc, List.nil_append, List.append_nil]
    refine ⟨⟨_, rfl⟩, hobj.congr ?_⟩
    constructor
    -- each member asks for the strings and colours that it prints
    · rintro ⟨-, -, hbg, -, -, houtput, -, hmodes, ⟨hfont, hbg', hfg⟩, houtps, hgrps, hdevs, -⟩
      refine ⟨fun s hs => ?_, fun x hx => ?_⟩
      · simp only [Server.texts, List.cons_append, List.mem_cons, List.mem_append] at hs
        obtain rfl | rfl | ((hs | hs) | hs) | hs := hs
        · exact houtput
        · exact hfont
        · exact hmodes s hs
        · exact houtps s hs
        · exact hgrps s hs
        · exact hdevs s hs
      · rw [List.mem_append, List.mem_append] at hx
        obtain (hx | hx) | hx := hx
        · exact hbg x hx
        · exact hbg' x hx
        · exact hfg x hx
    · rintro ⟨hstrings, hcolours⟩
      simp only [Server.texts, List.cons_append, List.forall_mem_cons, List.forall_mem_append]
        at hstrings
      simp only [List.forall_mem_append] at hcolours
      obtain ⟨houtput, hfont, ⟨⟨hmodes, houtps⟩, hgrps⟩, hdevs⟩ := hstrings
      obtain ⟨⟨hbg, hbg'⟩, hfg⟩ := hcolours
      exact ⟨trivial, trivial, hbg, trivial, trivial, houtput, good_getModeName h hmodes, hmodes,
        ⟨hfont, hbg', hfg⟩, houtps, hgrps, hdevs, trivial⟩

/-- **The text of `dump`**, as it arrives, is that object exactly when the server is
clean. -/
theorem parse_dumpText_iff (h : Channel E Safe) {server : Server} {y : Text}
    (hne : server.outputs ≠ []) (hcomplete : server.Complete) (ht : dumpText server = .ok t)
    (hE : E t y) : parse y = some (dumpJson server) ↔ Clean Safe server := by
  have hreads : ∀ n, (∃ u, t = 123 :: named (ascii "event_name") u) ∧
      Reads E (value (n + 9)) t (dumpJson server) (Clean Safe server) := by
    intro n
    obtain ⟨t', ht', hread⟩ := dumpText_reads h n server hne hcomplete
    obtain rfl := Except.ok.inj (ht.symm.trans ht')
    exact hread
  refine parse_iff h (fun n => (hreads n).2) hE ?_
  -- the name of the event arrives
  obtain ⟨u, rfl⟩ := (hreads 0).1
  have hlit : percent ∉ (123 :: quote :: ascii "event_name" : Text) := by decide
  obtain ⟨y', rfl, -⟩ := h.append hlit hE
  rw [List.length_append]
  exact Nat.le_succ_of_le (Nat.le_trans (by decide) (Nat.le_add_right _ _))

end Dump

end Cagebreak
