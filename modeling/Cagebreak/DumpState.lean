/-
What a client learns from `dump`.

`stateJson` is the object that the manual describes, with one element for each
output, workspace, view and tile, and `decode` reads the outputs back from it.
`dump_state` says when the payload is that object: the text that `print_views`
has for a workspace without views is not an empty list.
-/
import Cagebreak.DumpPayload
import Cagebreak.Lib.JsonNumbers

namespace Cagebreak

namespace Dump

open Exec Printf Json DumpStrings

/-! ### The object that is documented -/

/-- The lists of a workspace. -/
def Workspace.state (bs : Bool) (ws : Workspace) : List (Text × Json) :=
  [(ascii "views", .arr (ws.views.map fun view => .obj (view.members bs))),
    (ascii "tiles", .arr ((ws.focusedTile :: ws.tiles).map fun tile => .obj tile.members))]

def Output.state (bs : Bool) (nws : ℕ) (outp : Output) : Text × Json :=
  (outp.name, .obj [(ascii "priority", int outp.priority),
    (ascii "coords", pair "x" outp.x "y" outp.y),
    (ascii "size", pair "width" outp.width "height" outp.height),
    (ascii "refresh_rate", double (.fin outp.refreshRate)),
    (ascii "permanent", bool outp.permanent), (ascii "active", bool (!outp.destroyed)),
    (ascii "curr_workspace", int (outp.currWorkspace + 1)),
    (ascii "workspaces", .arr ((outp.printed nws).map fun ws => .obj (ws.state bs)))])

def stateJson (server : Server) : Json :=
  .obj ([(ascii "event_name", .str (ascii "dump")), (ascii "nws", int server.nws),
    (ascii "bg_color", .arr (server.bg.map double)),
    (ascii "views_curr_id", int (server.focus.elim (-1) Focus.viewId)),
    (ascii "tiles_curr_id", int ((server.focus.bind Focus.tileId).getD (-1))),
    (ascii "curr_output", .str server.currOutput),
    (ascii "default_mode", .str (getModeName server.modes server.defaultMode))] ++
    modesMember server.modes ++
    [(ascii "message_config", server.messageConfig.json),
    (ascii "outputs", .obj (server.outputs.map (Output.state server.bs server.nws))),
    (ascii "keyboards", .obj (server.keyboardGroups.map KeyboardGroup.member)),
    (ascii "input_devices", .obj (server.inputDevices.map InputDev.member)),
    (ascii "cursor_coords", .obj [(ascii "x", double (.fin server.cursorX)),
      (ascii "y", double (.fin server.cursorY))])])

/-! ### What is read back -/

/-- A view: its id, its pid and its coordinates. -/
structure ViewEntry where
  id : ℤ
  pid : ℤ
  x : ℤ
  y : ℤ
  deriving DecidableEq

/-- A tile, with -1 for no view. -/
structure TileEntry where
  id : ℤ
  x : ℤ
  y : ℤ
  width : ℤ
  height : ℤ
  viewId : ℤ
  deriving DecidableEq

/-- A workspace: its views and its tiles. -/
abbrev WorkspaceEntry := List ViewEntry × List TileEntry

def View.entry (view : View) : ViewEntry := ⟨view.id, view.pid, view.ox, view.oy⟩

def Tile.entry (tile : Tile) : TileEntry :=
  ⟨tile.id, tile.x, tile.y, tile.width, tile.height, tile.viewId.getD (-1)⟩

def Workspace.entry (ws : Workspace) : WorkspaceEntry :=
  (ws.views.map View.entry, (ws.focusedTile :: ws.tiles).map Tile.entry)

/-- The outputs in their order, and the workspaces, views and tiles in theirs. -/
def Server.entries (server : Server) : List (Text × List WorkspaceEntry) :=
  server.outputs.map fun outp => (outp.name, (outp.printed server.nws).map Workspace.entry)

/-- The member of an object with this name. -/
def get (k : String) : Json → Option Json
  | .obj ms => (ms.find? fun m => m.1 = ascii k).map Prod.snd
  | _ => none

def getInt (k : String) (j : Json) : Option ℤ :=
  match get k j with
  | some (.num l) => some (readDecimal l)
  | _ => none

def getArr (k : String) (j : Json) : Option (List Json) :=
  match get k j with
  | some (.arr as) => some as
  | _ => none

def decodeView (j : Json) : Option ViewEntry := do
  let id ← getInt "id" j
  let pid ← getInt "pid" j
  let coords ← get "coords" j
  let x ← getInt "x" coords
  let y ← getInt "y" coords
  some ⟨id, pid, x, y⟩

def decodeTile (j : Json) : Option TileEntry := do
  let id ← getInt "id" j
  let coords ← get "coords" j
  let x ← getInt "x" coords
  let y ← getInt "y" coords
  let size ← get "size" j
  let width ← getInt "width" size
  let height ← getInt "height" size
  let viewId ← getInt "view_id" j
  some ⟨id, x, y, width, height, viewId⟩

def decodeWorkspace (j : Json) : Option WorkspaceEntry := do
  let views ← getArr "views" j
  let views ← views.mapM decodeView
  let tiles ← getArr "tiles" j
  let tiles ← tiles.mapM decodeTile
  some (views, tiles)

def decodeOutput (m : Text × Json) : Option (Text × List WorkspaceEntry) := do
  let workspaces ← getArr "workspaces" m.2
  let workspaces ← workspaces.mapM decodeWorkspace
  some (m.1, workspaces)

/-- The outputs that a client reads from the event. -/
def decode (j : Json) : Option (List (Text × List WorkspaceEntry)) :=
  match get "outputs" j with
  | some (.obj ms) => ms.mapM decodeOutput
  | _ => none

theorem mapM_map_eq_some {α β γ : Type} {f : α → β} {g : β → Option γ} {e : α → γ}
    (h : ∀ a, g (f a) = some (e a)) (l : List α) : (l.map f).mapM g = some (l.map e) := by
  induction l with
  | nil => rfl
  | cons a l ih =>
    rw [List.map_cons, List.mapM_cons, h, ih]
    rfl

theorem decodeView_members (bs : Bool) (view : View) :
    decodeView (.obj (view.members bs)) = some view.entry := by
  have hid : getInt "id" (.obj (view.members bs)) = some (readDecimal (decimal view.id)) := by
    cases bs <;> rfl
  have hpid : getInt "pid" (.obj (view.members bs)) = some (readDecimal (decimal view.pid)) := by
    cases bs <;> rfl
  have hcoords : get "coords" (.obj (view.members bs)) = some (pair "x" view.ox "y" view.oy) := by
    cases bs <;> rfl
  have hx : getInt "x" (pair "x" view.ox "y" view.oy) = some (readDecimal (decimal view.ox)) := rfl
  have hy : getInt "y" (pair "x" view.ox "y" view.oy) = some (readDecimal (decimal view.oy)) := rfl
  rw [readDecimal_decimal] at hid hpid hx hy
  rw [decodeView, hid, hpid, hcoords]
  show (do let x ← getInt "x" (pair "x" view.ox "y" view.oy)
           let y ← getInt "y" (pair "x" view.ox "y" view.oy)
           some (ViewEntry.mk view.id view.pid x y)) = _
  rw [hx, hy]
  rfl

theorem decodeTile_members (tile : Tile) : decodeTile (.obj tile.members) = some tile.entry := by
  show some (TileEntry.mk (readDecimal (decimal tile.id)) (readDecimal (decimal tile.x))
    (readDecimal (decimal tile.y)) (readDecimal (decimal tile.width))
    (readDecimal (decimal tile.height)) (readDecimal (decimal (tile.viewId.getD (-1))))) = _
  simp only [readDecimal_decimal]
  rfl

theorem decodeWorkspace_state (bs : Bool) (ws : Workspace) :
    decodeWorkspace (.obj (ws.state bs)) = some ws.entry := by
  show (do
    let views ← (ws.views.map fun view : View => Json.obj (view.members bs)).mapM decodeView
    let tiles ←
      ((ws.focusedTile :: ws.tiles).map fun tile : Tile => Json.obj tile.members).mapM decodeTile
    some (views, tiles)) = _
  rw [mapM_map_eq_some (decodeView_members bs), mapM_map_eq_some decodeTile_members]
  rfl

theorem decodeOutput_state (bs : Bool) (nws : ℕ) (outp : Output) :
    decodeOutput (outp.state bs nws) =
      some (outp.name, (outp.printed nws).map Workspace.entry) := by
  show (do
    let workspaces ←
      ((outp.printed nws).map fun ws : Workspace => Json.obj (ws.state bs)).mapM decodeWorkspace
    some (outp.name, workspaces)) = _
  rw [mapM_map_eq_some (decodeWorkspace_state bs)]
  rfl

/-- The documented object has all outputs, workspaces, views and tiles. -/
theorem decode_stateJson (server : Server) : decode (stateJson server) = some server.entries := by
  have hget : get "outputs" (stateJson server) =
      some (.obj (server.outputs.map (Output.state server.bs server.nws))) := by
    rw [stateJson, modesMember]
    by_cases hmodes : server.modes = []
    · rw [if_pos hmodes]
      rfl
    · rw [if_neg hmodes]
      rfl
  rw [decode, hget]
  exact mapM_map_eq_some (decodeOutput_state server.bs server.nws) server.outputs

/-! ### The payload -/

/-- Every workspace of every output has a view. -/
def Occupied (server : Server) : Prop :=
  ∀ outp ∈ server.outputs, ∀ ws ∈ outp.printed server.nws, ws.views ≠ []

theorem members_eq_state_iff (bs : Bool) (ws : Workspace) :
    ws.members bs = ws.state bs ↔ ws.views ≠ [] := by
  unfold Workspace.members Workspace.state
  by_cases h : ws.views = []
  · rw [if_pos h, h]
    exact iff_of_false (fun hc => by simp at hc) fun hc => hc rfl
  · rw [if_neg h]
    exact iff_of_true rfl h

theorem member_eq_state_iff (bs : Bool) (nws : ℕ) (outp : Output) :
    outp.member bs nws = outp.state bs nws ↔ ∀ ws ∈ outp.printed nws, ws.views ≠ [] := by
  unfold Output.member Output.state
  simp only [Prod.mk.injEq, Json.obj.injEq, List.cons.injEq, true_and, and_true, Json.arr.injEq,
    List.map_inj_left, members_eq_state_iff]

theorem dumpJson_eq_stateJson_iff (server : Server) :
    dumpJson server = stateJson server ↔ Occupied server := by
  unfold dumpJson stateJson Occupied
  simp only [Json.obj.injEq, List.append_cancel_left_eq, List.cons.injEq, Prod.mk.injEq, true_and,
    and_true, List.map_inj_left, member_eq_state_iff]

/-- The colours that are printed. -/
def Server.colours (server : Server) : List CFloat :=
  server.bg ++ server.messageConfig.bg ++ server.messageConfig.fg

theorem finite_of_parse {server : Server} {y : Text} (h : parse y = some (stateJson server)) :
    ∀ x ∈ server.colours, Finite x := by
  have hnumber : ∀ x, HasNumber (fixed x) (stateJson server) → Finite x := by
    intro x hx
    obtain ⟨u, v, hlex⟩ := lexeme_of_parse h hx
    exact finite_of_lexNumber hlex
  have harr : ∀ (x : CFloat) (l : List CFloat), x ∈ l → HasNumber (fixed x) (.arr (l.map double)) :=
    fun x l hx => .arr (List.mem_map_of_mem hx) .num
  intro x hx
  refine hnumber x ?_
  rw [Server.colours, List.mem_append, List.mem_append] at hx
  rcases hx with (hx | hx) | hx
  · exact .obj (m := (ascii "bg_color", .arr (server.bg.map double))) (by simp) (harr x _ hx)
  · refine .obj (m := (ascii "message_config", server.messageConfig.json)) (by simp) ?_
    exact .obj (m := (ascii "bg_color", .arr (server.messageConfig.bg.map double)))
      (by simp) (harr x _ hx)
  · refine .obj (m := (ascii "message_config", server.messageConfig.json)) (by simp) ?_
    exact .obj (m := (ascii "fg_color", .arr (server.messageConfig.fg.map double)))
      (by simp) (harr x _ hx)

/-- The text describes the server: it is the documented object, all outputs with their
workspaces, views and tiles are read back from it, and every output has `nws` workspaces. -/
structure Describes (server : Server) (y : Text) : Prop where
  object : parse y = some (stateJson server)
  outputs : (parse y).bind decode = some server.entries
  workspaces : ∀ outp ∈ server.entries, outp.2.length = server.nws

section Clean

variable {m : Malloc} {server : Server} {T y : Text}
  (hstrings : ∀ s ∈ server.texts, Plain s ∧ percent ∉ s)

include hstrings

theorem zero_notMem_texts : ∀ s ∈ server.texts, 0 ∉ s := fun s hs => (hstrings s hs).1.noNul

/-- **The text describes the server** exactly when the colours are numbers and there is a
view on every workspace. -/
theorem describes_iff (hne : server.outputs ≠ []) (hcomplete : server.Complete)
    (hT : dumpText server = .ok T) :
    Describes server T ↔ (∀ x ∈ server.colours, Finite x) ∧ Occupied server := by
  have hiff : parse T = some (dumpJson server) ↔ ∀ x ∈ server.colours, Finite x := by
    rw [parse_dumpText_iff channel_eq hne hcomplete hT rfl]
    constructor
    · exact Clean.colours
    · intro hcolours
      exact ⟨fun s hs => ⟨(hstrings s hs).1, trivial⟩, hcolours⟩
  constructor
  · rintro ⟨hparse, -, -⟩
    have hcolours := finite_of_parse hparse
    refine ⟨hcolours, (dumpJson_eq_stateJson_iff server).mp ?_⟩
    exact Option.some.inj ((hiff.mpr hcolours).symm.trans hparse)
  · rintro ⟨hcolours, hoccupied⟩
    have hparse := hiff.mpr hcolours
    rw [(dumpJson_eq_stateJson_iff server).mpr hoccupied] at hparse
    refine ⟨hparse, ?_, ?_⟩
    · rw [hparse]
      exact decode_stateJson server
    · intro entry hentry
      obtain ⟨outp, houtp, rfl⟩ := List.mem_map.mp hentry
      show (List.map _ (outp.printed server.nws)).length = _
      rw [List.length_map, length_printed (hcomplete outp houtp)]

/-- The text is what is sent, if it is counted. -/
theorem keybindingDump_eq_text (hne : server.outputs ≠ []) (hcomplete : server.Complete)
    (hcounted : Counted server) (hT : dumpText server = .ok T) :
    keybindingDump m server = .ok (some T) :=
  (keybindingDump_text_iff m (zero_notMem_texts hstrings) hT).mpr
    ⟨hne, hcomplete, fun s hs => (hstrings s hs).2, hcounted⟩

end Clean

/-- Such a server, with a view on its workspace. -/
def shownServer : Server :=
  { plainServer firstModes with
    outputs := [{
      name := ascii "A"
      priority := 0
      x := 0
      y := 0
      width := 800
      height := 600
      refreshRate := 60
      permanent := false
      destroyed := false
      currWorkspace := 0
      workspaces := [⟨[⟨2, 100, none, 0, 0, false⟩], ⟨1, 0, 0, 800, 600, some 2⟩, []⟩] }] }

end Dump

end Cagebreak
