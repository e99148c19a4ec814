/-
What `dump` says about titles.

The titles of the views are the only part of the server that `--bs` decides about.
`dump_titles` compares two states that differ in titles only: without `--bs` their
payloads are the same, and with `--bs` they are the same exactly if the titles are.
-/
import Cagebreak.DumpState

namespace Cagebreak

namespace Dump

open Exec Printf Json DumpStrings

/-! ### Other titles -/

/-- The view with another title, which depends on its id. -/
def View.titled (g : ℤ → Option Text) (view : View) : View := { view with title := g view.id }

def Workspace.titled (g : ℤ → Option Text) (ws : Workspace) : Workspace :=
  { ws with views := ws.views.map (View.titled g) }

def Output.titled (g : ℤ → Option Text) (outp : Output) : Output :=
  { outp with workspaces := outp.workspaces.map (Workspace.titled g) }

/-- The server with other titles. -/
def Server.titled (g : ℤ → Option Text) (server : Server) : Server :=
  { server with outputs := server.outputs.map (Output.titled g) }

/-- The views that are printed. -/
def Server.views (server : Server) : List View :=
  server.outputs.flatMap fun outp => (outp.printed server.nws).flatMap Workspace.views

/-! ### Without `--bs` -/

variable {m : Malloc} {nws : ℕ} {bs : Bool} {server : Server} {g h : ℤ → Option Text}

section Loops

variable {α β : Type} {comma : ℕ → Bool} {fmt : String} {print print' : β → Exec (Option Block)}

/-- A loop over the elements of which the same is printed. -/
theorem printEach_congr {items : List β} (hitems : ∀ it ∈ items, print it = print' it) (i : ℕ)
    (outp : DynStr) :
    printEach m comma fmt print i items outp = printEach m comma fmt print' i items outp := by
  induction items generalizing i outp with
  | nil => rfl
  | cons it items ih =>
    have hrest : ∀ i outp, printEach m comma fmt print i items outp =
        printEach m comma fmt print' i items outp :=
      ih fun it' hit' => hitems it' (List.mem_cons_of_mem _ hit')
    simp only [printEach, hitems it List.mem_cons_self, hrest]

theorem printEach_map (f : α → β) (l : List α) (i : ℕ) (outp : DynStr) :
    printEach m comma fmt print i (l.map f) outp =
      printEach m comma fmt (fun a => print (f a)) i l outp := by
  induction l generalizing i outp with
  | nil => rfl
  | cons a l ih => simp only [List.map_cons, printEach, ih]

theorem wlListLength_map (f : α → β) (l : List α) : wlListLength (l.map f) = wlListLength l := by
  simp only [wlListLength, List.length_map]

/-- Loops over the same elements, of which the same is printed. -/
theorem printEach_map_congr {f f' : α → β} {l : List α}
    (hl : ∀ a ∈ l, print (f a) = print (f' a)) (i : ℕ) (outp : DynStr) :
    printEach m comma fmt print i (l.map f) outp =
      printEach m comma fmt print i (l.map f') outp := by
  rw [printEach_map, printEach_map]
  exact printEach_congr hl i outp

end Loops

/-- A title is printed with `--bs` only, and `NULL` like a title without letters. -/
theorem printView_titled {view : View} :
    (bs = false ∨ (g view.id).getD [] = (h view.id).getD []) →
      printView m bs (view.titled g) = printView m bs (view.titled h) := by
  rintro (rfl | htitle)
  · rfl
  · rw [printView, printView, View.titled, View.titled]
    simp only [htitle]

theorem printWorkspace_titled {ws : Workspace}
    (hviews : ∀ view ∈ ws.views, bs = false ∨ (g view.id).getD [] = (h view.id).getD []) :
    printWorkspace m bs (ws.titled g) = printWorkspace m bs (ws.titled h) := by
  have hprint : printViews m bs (ws.titled g) = printViews m bs (ws.titled h) := by
    simp only [printViews, Workspace.titled, wlListLength_map]
    have hloop : ∀ outp, printEach m counted "\x7b\n%s\n\x7d" (printView m bs) 0
        (ws.views.map (View.titled g)) outp = printEach m counted "\x7b\n%s\n\x7d"
          (printView m bs) 0 (ws.views.map (View.titled h)) outp :=
      printEach_map_congr (fun view hview => printView_titled (hviews view hview)) 0
    simp only [hloop]
  rw [printWorkspace, printWorkspace, hprint]
  rfl

/-- The element of the array, with other titles. -/
theorem printWorkspaceAt_titled {outp : Output} {i : ℕ} (hi : i < nws)
    (hviews : ∀ ws ∈ outp.printed nws, ∀ view ∈ ws.views,
      bs = false ∨ (g view.id).getD [] = (h view.id).getD []) :
    printWorkspaceAt m bs (outp.titled g) i = printWorkspaceAt m bs (outp.titled h) i := by
  have hget : ∀ f, (outp.titled f).workspaces[i]? = outp.workspaces[i]?.map (Workspace.titled f) :=
    fun f => List.getElem?_map
  rw [printWorkspaceAt, printWorkspaceAt, hget, hget]
  cases hws : outp.workspaces[i]? with
  | none => rfl
  | some ws =>
    have hmem : ws ∈ outp.printed nws := by
      refine List.mem_of_getElem? (i := i) ?_
      rw [Output.printed, List.getElem?_take_of_lt hi, hws]
    exact printWorkspace_titled (hviews ws hmem)

theorem printOutput_titled {outp : Output}
    (hviews : ∀ ws ∈ outp.printed nws, ∀ view ∈ ws.views,
      bs = false ∨ (g view.id).getD [] = (h view.id).getD []) :
    printOutput m bs nws (outp.titled g) = printOutput m bs nws (outp.titled h) := by
  have hprint : printWorkspaces m bs nws (outp.titled g) =
      printWorkspaces m bs nws (outp.titled h) := by
    have hloop : ∀ str, printEach m notFirst "\x7b%s\x7d"
        (printWorkspaceAt m bs (outp.titled g)) 0 (List.range nws) str =
          printEach m notFirst "\x7b%s\x7d" (printWorkspaceAt m bs (outp.titled h)) 0
            (List.range nws) str :=
      printEach_congr (fun i hi => printWorkspaceAt_titled (List.mem_range.mp hi) hviews) 0
    simp only [printWorkspaces, hloop]
  rw [printOutput, printOutput, hprint]
  rfl

theorem keybindingDump_titled
    (hviews : ∀ view ∈ server.views,
      server.bs = false ∨ (g view.id).getD [] = (h view.id).getD []) :
    keybindingDump m (server.titled g) = keybindingDump m (server.titled h) := by
  have houtps : ∀ outp ∈ server.outputs, printOutput m server.bs server.nws (outp.titled g) =
      printOutput m server.bs server.nws (outp.titled h) := by
    intro outp houtp
    refine printOutput_titled fun ws hws view hview => hviews view ?_
    exact List.mem_flatMap.mpr ⟨outp, houtp, List.mem_flatMap.mpr ⟨ws, hws, hview⟩⟩
  have hprint : printOutputs m (server.titled g) = printOutputs m (server.titled h) := by
    have hloop : ∀ str, printEach m counted "%s" (printOutput m server.bs server.nws) 0
        (server.outputs.map (Output.titled g)) str = printEach m counted "%s"
          (printOutput m server.bs server.nws) 0 (server.outputs.map (Output.titled h)) str :=
      printEach_map_congr houtps 0
    simp only [printOutputs, printList, Server.titled, wlListLength_map, hloop]
  have hsend : sendStr m (server.titled g) = sendStr m (server.titled h) := by
    rw [sendStr, sendStr, hprint]
    rfl
  rw [keybindingDump, keybindingDump, hsend]

/-! ### With `--bs` -/

theorem members_titled_iff {view : View} :
    (view.titled g).members bs = (view.titled h).members bs ↔
      bs = false ∨ (g view.id).getD [] = (h view.id).getD [] := by
  cases bs with
  | false => exact ⟨fun _ => .inl rfl, fun _ => rfl⟩
  | true =>
    simp only [View.members, View.titled, if_true, List.cons_append, List.nil_append,
      List.cons.injEq, Prod.mk.injEq, Json.str.injEq, true_and, and_true, reduceCtorEq, false_or]
    exact and_iff_left rfl

theorem workspaceMembers_titled_iff {ws : Workspace} :
    (ws.titled g).members bs = (ws.titled h).members bs ↔
      ∀ view ∈ ws.views, bs = false ∨ (g view.id).getD [] = (h view.id).getD [] := by
  unfold Workspace.members Workspace.titled
  by_cases hnil : ws.views = []
  · simp [hnil]
  · simp only [List.map_eq_nil_iff, hnil, if_false, List.map_map, List.cons.injEq, Prod.mk.injEq,
      true_and, and_true, Json.arr.injEq, List.map_inj_left, Function.comp_apply, Json.obj.injEq,
      members_titled_iff]

theorem printed_titled (outp : Output) :
    (outp.titled g).printed nws = (outp.printed nws).map (Workspace.titled g) :=
  List.map_take.symm

theorem member_titled_iff {outp : Output} :
    (outp.titled g).member bs nws = (outp.titled h).member bs nws ↔
      ∀ ws ∈ outp.printed nws, ∀ view ∈ ws.views,
        bs = false ∨ (g view.id).getD [] = (h view.id).getD [] := by
  rw [Output.member, Output.member, printed_titled, printed_titled]
  simp only [Output.titled, Prod.mk.injEq, Json.obj.injEq, List.cons.injEq, true_and, and_true,
    Json.arr.injEq, List.map_map, List.map_inj_left, Function.comp_apply,
    workspaceMembers_titled_iff]

theorem dumpJson_titled_iff :
    dumpJson (server.titled g) = dumpJson (server.titled h) ↔
      ∀ view ∈ server.views, server.bs = false ∨ (g view.id).getD [] = (h view.id).getD [] := by
  have hviews : (∀ view ∈ server.views,
      server.bs = false ∨ (g view.id).getD [] = (h view.id).getD []) ↔
      ∀ outp ∈ server.outputs, ∀ ws ∈ outp.printed server.nws, ∀ view ∈ ws.views,
        server.bs = false ∨ (g view.id).getD [] = (h view.id).getD [] := by
    simp only [Server.views, List.mem_flatMap]
    constructor
    · intro hall outp houtp ws hws view hview
      exact hall view ⟨outp, houtp, ws, hws, hview⟩
    · rintro hall view ⟨outp, houtp, ws, hws, hview⟩
      exact hall outp houtp ws hws view hview
  rw [hviews]
  unfold dumpJson Server.titled
  simp only [Json.obj.injEq, List.append_cancel_left_eq, List.cons.injEq, Prod.mk.injEq, true_and,
    and_true, List.map_map, List.map_inj_left, Function.comp_apply, member_titled_iff, Server.bg]

theorem complete_titled (f : ℤ → Option Text) (hcomplete : server.Complete) :
    (server.titled f).Complete := by
  intro outp' houtp'
  obtain ⟨outp, houtp, rfl⟩ := List.mem_map.mp houtp'
  show _ ≤ (outp.workspaces.map _).length
  rw [List.length_map]
  exact hcomplete outp houtp

/-- The server that has been shown, with `--bs`. -/
def bareServer : Server := { shownServer with bs := true }

theorem clean_bareServer {title : Text} (h : Plain title ∧ percent ∉ title) :
    Clean (percent ∉ ·) (bareServer.titled fun _ => some title) := by
  constructor
  · have htexts : (bareServer.titled fun _ => some title).texts = ascii "A" ::
        ascii "pango:Monospace 10" :: ascii "top" :: ascii "root" :: ascii "resize" ::
          ascii "A" :: title :: [] := rfl
    have hfixed : ∀ s ∈ [ascii "A", ascii "pango:Monospace 10", ascii "top", ascii "root",
        ascii "resize", ascii "A"], Plain s ∧ percent ∉ s := by
      decide
    intro s hs
    rw [htexts] at hs
    have hs' : s ∈ [ascii "A", ascii "pango:Monospace 10", ascii "top", ascii "root",
        ascii "resize", ascii "A"] ++ [title] := hs
    rcases List.mem_append.mp hs' with hs | hs
    · exact hfixed s hs
    · rw [List.mem_singleton.mp hs]
      exact h
  · intro x hx
    have hcolours : x ∈ [CFloat.fin 0, .fin 0, .fin 0, .fin 0, .fin 0, .fin 0, .fin 1, .fin 1,
      .fin 1, .fin 1, .fin 1] := hx
    cases x with
    | fin q => trivial
    | inf neg => simp at hcolours
    | nan => simp at hcolours

end Dump

end Cagebreak
