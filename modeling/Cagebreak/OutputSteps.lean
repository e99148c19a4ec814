/-
What one event does to the outputs.

Each routine has one lemma that tells its possible results, and which defect of
the state explains it when an array is indexed outside or a scene output is
destroyed twice:

* `outputClear_spec` — the output leaves its list;
* `outputDestroy_spec` — it is replaced by a headless one, or freed;
* `outputApplyConfig_spec` — it is destroyed, disabled, or kept;
* `addOutput_spec` and `keybindingSetNws_spec`.
-/
import Cagebreak.Lib.Outcome
import Cagebreak.OutputServer
import Mathlib.Data.List.Nodup
import Mathlib.Data.List.TakeWhile

namespace Cagebreak

open Outcome

/-- The workspaces of an output are those numbered below `n`. -/
def CgOutput.Numbered (c : CgOutput) (n : ℕ) : Prop :=
  c.workspaces = some ((List.range n).map fun i : ℕ => some ⟨i⟩)

/-- Besides, the current one is among them. -/
structure CgOutput.Holds (c : CgOutput) (n : ℕ) : Prop where
  workspaces : c.Numbered n
  currWorkspace : c.currWorkspace < n

namespace OutputServer

variable {s s' : OutputServer} {o p c i n oldNws nws : ℕ} {f : CgOutput → CgOutput}
  {config : OutputConfig}
  {answer : OutputAnswer} {name : Text}

/-- The array of an output has the global number of workspaces, each with its
number, and the current one is among them. -/
def ArrayOk (s : OutputServer) (o : ℕ) : Prop := (s.cg o).Holds s.nws

/-- The scene output of an output has been destroyed, and the pointer to it
has not been reset. -/
def Gone (s : OutputServer) (o : ℕ) : Prop :=
  ∃ p, (s.cg o).sceneOutput = some p ∧ s.sceneLive p = false

/-- A fault that leaves no array indexed outside and no scene output destroyed
twice, unless the state has such a defect already. -/
structure Blame (s : OutputServer) (o : ℕ) (e : OutputFault) : Prop where
  badIndex : e = .badIndex → ∃ p, s.live p = true ∧ ¬ s.ArrayOk p
  doubleDestroy : e = .doubleDestroy → s.Gone o

/-! ### Fields -/

@[simp] theorem modify_cg_self : (s.modify o f).cg o = f (s.cg o) := Function.update_self ..

theorem modify_cg_of_ne (h : p ≠ o) : (s.modify o f).cg p = s.cg p :=
  Function.update_of_ne h ..

/-- Two states agree on what the arrays depend on. -/
structure SameArrays (s s' : OutputServer) : Prop where
  workspaces : ∀ p, (s'.cg p).workspaces = (s.cg p).workspaces
  currWorkspace : ∀ p, (s'.cg p).currWorkspace = (s.cg p).currWorkspace
  nws : s'.nws = s.nws

theorem SameArrays.refl (s : OutputServer) : SameArrays s s := ⟨fun _ => rfl, fun _ => rfl, rfl⟩

theorem SameArrays.trans {s'' : OutputServer} (h : SameArrays s s') (h' : SameArrays s' s'') :
    SameArrays s s'' :=
  ⟨fun p => (h'.workspaces p).trans (h.workspaces p),
    fun p => (h'.currWorkspace p).trans (h.currWorkspace p), h'.nws.trans h.nws⟩

theorem SameArrays.arrayOk_iff (h : SameArrays s s') : s'.ArrayOk p ↔ s.ArrayOk p := by
  constructor
  · rintro ⟨hws, hcurr⟩
    rw [CgOutput.Numbered, h.workspaces, h.nws] at hws
    rw [h.currWorkspace, h.nws] at hcurr
    exact ⟨hws, hcurr⟩
  · rintro ⟨hws, hcurr⟩
    rw [CgOutput.Numbered, ← h.workspaces, ← h.nws] at hws
    rw [← h.currWorkspace, ← h.nws] at hcurr
    exact ⟨hws, hcurr⟩

theorem sameArrays_of_cg (hcg : s'.cg = s.cg) (hnws : s'.nws = s.nws) : SameArrays s s' :=
  ⟨fun _ => by rw [hcg], fun _ => by rw [hcg], hnws⟩

theorem sameArrays_modify (hws : (f (s.cg o)).workspaces = (s.cg o).workspaces)
    (hcurr : (f (s.cg o)).currWorkspace = (s.cg o).currWorkspace) :
    SameArrays s (s.modify o f) := by
  refine ⟨fun p => ?_, fun p => ?_, rfl⟩
  · by_cases h : p = o
    · subst h
      rw [modify_cg_self, hws]
    · rw [modify_cg_of_ne h]
  · by_cases h : p = o
    · subst h
      rw [modify_cg_self, hcurr]
    · rw [modify_cg_of_ne h]

/-! ### Reading -/

theorem wsAt_eq_ok (h : (s.cg o).Numbered n) (hi : i < n) : s.wsAt o i = .ok ⟨i⟩ := by
  rw [CgOutput.Numbered] at h
  rw [wsAt, h]
  simp [hi]

theorem wsAt_spec : Meets (s.wsAt o i)
    (fun e => e = .badIndex ∧ ¬ ∃ n, (s.cg o).Numbered n ∧ i < n) fun _ => True := by
  by_cases h : ∃ n, (s.cg o).Numbered n ∧ i < n
  · obtain ⟨n, hn, hi⟩ := h
    rw [wsAt_eq_ok hn hi]
    exact Meets.ok trivial
  · have herr : s.wsAt o i = .error .badIndex ∨ ∃ w, s.wsAt o i = .ok w := by
      rw [wsAt]
      cases (s.cg o).workspaces with
      | none => exact .inl rfl
      | some ws =>
        simp only
        split
        · exact .inr ⟨_, rfl⟩
        · exact .inl rfl
    obtain herr | ⟨w, hw⟩ := herr
    · rw [herr]
      exact Meets.error ⟨rfl, h⟩
    · rw [hw]
      exact Meets.ok trivial

theorem curr_spec : Meets s.curr (fun e => e = .null ∨ e = .freed)
    fun o => s.currOutput = some o ∧ s.live o = true := by
  rw [curr]
  cases hc : s.currOutput with
  | none => exact Meets.error (.inl rfl)
  | some o =>
    by_cases hl : s.live o = true
    · simp only [hl, if_true]
      exact Meets.ok ⟨rfl, hl⟩
    · simp only [hl]
      exact Meets.error (.inr rfl)

/-- A fault that says nothing, or an array of an output in use is wrong. -/
structure BadArray (s : OutputServer) (e : OutputFault) : Prop where
  badIndex : e = .badIndex → ∃ p, s.live p = true ∧ ¬ s.ArrayOk p
  doubleDestroy : e ≠ .doubleDestroy

theorem BadArray.of_other {e : OutputFault} (h : e ≠ .badIndex) (h' : e ≠ .doubleDestroy) :
    s.BadArray e :=
  ⟨fun he => absurd he h, h'⟩

theorem BadArray.congr {e : OutputFault} (h : s'.BadArray e) (harr : SameArrays s s')
    (hlive : s'.live = s.live) : s.BadArray e := by
  refine ⟨fun he => ?_, h.doubleDestroy⟩
  obtain ⟨p, hp, hbad⟩ := h.badIndex he
  exact ⟨p, by rw [← hlive, hp], fun hok => hbad (harr.arrayOk_iff.mpr hok)⟩

theorem BadArray.blame {e : OutputFault} (h : s.BadArray e) : s.Blame o e :=
  ⟨h.badIndex, fun he => absurd he h.doubleDestroy⟩

theorem wsAt_live (hl : s.live o = true) (hi : s.ArrayOk o → i < s.nws) :
    Meets (s.wsAt o i) s.BadArray fun _ => True := by
  refine wsAt_spec.mono ?_ fun _ h => h
  rintro e ⟨rfl, hbad⟩
  exact ⟨fun _ => ⟨o, hl, fun hok => hbad ⟨_, hok.workspaces, hi hok⟩⟩, nofun⟩

theorem currWs_spec : Meets s.currWs s.BadArray fun _ => True := by
  refine Meets.bind (curr_spec.mono ?_ fun _ h => h) fun o ho => ?_
  · rintro e (rfl | rfl)
    · exact .of_other nofun nofun
    · exact .of_other nofun nofun
  · exact wsAt_live ho.2 fun hok => hok.currWorkspace

/-! ### Changing the current output -/

theorem setOutput_spec : Meets (s.setOutput o) s.BadArray
    fun s' => s' = { s with currOutput := some o } := by
  rw [setOutput]
  refine Meets.bind (currWs_spec.mono (fun e he => ?_) fun _ h => h) fun _ _ => Meets.ok rfl
  exact he.congr (sameArrays_of_cg rfl rfl) rfl

theorem after_append {l l' : List ℕ} (h : o ∉ l) : after o (l ++ o :: l') = l'.head? := by
  have hl : l.dropWhile (· ≠ o) = [] := by
    rw [List.dropWhile_eq_nil_iff]
    intro a ha
    simpa using ne_of_mem_of_not_mem ha h
  rw [after, List.dropWhile_append, hl]
  simp

theorem after_of_notMem {l : List ℕ} (h : o ∉ l) : after o l = none := by
  have hl : l.dropWhile (· ≠ o) = [] := by
    rw [List.dropWhile_eq_nil_iff]
    intro a ha
    simpa using ne_of_mem_of_not_mem ha h
  rw [after, hl]
  rfl

theorem mem_of_after {l : List ℕ} (h : after o l = some c) : c ∈ l := by
  by_cases ho : o ∈ l
  · obtain ⟨l₁, l₂, rfl, hl₁⟩ := List.eq_append_cons_of_mem ho
    rw [after_append hl₁] at h
    exact List.mem_append_right _ (List.mem_cons_of_mem _ (List.mem_of_head? h))
  · rw [after_of_notMem ho] at h
    cases h

/-- In a list without repetition the element after `o`, or else the first one,
is another one, if there is one. -/
theorem ne_of_after_or_head {l : List ℕ} (hnd : l.Nodup) (hlen : 1 < l.length)
    (h : (after o l).or l.head? = some c) (ho : o ∈ l) : c ≠ o := by
  obtain ⟨l₁, l₂, rfl, hl₁⟩ := List.eq_append_cons_of_mem ho
  rw [after_append hl₁] at h
  have hsplit := List.nodup_append.mp hnd
  cases l₂ with
  | nil =>
    cases l₁ with
    | nil => exact absurd hlen (by simp)
    | cons a l₁ =>
      obtain rfl : a = c := by simpa using h
      rintro rfl
      exact hl₁ List.mem_cons_self
  | cons a l₂ =>
    obtain rfl : a = c := by simpa using h
    rintro rfl
    exact (List.nodup_cons.mp hsplit.2.1).1 List.mem_cons_self

/-- The lists are walked in one direction or the other. -/
theorem nextOutput_spec (reverse : Bool) : Meets (s.nextOutput reverse o) (· = .badList) fun c =>
    (o ∈ s.outputs → c ∈ s.outputs) ∧ (o ∈ s.outputs → s.outputs.Nodup →
      1 < s.outputs.length → c ≠ o) ∧ (o ∉ s.outputs → c ∈ s.disabledOutputs) := by
  have hdir : ∀ l : List ℕ, (∀ a, a ∈ (if reverse then l.reverse else l) ↔ a ∈ l) ∧
      ((if reverse then l.reverse else l).Nodup ↔ l.Nodup) ∧
      (if reverse then l.reverse else l).length = l.length := by
    intro l
    cases reverse with
    | true => exact ⟨fun _ => List.mem_reverse, List.nodup_reverse, List.length_reverse⟩
    | false => exact ⟨fun _ => Iff.rfl, Iff.rfl, rfl⟩
  rw [nextOutput]
  by_cases ho : o ∈ s.outputs
  · rw [if_pos ho]
    obtain ⟨hmem, hnodup, hlen⟩ := hdir s.outputs
    split
    · next c hc =>
      refine Meets.ok ⟨fun _ => ?_, fun _ hnd h1 => ?_, fun h => absurd ho h⟩
      · rw [← hmem]
        rw [Option.or_eq_some_iff] at hc
        obtain hc | ⟨-, hc⟩ := hc
        · exact mem_of_after hc
        · exact List.mem_of_head? hc
      · exact ne_of_after_or_head (hnodup.mpr hnd) (by rw [hlen]; exact h1) hc ((hmem o).mpr ho)
    · exact Meets.error rfl
  · rw [if_neg ho]
    split
    · next c hc =>
      exact Meets.ok ⟨fun h => absurd h ho, fun h => absurd h ho,
        fun _ => ((hdir s.disabledOutputs).1 c).mp (mem_of_after hc)⟩
    · exact Meets.error rfl

/-- How the current output changes when the outputs are cycled through. -/
structure Turned (s : OutputServer) (c : ℕ) : Prop where
  mem : ∀ o, s.currOutput = some o → o ∈ s.outputs → c ∈ s.outputs
  ne : ∀ o, s.currOutput = some o → o ∈ s.outputs → s.outputs.Nodup → 1 < s.outputs.length → c ≠ o
  known : c ∈ s.outputs ∨ c ∈ s.disabledOutputs

theorem keybindingCycleOutputs_spec (reverse : Bool) :
    Meets (s.keybindingCycleOutputs reverse) s.BadArray
      fun s' => ∃ c, s.Turned c ∧ s' = { s with currOutput := some c } := by
  refine Meets.bind (curr_spec.mono ?_ fun _ h => h) fun o ho => ?_
  · rintro e (rfl | rfl)
    · exact .of_other nofun nofun
    · exact .of_other nofun nofun
  · refine Meets.bind ((nextOutput_spec reverse).mono ?_ fun _ h => h) fun c hc => ?_
    · rintro e rfl
      exact .of_other nofun nofun
    · refine setOutput_spec.mono (fun _ h => h) fun s' hs' => ⟨c, ?_, hs'⟩
      have huniq : ∀ o', s.currOutput = some o' → o' = o := fun o' h =>
        Option.some.inj (h.symm.trans ho.1)
      constructor
      · intro o' ho' hmem
        rw [huniq o' ho'] at hmem
        exact hc.1 hmem
      · intro o' ho' hmem
        rw [huniq o' ho'] at hmem ⊢
        exact hc.2.1 hmem
      · by_cases hmem : o ∈ s.outputs
        · exact .inl (hc.1 hmem)
        · exact .inr (hc.2.2 hmem)

/-! ### Clearing and destroying -/

/-- The scene outputs that are left when that of `o` is destroyed. -/
def sceneWithout (s : OutputServer) (o : ℕ) : ℕ → Bool :=
  match (s.cg o).sceneOutput with
  | none => s.sceneLive
  | some p => Function.update s.sceneLive p false

theorem sceneOutputDestroy_spec : Meets (s.sceneOutputDestroy (s.cg o).sceneOutput)
    (fun e => e = .doubleDestroy ∧ s.Gone o)
    fun s' => s' = { s with sceneLive := s.sceneWithout o } := by
  rw [sceneWithout]
  cases hp : (s.cg o).sceneOutput with
  | none => exact Meets.ok rfl
  | some p =>
    rw [sceneOutputDestroy]
    refine Meets.ite (fun _ => Meets.ok rfl) fun hl => Meets.error ⟨rfl, p, hp, ?_⟩
    simpa using hl

/-- The state that `output_clear` leaves, with the current output `c`. -/
def cleared (s : OutputServer) (o : ℕ) (c : Option ℕ) : OutputServer :=
  { s.unlink o with
    sceneLive := s.sceneWithout o
    currOutput := c }

/-- The condition under which `output_clear` turns to another output. -/
def Turns (s : OutputServer) (o : ℕ) : Prop :=
  s.running = true ∧ s.currOutput = some o ∧ 1 < s.outputs.length

/-- `c` is the current output after `o` has been cleared, which needs an array
while the server is running. -/
structure CurrAfter (s : OutputServer) (o : ℕ) (c : Option ℕ) : Prop where
  turned : s.Turns o → ∃ p, c = some p ∧ s.Turned p
  kept : ¬ s.Turns o → c = s.currOutput
  array : s.running = true → 1 ≤ s.nws → (s.cg o).workspaces ≠ none

theorem outputClear_spec (hl : s.live o = true) : Meets (s.outputClear o) (s.Blame o)
    fun s' => ∃ c, s.CurrAfter o c ∧ s' = s.cleared o c := by
  rw [outputClear]
  refine Meets.bind (sceneOutputDestroy_spec.mono ?_ fun _ h => h) ?_
  · rintro e ⟨rfl, hgone⟩
    exact ⟨nofun, fun _ => hgone⟩
  rintro _ rfl
  refine Meets.bind (P := fun s' => ∃ c, (s.Turns o → ∃ p, c = some p ∧ s.Turned p) ∧
    (¬ s.Turns o → c = s.currOutput) ∧
    s' = { s with sceneLive := s.sceneWithout o, currOutput := c }) ?_ ?_
  · refine Meets.ite (fun hturn => ?_) fun hstay =>
      Meets.ok ⟨_, fun h => absurd h hstay, fun _ => rfl, rfl⟩
    refine (keybindingCycleOutputs_spec false).mono (fun e he => ?_) fun s' => ?_
    · have hbad : s.BadArray e := he.congr (sameArrays_of_cg rfl rfl) rfl
      exact hbad.blame
    · rintro ⟨c, hc, rfl⟩
      exact ⟨some c, fun _ => ⟨c, rfl, hc.mem, hc.ne, hc.known⟩, fun h => absurd hturn h, rfl⟩
  rintro _ ⟨c, hturned, hkept, rfl⟩
  have hl' : (s.cleared o c).live o = true := hl
  have hblame : ∀ e, (s.cleared o c).BadArray e → s.Blame o e := by
    intro e he
    have hbad : s.BadArray e := he.congr (sameArrays_of_cg rfl rfl) rfl
    exact hbad.blame
  have hread : ∀ s', s' = s.cleared o c → ∀ i ∈ List.range s.nws,
      Meets (do
        let _ ← s'.wsAt o i
        let _ ← s'.currWs
        .ok s') (s.Blame o) fun t => t = s.cleared o c := by
    rintro _ rfl i hi
    exact Meets.bind ((wsAt_live hl' fun _ => List.mem_range.mp hi).mono hblame fun _ h => h)
      fun _ _ => Meets.bind (currWs_spec.mono hblame fun _ h => h) fun _ _ => Meets.ok rfl
  show Meets (if s.running = true then (List.range s.nws).foldlM _ (s.cleared o c)
    else .ok (s.cleared o c)) _ _
  refine Meets.ite (fun hrun => ?_) fun hrun =>
    Meets.ok ⟨c, ⟨hturned, hkept, fun h => absurd h hrun⟩, rfl⟩
  by_cases harray : (s.cg o).workspaces = none ∧ 1 ≤ s.nws
  · -- the first index already fails
    have hfirst : (s.cleared o c).wsAt o 0 = .error .badIndex := by
      have hcg : ((s.cleared o c).cg o).workspaces = none := harray.1
      rw [wsAt, hcg]
    obtain ⟨n, hn⟩ : ∃ n, s.nws = n + 1 := ⟨s.nws - 1, by omega⟩
    rw [hn, List.range_succ_eq_map, List.foldlM_cons, hfirst]
    refine Meets.error ⟨fun _ => ⟨o, hl, fun hok => ?_⟩, nofun⟩
    have hws := hok.workspaces
    rw [CgOutput.Numbered, harray.1] at hws
    cases hws
  · refine Meets.mono (Meets.foldlM (fun s' i hi hs' => hread s' hs' i hi) rfl) (fun _ h => h) ?_
    rintro _ rfl
    exact ⟨c, ⟨hturned, hkept, fun _ hn hnone => harray ⟨hnone, hn⟩⟩, rfl⟩

/-- The state in which `output_destroy` decides what becomes of the output. -/
def detached (s : OutputServer) (o : ℕ) : OutputServer :=
  if (s.cg o).destroyed then s
  else { s with sceneLive := s.sceneWithout o }.modify o fun c =>
    { c with sceneOutput := none, destroyed := true }

theorem detach_spec : Meets (s.detach o) (s.Blame o) fun s' =>
    (s'.modify o fun c => { c with destroyed := true }) = s.detached o := by
  rw [detach, detached]
  by_cases hd : (s.cg o).destroyed = true
  · rw [if_pos hd, if_pos hd]
    refine Meets.ok ?_
    have hcg : Function.update s.cg o { s.cg o with destroyed := true } = s.cg := by
      rw [Function.update_eq_self_iff, ← hd]
    rw [modify, hcg]
  · rw [if_neg hd, if_neg hd]
    refine Meets.bind (sceneOutputDestroy_spec.mono ?_ fun _ h => h) ?_
    · rintro e ⟨rfl, hgone⟩
      exact ⟨nofun, fun _ => hgone⟩
    · rintro _ rfl
      refine Meets.ok ?_
      simp [modify]

/-- The display is terminated when the last output has gone. -/
def ended (s : OutputServer) : OutputServer :=
  if s.outputs = [] ∧ s.running then { s with terminated := true } else s

/-- What `output_destroy` does. -/
inductive Destroyed (s : OutputServer) (o : ℕ) : OutputServer → Prop
  | replaced (hrole : (s.cg o).role = .permanent) (hrun : s.running = true) :
    Destroyed s o ((s.detached o).sceneOutputCreate o).ended
  | removed (hrole : ¬ ((s.cg o).role = .permanent ∧ s.running = true)) (c : Option ℕ)
      (hc : (s.detached o).CurrAfter o c) :
    Destroyed s o { (s.detached o).cleared o c with
      live := Function.update s.live o false }.ended

theorem detached_running : (s.detached o).running = s.running := by
  rw [detached]
  split
  · rfl
  · rfl

theorem detached_live : (s.detached o).live = s.live := by
  rw [detached]
  split
  · rfl
  · rfl

theorem detached_nws : (s.detached o).nws = s.nws := by
  rw [detached]
  split
  · rfl
  · rfl

theorem detached_role : ((s.detached o).cg o).role = (s.cg o).role := by
  rw [detached]
  split
  · rfl
  · rw [modify_cg_self]

theorem sameArrays_detached : SameArrays s (s.detached o) := by
  rw [detached]
  split
  · exact .refl s
  · have hscene : SameArrays s { s with sceneLive := s.sceneWithout o } := sameArrays_of_cg rfl rfl
    exact hscene.trans (sameArrays_modify rfl rfl)

/-- A scene output is destroyed a second time only if it was gone before. -/
theorem gone_of_gone_detached (h : (s.detached o).Gone o) : s.Gone o := by
  rw [detached] at h
  split at h
  · exact h
  · obtain ⟨p, hp, -⟩ := h
    rw [modify_cg_self] at hp
    cases hp

theorem Blame.of_detached {e : OutputFault} (h : (s.detached o).Blame o e) : s.Blame o e := by
  refine ⟨fun he => ?_, fun he => gone_of_gone_detached (h.doubleDestroy he)⟩
  obtain ⟨p, hp, hbad⟩ := h.badIndex he
  rw [detached_live] at hp
  exact ⟨p, hp, fun hok => hbad (sameArrays_detached.arrayOk_iff.mpr hok)⟩

theorem outputDestroy_spec (hl : s.live o = true) :
    Meets (s.outputDestroy o) (s.Blame o) (Destroyed s o) := by
  rw [outputDestroy]
  refine Meets.bind detach_spec fun s₁ hs₁ => ?_
  simp only [hs₁]
  refine Meets.bind (P := fun s' : OutputServer => Destroyed s o s'.ended) ?_ fun s' hs' =>
    Meets.ok hs'
  rw [detached_role, detached_running]
  refine Meets.ite (fun h => Meets.ok (.replaced h.1 h.2)) fun h => ?_
  have hl₁ : (s.detached o).live o = true := by rw [detached_live, hl]
  refine Meets.bind ((outputClear_spec hl₁).mono (fun e he => he.of_detached) fun _ h => h) ?_
  rintro _ ⟨c, hc, rfl⟩
  refine Meets.bind (P := fun s' => s' = (s.detached o).cleared o c) ?_ ?_
  · refine Meets.foldlM (fun s' i hi hs' => ?_) rfl
    subst hs'
    refine Meets.bind ((wsAt_live hl₁ fun _ => List.mem_range.mp hi).mono (fun e he => ?_)
      fun _ h => h) fun _ _ => Meets.ok rfl
    exact ((he.congr (sameArrays_of_cg rfl rfl) rfl).blame).of_detached
  · rintro _ rfl
    refine Meets.ok ?_
    have hlive : ((s.detached o).cleared o c).live = s.live := detached_live
    rw [hlive]
    exact .removed h c hc

/-! ### Configuring -/

/-- An output with the role and the priority that a configuration gives it. -/
def withRole (s : OutputServer) (o : ℕ) (config : OutputConfig) : OutputServer :=
  s.modify o fun c => { c with role := if config.role ≠ .default then config.role else c.role }

def prepared (s : OutputServer) (o : ℕ) (config : OutputConfig) : OutputServer :=
  (s.withRole o config).modify o fun c =>
    { c with priority := if config.priority ≠ -1 then config.priority else c.priority }

/-- The configuration changes the priority of the output. -/
def PrioChanged (s : OutputServer) (o : ℕ) (config : OutputConfig) : Prop :=
  config.priority ≠ -1 ∧ (s.cg o).priority ≠ config.priority

instance : Decidable (s.PrioChanged o config) := inferInstanceAs (Decidable (_ ∧ _))

/-- The configuration destroys the output or clears it. -/
def Torn (s : OutputServer) (o : ℕ) (config : OutputConfig) (answer : OutputAnswer) : Prop :=
  config.role = .peripheral ∧ (s.cg o).destroyed = true ∨
    config.pos.x ≠ -1 ∧ answer.modeSet = false ∨
    config.status = .disable ∧ 1 < s.outputs.length

/-- The output is in the list of the disabled outputs. -/
def disabledTo (s : OutputServer) (o : ℕ) (c : Option ℕ) : OutputServer :=
  { s.cleared o c with disabledOutputs := o :: s.disabledOutputs.erase o }

/-- What `output_apply_config` does. -/
inductive Configured (s : OutputServer) (o : ℕ) (config : OutputConfig) (answer : OutputAnswer) :
    OutputServer → Prop
  | destroyed (hrole : config.role = .peripheral) (hd : (s.cg o).destroyed = true)
      {s' : OutputServer} (h : Destroyed (s.withRole o config) o s') :
    Configured s o config answer s'
  | failed (hdest : ¬ (config.role = .peripheral ∧ (s.cg o).destroyed = true))
      (hpos : config.pos.x ≠ -1) (hmode : answer.modeSet = false) (c : Option ℕ)
      (hc : (s.prepared o config).CurrAfter o c) :
    Configured s o config answer ((s.prepared o config).disabledTo o c)
  | disabled (hstatus : config.status = .disable) (hlen : 1 < s.outputs.length) (c : Option ℕ)
      (hc : (s.prepared o config).CurrAfter o c)
      (hdest : ¬ (config.role = .peripheral ∧ (s.cg o).destroyed = true))
      (hmode : ¬ (config.pos.x ≠ -1 ∧ answer.modeSet = false)) :
    Configured s o config answer (((s.prepared o config).disabledTo o c).renewBackground o)
  | kept (hdest : ¬ (config.role = .peripheral ∧ (s.cg o).destroyed = true))
      (hlen : ¬ (config.status = .disable ∧ 1 < s.outputs.length))
      (hmode : ¬ (config.pos.x ≠ -1 ∧ answer.modeSet = false)) :
    Configured s o config answer
      ((if s.PrioChanged o config then ((s.prepared o config).unlink o).outputInsert o
        else s.prepared o config).renewBackground o)

/-- The faults of `output_apply_config`; a new output without an array is a
defect only if it is cleared. -/
structure ConfigBlame (s : OutputServer) (o : ℕ) (config : OutputConfig) (answer : OutputAnswer)
    (e : OutputFault) : Prop where
  badIndex : e = .badIndex → ∃ p, s.live p = true ∧ ¬ s.ArrayOk p ∧
    (p = o → (s.cg o).workspaces = none → s.Torn o config answer)
  doubleDestroy : e = .doubleDestroy → s.Gone o ∧ s.Torn o config answer

theorem sameArrays_prepared : SameArrays s (s.prepared o config) :=
  SameArrays.trans (sameArrays_modify rfl rfl) (sameArrays_modify rfl rfl)

theorem prepared_sceneOutput : ((s.prepared o config).cg p).sceneOutput = (s.cg p).sceneOutput := by
  by_cases h : p = o
  · subst h
    rw [prepared, modify_cg_self, withRole, modify_cg_self]
  · rw [prepared, modify_cg_of_ne h, withRole, modify_cg_of_ne h]

theorem withRole_sceneOutput : ((s.withRole o config).cg p).sceneOutput = (s.cg p).sceneOutput := by
  by_cases h : p = o
  · subst h
    rw [withRole, modify_cg_self]
  · rw [withRole, modify_cg_of_ne h]

theorem Blame.configure {e : OutputFault} (h : s'.Blame o e) (harr : SameArrays s s')
    (hlive : s'.live = s.live) (hscene : ∀ p, (s'.cg p).sceneOutput = (s.cg p).sceneOutput)
    (hsceneLive : s'.sceneLive = s.sceneLive) (htorn : s.Torn o config answer) :
    s.ConfigBlame o config answer e := by
  constructor
  · intro he
    obtain ⟨p, hp, hbad⟩ := h.badIndex he
    exact ⟨p, by rw [← hlive, hp], fun hok => hbad (harr.arrayOk_iff.mpr hok), fun _ _ => htorn⟩
  · intro he
    obtain ⟨p, hp, hgone⟩ := h.doubleDestroy he
    exact ⟨⟨p, by rw [← hscene, hp], by rw [← hsceneLive, hgone]⟩, htorn⟩

theorem disable_spec (hl : s.live o = true) : Meets (s.disable o) (s.Blame o)
    fun s' => ∃ c, s.CurrAfter o c ∧ s' = s.disabledTo o c := by
  refine Meets.bind (outputClear_spec hl) ?_
  rintro _ ⟨c, hc, rfl⟩
  exact Meets.ok ⟨c, hc, rfl⟩

theorem place_spec (hl : s.live o = true) : Meets (s.place o answer)
    (fun e => s.BadArray e ∧ (e = .badIndex → (s.cg o).workspaces ≠ none ∧ ¬ s.ArrayOk o))
    fun _ => True := by
  rw [place]
  refine Meets.ite (fun _ => Meets.error ⟨.of_other nofun nofun, nofun⟩) fun _ => ?_
  refine Meets.ite (fun h => Meets.forM fun i hi => ?_) fun _ => Meets.ok trivial
  refine Meets.bind (wsAt_spec.mono ?_ fun _ h => h) fun _ _ => Meets.ok trivial
  rintro e ⟨rfl, hbad⟩
  have hok : ¬ s.ArrayOk o := fun hok => hbad ⟨_, hok.workspaces, List.mem_range.mp hi⟩
  exact ⟨⟨fun _ => ⟨o, hl, hok⟩, nofun⟩, fun _ => ⟨h.1, hok⟩⟩

theorem outputApplyConfig_spec (hl : s.live o = true) :
    Meets (s.outputApplyConfig o config answer) (s.ConfigBlame o config answer)
      (Configured s o config answer) := by
  have hprep : SameArrays s (s.prepared o config) := sameArrays_prepared
  have hblame : s.Torn o config answer → ∀ e, (s.prepared o config).Blame o e →
      s.ConfigBlame o config answer e := fun htorn e he =>
    he.configure hprep rfl (fun _ => prepared_sceneOutput) rfl htorn
  show Meets (if config.role = .peripheral ∧ ((s.withRole o config).cg o).destroyed = true then
    (s.withRole o config).outputDestroy o else _) _ _
  have hd : ((s.withRole o config).cg o).destroyed = (s.cg o).destroyed := by
    rw [withRole, modify_cg_self]
  rw [hd]
  refine Meets.ite (fun h => ?_) fun hdest => ?_
  -- an output without a monitor that is peripheral from now on is destroyed
  · have hrole : SameArrays s (s.withRole o config) := sameArrays_modify rfl rfl
    have hl' : (s.withRole o config).live o = true := hl
    refine (outputDestroy_spec hl').mono (fun e he => ?_) fun s' => .destroyed h.1 h.2
    exact he.configure hrole rfl (fun _ => withRole_sceneOutput) rfl (.inl h)
  show Meets (if config.pos.x ≠ -1 ∧ (!answer.modeSet) = true then
    (s.prepared o config).disable o else _) _ _
  have hl' : (s.prepared o config).live o = true := hl
  refine Meets.ite (fun h => ?_) fun hmode => ?_
  -- the mode is refused
  · have hmode : answer.modeSet = false := by simpa using h.2
    refine (disable_spec hl').mono (hblame (.inr (.inl ⟨h.1, hmode⟩))) ?_
    rintro _ ⟨c, hc, rfl⟩
    exact .failed hdest h.1 hmode c hc
  have hmode' : ¬ (config.pos.x ≠ -1 ∧ answer.modeSet = false) := by simpa using hmode
  refine Meets.bind (P := fun _ => True) (Meets.ite (fun _ => ?_) fun _ => Meets.ok trivial)
    fun _ _ => ?_
  · refine (place_spec hl').mono (fun e he => ⟨fun hbad => ?_, fun h => ?_⟩) fun _ h => h
    · refine ⟨o, hl, fun hok => (he.2 hbad).2 (hprep.arrayOk_iff.mpr hok), fun _ hnone => ?_⟩
      rw [← hprep.workspaces] at hnone
      exact absurd hnone (he.2 hbad).1
    · exact absurd h he.1.doubleDestroy
  show Meets ((if config.status = .disable ∧ 1 < (s.prepared o config).outputs.length then
    (s.prepared o config).disable o
    else if config.priority ≠ -1 ∧ ((s.withRole o config).cg o).priority ≠ config.priority then
      .ok (((s.prepared o config).unlink o).outputInsert o)
    else .ok (s.prepared o config)) >>= fun s' => .ok (s'.renewBackground o)) _ _
  have hprio : ((s.withRole o config).cg o).priority = (s.cg o).priority := by
    rw [withRole, modify_cg_self]
  rw [hprio]
  -- the only enabled output is not disabled
  by_cases hdis : config.status = .disable ∧ 1 < s.outputs.length
  · have hdis' : config.status = .disable ∧ 1 < (s.prepared o config).outputs.length := hdis
    rw [if_pos hdis']
    refine Meets.bind ((disable_spec hl').mono (hblame (.inr (.inr hdis))) fun _ h => h) ?_
    rintro _ ⟨c, hc, rfl⟩
    exact Meets.ok (.disabled hdis.1 hdis.2 c hc hdest hmode')
  · have hdis' : ¬ (config.status = .disable ∧ 1 < (s.prepared o config).outputs.length) := hdis
    rw [if_neg hdis']
    have hkept : Configured s o config answer _ := .kept hdest hdis hmode'
    by_cases hchanged : s.PrioChanged o config
    · have hprio : config.priority ≠ -1 ∧ (s.cg o).priority ≠ config.priority := hchanged
      rw [if_pos hchanged] at hkept
      rw [if_pos hprio]
      exact Meets.ok hkept
    · have hprio : ¬ (config.priority ≠ -1 ∧ (s.cg o).priority ≠ config.priority) := hchanged
      rw [if_neg hchanged] at hkept
      rw [if_neg hprio]
      exact Meets.ok hkept

/-! ### New outputs -/

/-- A waiting output with a scene output for its monitor. -/
def reinited (s : OutputServer) (o : ℕ) : OutputServer :=
  ({ s with sceneLive := s.sceneWithout o }.sceneOutputCreate o).modify o fun c =>
    { c with destroyed := false }

theorem reinited_cg_of_ne (h : p ≠ o) : (s.reinited o).cg p = s.cg p := by
  rw [reinited, modify_cg_of_ne h]
  exact Function.update_of_ne h ..

theorem reinited_cg_self : (s.reinited o).cg o =
    { s.cg o with sceneOutput := some s.top, destroyed := false } := by
  rw [reinited, modify_cg_self]
  simp only [sceneOutputCreate, modify_cg_self]

theorem sameArrays_reinited : SameArrays s (s.reinited o) := by
  refine ⟨fun p => ?_, fun p => ?_, rfl⟩
  · by_cases h : p = o
    · rw [h, reinited_cg_self]
    · rw [reinited_cg_of_ne h]
  · by_cases h : p = o
    · rw [h, reinited_cg_self]
    · rw [reinited_cg_of_ne h]

theorem not_gone_reinited : ¬ (s.reinited o).Gone o := by
  rintro ⟨p, hp, hgone⟩
  rw [reinited_cg_self] at hp
  obtain rfl := Option.some.inj hp
  have hlive : (s.reinited o).sceneLive s.top = true := Function.update_self ..
  rw [hlive] at hgone
  cases hgone

theorem reinitOutput_spec (hl : s.live o = true) : Meets (s.reinitOutput o answer) (s.Blame o)
    (Configured (s.reinited o) o (totalConfig s.outputConfig (s.cg o).name) answer) := by
  rw [reinitOutput]
  refine Meets.bind (sceneOutputDestroy_spec.mono ?_ fun _ h => h) ?_
  · rintro e ⟨rfl, hgone⟩
    exact ⟨nofun, fun _ => hgone⟩
  rintro _ rfl
  show Meets ((s.reinited o).outputConfigure o answer) _ _
  have hname : ((s.reinited o).cg o).name = (s.cg o).name := by rw [reinited_cg_self]
  have hl' : (s.reinited o).live o = true := hl
  rw [outputConfigure, hname]
  refine (outputApplyConfig_spec hl').mono (fun e he => ?_) fun _ h => h
  refine ⟨fun hbad => ?_, fun hdouble => absurd (he.doubleDestroy hdouble).1 not_gone_reinited⟩
  obtain ⟨p, hp, hno, -⟩ := he.badIndex hbad
  exact ⟨p, hp, fun hok => hno (sameArrays_reinited.arrayOk_iff.mpr hok)⟩

/-- A new output, which is in no list yet. -/
def allocated (s : OutputServer) (name : Text) : OutputServer :=
  { s with
    top := s.top + 1
    live := Function.update s.live s.top true
    cg := Function.update s.cg s.top (s.newOutput name) }.sceneOutputCreate s.top

/-- A new output in the list of the enabled outputs. -/
def added (s : OutputServer) (name : Text) : OutputServer :=
  (s.allocated name).outputInsert s.top

theorem added_cg_of_ne (h : p ≠ s.top) : (s.added name).cg p = s.cg p := by
  show Function.update (Function.update s.cg s.top _) s.top _ p = _
  rw [Function.update_of_ne h, Function.update_of_ne h]

theorem added_cg_self : (s.added name).cg s.top =
    { s.newOutput name with sceneOutput := some (s.top + 1) } := by
  show Function.update (Function.update s.cg s.top _) s.top _ s.top = _
  rw [Function.update_self]
  simp

theorem added_live_of_ne (h : p ≠ s.top) : (s.added name).live p = s.live p :=
  Function.update_of_ne h ..

theorem added_live_self : (s.added name).live s.top = true := Function.update_self ..

theorem not_gone_added : ¬ (s.added name).Gone s.top := by
  rintro ⟨p, hp, hgone⟩
  rw [added_cg_self] at hp
  obtain rfl := Option.some.inj hp
  have hlive : (s.added name).sceneLive (s.top + 1) = true := Function.update_self ..
  rw [hlive] at hgone
  cases hgone

/-- What `handle_new_output` does for a new output. -/
theorem addOutput_spec : Meets (s.addOutput name answer)
    (fun e => (e = .badIndex → (∃ p, s.live p = true ∧ ¬ s.ArrayOk p) ∨
        (s.added name).Torn s.top (totalConfig s.outputConfig name) answer) ∧
      e ≠ .doubleDestroy)
    fun s' => ∃ s₁, Configured (s.added name) s.top (totalConfig s.outputConfig name) answer s₁ ∧
      s' = s₁.createWorkspaces s.top := by
  show Meets ((s.added name).outputConfigure s.top answer >>= fun s₁ =>
    .ok (s₁.createWorkspaces s.top)) _ _
  have hname : ((s.added name).cg s.top).name = name := by rw [added_cg_self]; rfl
  rw [outputConfigure, hname]
  refine Meets.bind ((outputApplyConfig_spec added_live_self).mono (fun e he => ?_) fun _ h => h)
    fun s₁ hs₁ => Meets.ok ⟨s₁, hs₁, rfl⟩
  refine ⟨fun hbad => ?_, fun hdouble => not_gone_added (he.doubleDestroy hdouble).1⟩
  obtain ⟨p, hp, hno, htorn⟩ := he.badIndex hbad
  by_cases hpo : p = s.top
  · refine .inr (htorn hpo ?_)
    rw [added_cg_self]
    rfl
  · refine .inl ⟨p, ?_, fun hok => hno ?_⟩
    · rw [← hp]
      exact (Function.update_of_ne hpo ..).symm
    · show ((s.added name).cg p).Holds _
      rw [added_cg_of_ne hpo]
      exact hok

/-! ### The number of workspaces -/

/-- Assigning the new entries of an array. -/
theorem foldl_set {α : Type} {g : ℕ → α} {k : ℕ} (ws : List (Option α)) :
    (List.range' ws.length k).foldl (fun ws i => ws.set i (some (g i)))
      (ws ++ List.replicate k none) = ws ++ (List.range' ws.length k).map fun i => some (g i) := by
  induction k generalizing ws with
  | zero => simp
  | succ k ih =>
    have hset : (ws ++ List.replicate (k + 1) none).set ws.length (some (g ws.length)) =
        (ws ++ [some (g ws.length)]) ++ List.replicate k none := by
      rw [List.replicate_succ, List.set_append_right _ _ (Nat.le_refl _), Nat.sub_self]
      simp
    have hlen : ws.length + 1 = (ws ++ [some (g ws.length)]).length := by simp
    rw [List.range'_succ, List.foldl_cons, hset, hlen, ih, List.map_cons, List.append_assoc,
      List.singleton_append]

theorem resizeArray_range {α : Type} {g : ℕ → α} :
    (List.range' oldNws (nws - oldNws)).foldl (fun ws i => ws.set i (some (g i)))
      (resizeArray ((List.range oldNws).map fun i => some (g i)) nws) =
      (List.range nws).map fun i => some (g i) := by
  obtain hle | hlt := Nat.lt_or_ge oldNws nws |>.symm
  · rw [Nat.sub_eq_zero_of_le hle, resizeArray, List.length_map, List.length_range,
      Nat.sub_eq_zero_of_le hle, ← List.map_take, List.take_range, Nat.min_eq_left hle]
    simp
  · obtain ⟨k, rfl⟩ : ∃ k, nws = oldNws + k := ⟨nws - oldNws, by omega⟩
    have hlen : ((List.range oldNws).map fun i => some (g i)).length = oldNws := by simp
    have htake : ((List.range oldNws).map fun i => some (g i)).take (oldNws + k) =
        (List.range oldNws).map fun i => some (g i) := List.take_of_length_le (by simp)
    have hfold : (List.range' oldNws k).foldl (fun ws i => ws.set i (some (g i)))
        (((List.range oldNws).map fun i => some (g i)) ++ List.replicate k none) =
        ((List.range oldNws).map fun i => some (g i)) ++
          (List.range' oldNws k).map fun i => some (g i) := by
      simpa only [hlen] using foldl_set ((List.range oldNws).map fun i => some (g i)) (g := g)
    have happend : List.range oldNws ++ List.range' oldNws k = List.range (oldNws + k) := by
      rw [List.range_eq_range', List.range_eq_range', ← List.range'_append_1, Nat.zero_add]
    rw [resizeArray, hlen, Nat.add_sub_cancel_left, htake, hfold, ← List.map_append, happend]

/-- Only the workspaces of an output are changed. -/
structure SameButWorkspaces (c c' : CgOutput) : Prop where
  name : c'.name = c.name
  sceneOutput : c'.sceneOutput = c.sceneOutput
  priority : c'.priority = c.priority
  role : c'.role = c.role
  destroyed : c'.destroyed = c.destroyed
  bg : c'.bg = c.bg

theorem outputSetNws_spec (hn : 1 ≤ nws) : Meets (outputSetNws oldNws nws s o)
    (fun e => e ≠ .doubleDestroy ∧ (e = .badIndex → ¬ (s.cg o).Holds oldNws))
    fun s' => ∃ c, SameButWorkspaces (s.cg o) c ∧ ((s.cg o).Holds oldNws → c.Holds nws) ∧
      s' = { s with cg := Function.update s.cg o c } := by
  rw [outputSetNws]
  refine Meets.bind (Meets.forM fun i hi => ?_) fun _ _ => Meets.ite
    (fun _ => Meets.error ⟨nofun, nofun⟩) fun _ => ?_
  · -- both entries that are read are below the old number
    rw [List.mem_range'_1] at hi
    refine Meets.bind (wsAt_spec.mono ?_ fun _ h => h) fun _ _ =>
      Meets.bind (wsAt_spec.mono ?_ fun _ h => h) fun _ _ => Meets.ok trivial
    · rintro e ⟨rfl, hbad⟩
      exact ⟨nofun, fun _ hold => hbad ⟨oldNws, hold.workspaces, by omega⟩⟩
    · rintro e ⟨rfl, hbad⟩
      exact ⟨nofun, fun _ hold => hbad ⟨oldNws, hold.workspaces, by omega⟩⟩
  cases hws : (s.cg o).workspaces with
  | none =>
    refine Meets.error ⟨nofun, fun _ hold => ?_⟩
    have hsome := hold.workspaces
    rw [CgOutput.Numbered, hws] at hsome
    cases hsome
  | some ws =>
    simp only
    generalize hnew : (List.range' oldNws (nws - oldNws)).foldl
      (fun ws i => ws.set i (some (CgWorkspace.mk i))) (resizeArray ws nws) = newWs
    have hnumbered : (s.cg o).Holds oldNws →
        newWs = (List.range nws).map fun i : ℕ => some ⟨i⟩ := by
      intro hold
      have hws' : ws = (List.range oldNws).map fun i : ℕ => some ⟨i⟩ :=
        Option.some.inj (hws.symm.trans hold.workspaces)
      rw [← hnew, hws', resizeArray_range]
    have hread : ∀ i < nws,
        Meets ((s.modify o fun c => { c with workspaces := some newWs }).wsAt o i)
        (fun e => e ≠ .doubleDestroy ∧ (e = .badIndex → ¬ (s.cg o).Holds oldNws))
        fun _ => True := by
      intro i hi
      refine wsAt_spec.mono ?_ fun _ h => h
      rintro e ⟨rfl, hbad⟩
      refine ⟨nofun, fun _ hold => hbad ⟨nws, ?_, hi⟩⟩
      rw [modify_cg_self, CgOutput.Numbered, hnumbered hold]
    rw [modify_cg_self]
    refine Meets.ite (fun hle => ?_) fun hlt => Meets.ok ⟨{ s.cg o with workspaces := some newWs },
      ⟨rfl, rfl, rfl, rfl, rfl, rfl⟩, fun hold => ⟨?_, ?_⟩, rfl⟩
    · refine Meets.bind (hread 0 (by omega)) fun _ _ =>
        Meets.bind (hread (nws - 1) (by omega)) fun _ _ => Meets.ok
          ⟨{ s.cg o with workspaces := some newWs, currWorkspace := nws - 1 },
            ⟨rfl, rfl, rfl, rfl, rfl, rfl⟩, fun hold => ⟨?_, ?_⟩, ?_⟩
      · rw [CgOutput.Numbered, hnumbered hold]
      · show nws - 1 < nws
        omega
      · rw [modify, modify_cg_self, modify, Function.update_idem]
    · rw [CgOutput.Numbered, hnumbered hold]
    · exact not_le.mp hlt

theorem SameButWorkspaces.refl (c : CgOutput) : SameButWorkspaces c c :=
    ⟨rfl, rfl, rfl, rfl, rfl, rfl⟩

theorem SameButWorkspaces.trans {c c' c'' : CgOutput} (h : SameButWorkspaces c c')
    (h' : SameButWorkspaces c' c'') : SameButWorkspaces c c'' :=
  ⟨h'.name.trans h.name, h'.sceneOutput.trans h.sceneOutput, h'.priority.trans h.priority,
    h'.role.trans h.role, h'.destroyed.trans h.destroyed, h'.bg.trans h.bg⟩

/-- What `keybinding_set_nws` makes of the outputs in a list. -/
structure Resized (s : OutputServer) (l : List ℕ) (oldNws nws : ℕ) (cg : ℕ → CgOutput) : Prop where
  same : ∀ p, SameButWorkspaces (s.cg p) (cg p)
  others : ∀ p, p ∉ l → cg p = s.cg p
  holds : ∀ p, p ∈ l → (s.cg p).Holds oldNws → (cg p).Holds nws

theorem foldlM_outputSetNws (hn : 1 ≤ nws) {l : List ℕ} (hnd : l.Nodup) :
    Meets (l.foldlM (outputSetNws oldNws nws) s)
      (fun e => e ≠ .doubleDestroy ∧ (e = .badIndex → ∃ p ∈ l, ¬ (s.cg p).Holds oldNws))
      fun s' => ∃ cg, Resized s l oldNws nws cg ∧ s' = { s with cg } := by
  induction l generalizing s with
  | nil =>
    exact Meets.ok ⟨s.cg, ⟨fun p => .refl _, fun _ _ => rfl,
      fun p hp => absurd hp List.not_mem_nil⟩,
      rfl⟩
  | cons o l ih =>
    obtain ⟨ho, hnd⟩ := List.nodup_cons.mp hnd
    rw [List.foldlM_cons]
    refine Meets.bind ((outputSetNws_spec hn).mono ?_ fun _ h => h) ?_
    · rintro e ⟨hdouble, hbad⟩
      exact ⟨hdouble, fun he => ⟨o, List.mem_cons_self, hbad he⟩⟩
    rintro _ ⟨c, hsame, hholds, rfl⟩
    -- the outputs behind it are as they were
    have hne : ∀ p ∈ l, Function.update s.cg o c p = s.cg p := fun p hp =>
      Function.update_of_ne (ne_of_mem_of_not_mem hp ho) ..
    refine (ih hnd).mono ?_ ?_
    · rintro e ⟨hdouble, hbad⟩
      refine ⟨hdouble, fun he => ?_⟩
      obtain ⟨p, hp, hno⟩ := hbad he
      refine ⟨p, List.mem_cons_of_mem _ hp, ?_⟩
      rwa [← hne p hp]
    · rintro _ ⟨cg, hcg, rfl⟩
      refine ⟨cg, ⟨fun p => ?_, fun p hp => ?_, fun p hp hold => ?_⟩, rfl⟩
      · refine SameButWorkspaces.trans ?_ (hcg.same p)
        by_cases hpo : p = o
        · subst hpo
          show SameButWorkspaces (s.cg p) (Function.update s.cg p c p)
          rw [Function.update_self]
          exact hsame
        · show SameButWorkspaces (s.cg p) (Function.update s.cg o c p)
          rw [Function.update_of_ne hpo]
          exact .refl _
      · obtain ⟨hpo, hpl⟩ := List.ne_and_not_mem_of_not_mem_cons hp
        rw [hcg.others p hpl]
        exact Function.update_of_ne hpo ..
      · obtain rfl | hpl := List.mem_cons.mp hp
        · rw [hcg.others p ho]
          show (Function.update s.cg p c p).Holds nws
          rw [Function.update_self]
          exact hholds hold
        · refine hcg.holds p hpl ?_
          show (Function.update s.cg o c p).Holds oldNws
          rw [hne p hpl]
          exact hold

theorem keybindingSetNws_spec (hn : 1 ≤ nws) (hnd : s.outputs.Nodup)
    (hlive : ∀ p ∈ s.outputs, s.live p = true) :
    Meets (s.keybindingSetNws nws) s.BadArray
      fun s' => ∃ cg, Resized s s.outputs s.nws nws cg ∧ s' = { s with nws, cg } := by
  rw [keybindingSetNws]
  have hloop : Meets (s.outputs.foldlM (outputSetNws s.nws nws) { s with nws }) _ _ :=
    foldlM_outputSetNws hn hnd
  refine Meets.bind (hloop.mono ?_ fun _ h => h) ?_
  · rintro e ⟨hdouble, hbad⟩
    refine ⟨fun he => ?_, hdouble⟩
    obtain ⟨p, hp, hno⟩ := hbad he
    exact ⟨p, hlive p hp, hno⟩
  rintro _ ⟨cg, hcg, rfl⟩
  have hres : Resized s s.outputs s.nws nws cg := ⟨hcg.same, hcg.others, hcg.holds⟩
  refine Meets.bind (P := fun _ => True) (Meets.bind (curr_spec.mono ?_ fun _ h => h)
    fun o ho => ?_) fun _ _ => Meets.ok ⟨cg, hres, rfl⟩
  · rintro e (rfl | rfl)
    · exact .of_other nofun nofun
    · exact .of_other nofun nofun
  · refine wsAt_spec.mono ?_ fun _ h => h
    rintro e ⟨rfl, hbad⟩
    refine ⟨fun _ => ⟨o, ho.2, fun hok => hbad ?_⟩, nofun⟩
    by_cases hmem : o ∈ s.outputs
    · have hnew := hres.holds o hmem hok
      exact ⟨nws, hnew.workspaces, hnew.currWorkspace⟩
    · -- a disabled output still has its old array
      have hold : cg o = s.cg o := hres.others o hmem
      refine ⟨s.nws, ?_, ?_⟩
      · show (cg o).Numbered s.nws
        rw [hold]
        exact hok.workspaces
      · show (cg o).currWorkspace < s.nws
        rw [hold]
        exact hok.currWorkspace

theorem keybindingSwitchWs_spec (ws : ℕ) : Meets (s.keybindingSwitchWs ws) s.BadArray fun s' =>
    s' = s ∨ ws < s.nws ∧ ∃ o, s.live o = true ∧
      s' = s.modify o fun c => { c with currWorkspace := ws } := by
  rw [keybindingSwitchWs]
  refine Meets.ite (fun _ => Meets.ok (.inl rfl)) fun hlt => ?_
  refine Meets.bind (curr_spec.mono ?_ fun _ h => h) fun o ho => ?_
  · rintro e (rfl | rfl)
    · exact .of_other nofun nofun
    · exact .of_other nofun nofun
  · exact Meets.bind (wsAt_live ho.2 fun hok => hok.currWorkspace) fun _ _ =>
      Meets.bind (wsAt_live ho.2 fun _ => not_le.mp hlt) fun _ _ =>
        Meets.ok (.inr ⟨not_le.mp hlt, o, ho.2, rfl⟩)

theorem keybindingSwitchOutput_spec (output : ℕ) : Meets (s.keybindingSwitchOutput output)
    s.BadArray fun s' => s' = s ∨ ∃ c ∈ s.outputs, s' = { s with currOutput := some c } := by
  rw [keybindingSwitchOutput]
  cases ho : s.outputs[output - 1]? with
  | none => exact Meets.ok (.inl rfl)
  | some o =>
    refine Meets.ite (fun _ => Meets.ok (.inl rfl)) fun _ => ?_
    refine setOutput_spec.mono (fun _ h => h) fun s' hs' => ?_
    exact .inr ⟨o, List.mem_of_getElem? ho, hs'⟩

theorem named_mem {n : Option Text} (h : s.named n = some o) :
    (o ∈ s.outputs ∨ o ∈ s.disabledOutputs) ∧ some (s.cg o).name = n := by
  rw [named, Option.or_eq_some_iff] at h
  obtain h | ⟨-, h⟩ := h
  · exact ⟨.inl (List.mem_of_find?_eq_some h), by simpa using List.find?_some h⟩
  · exact ⟨.inr (List.mem_of_find?_eq_some h), by simpa using List.find?_some h⟩

theorem waiting_mem (h : s.waiting name = some o) :
    o ∈ s.outputs ∧ (s.cg o).name = name ∧ (s.cg o).destroyed = true := by
  have hmem := List.mem_of_getLast? h
  simpa using hmem

/-- The server after a command has been stored. -/
def recorded (s : OutputServer) (cfg : OutputConfig) : OutputServer :=
  { s with outputConfig := storeConfig s.outputConfig cfg }

/-- The merged configuration of an output. -/
def effective (s : OutputServer) (o : ℕ) : OutputConfig :=
  totalConfig s.outputConfig (s.cg o).name

theorem keybindingConfigureOutput_spec {cfg : OutputConfig}
    (hlive : ∀ p, p ∈ s.outputs ∨ p ∈ s.disabledOutputs → s.live p = true) :
    Meets (s.keybindingConfigureOutput cfg answer)
      (fun e => ∃ o, s.named cfg.outputName = some o ∧
        (s.recorded cfg).ConfigBlame o ((s.recorded cfg).effective o) answer e)
      fun s' => s.named cfg.outputName = none ∧ s' = s.recorded cfg ∨
        ∃ o, s.named cfg.outputName = some o ∧
        Configured (s.recorded cfg) o ((s.recorded cfg).effective o) answer s' := by
  have hnamed : (s.recorded cfg).named cfg.outputName = s.named cfg.outputName := rfl
  cases ho : s.named cfg.outputName with
  | none =>
    have hrun : s.keybindingConfigureOutput cfg answer = .ok (s.recorded cfg) := by
      rw [ho, recorded] at hnamed
      simp only [keybindingConfigureOutput, hnamed, recorded]
    rw [hrun]
    exact Meets.ok (.inl ⟨rfl, rfl⟩)
  | some o =>
    have hrun : s.keybindingConfigureOutput cfg answer =
        (s.recorded cfg).outputConfigure o answer := by
      rw [ho, recorded] at hnamed
      simp only [keybindingConfigureOutput, hnamed, recorded]
    rw [hrun]
    have hl : (s.recorded cfg).live o = true := hlive o (named_mem ho).1
    exact (outputApplyConfig_spec hl).mono (fun e he => ⟨o, rfl, he⟩) fun s' hs' =>
      .inr ⟨o, rfl, hs'⟩

end OutputServer

end Cagebreak
