/-
The workspaces of the outputs.

`workspaces` changes the number of workspaces for all outputs, but resizes the
arrays of the enabled ones only; and a new output that is cleared by its own
configuration does not have an array yet.  `outputs_arrays` says that nothing
else spoils an array.
-/
import Cagebreak.OutputLists

namespace Cagebreak

open Outcome

namespace OutputServer

variable {s s' : OutputServer} {o p : ℕ} {c : Option ℕ} {config : OutputConfig}
  {answer : OutputAnswer} {name : Text} {e : OutputEvent}

/-- All outputs in use have their workspaces. -/
def ArraysOk (s : OutputServer) : Prop := ∀ o, s.live o = true → s.ArrayOk o

/-- The arrays are the same and no output has come into use. -/
structure KeepsArrays (s s' : OutputServer) : Prop where
  same : SameArrays s s'
  live : ∀ p, s'.live p = true → s.live p = true

theorem KeepsArrays.trans {s'' : OutputServer} (h : KeepsArrays s s') (h' : KeepsArrays s' s'') :
    KeepsArrays s s'' :=
  ⟨h.same.trans h'.same, fun p hp => h.live p (h'.live p hp)⟩

theorem KeepsArrays.arraysOk (h : KeepsArrays s s') (hs : s.ArraysOk) : s'.ArraysOk :=
  fun p hp => h.same.arrayOk_iff.mpr (hs p (h.live p hp))

theorem keepsArrays_of_cg (hcg : s'.cg = s.cg) (hnws : s'.nws = s.nws)
    (hlive : ∀ p, s'.live p = true → s.live p = true) : KeepsArrays s s' :=
  ⟨sameArrays_of_cg hcg hnws, hlive⟩

theorem keepsArrays_modify {f : CgOutput → CgOutput}
    (hws : (f (s.cg o)).workspaces = (s.cg o).workspaces)
    (hcurr : (f (s.cg o)).currWorkspace = (s.cg o).currWorkspace) :
    KeepsArrays s (s.modify o f) :=
  ⟨sameArrays_modify hws hcurr, fun _ hp => hp⟩

theorem keepsArrays_ended : KeepsArrays s s.ended := by
  rw [ended]
  split
  · exact keepsArrays_of_cg rfl rfl fun _ hp => hp
  · exact keepsArrays_of_cg rfl rfl fun _ hp => hp

theorem keepsArrays_detached : KeepsArrays s (s.detached o) :=
  ⟨sameArrays_detached, fun p hp => by rwa [detached_live] at hp⟩

theorem Destroyed.keepsArrays (h : Destroyed s o s') : KeepsArrays s s' := by
  cases h with
  | replaced hrole hrun =>
    have hscene : KeepsArrays (s.detached o)
        ((s.detached o).modify o fun c => { c with sceneOutput := some (s.detached o).top }) :=
      keepsArrays_modify rfl rfl
    have hnew : KeepsArrays (s.detached o) ((s.detached o).sceneOutputCreate o) :=
      hscene.trans (keepsArrays_of_cg rfl rfl fun _ hp => hp)
    exact keepsArrays_detached.trans (hnew.trans keepsArrays_ended)
  | removed hrole c hc =>
    have hrem : KeepsArrays s { (s.detached o).cleared o c with
        live := Function.update s.live o false } := by
      refine keepsArrays_detached.trans (keepsArrays_of_cg rfl rfl fun p hp => ?_)
      rw [detached_live]
      by_cases hpo : p = o
      · subst hpo
        simp at hp
      · rw [← hp]
        exact (Function.update_of_ne hpo ..).symm
    exact hrem.trans keepsArrays_ended

theorem keepsArrays_prepared : KeepsArrays s (s.prepared o config) :=
  ⟨sameArrays_prepared, fun _ hp => hp⟩

theorem keepsArrays_renewBackground : KeepsArrays s (s.renewBackground o) :=
  keepsArrays_modify rfl rfl

theorem Configured.keepsArrays (h : Configured s o config answer s') : KeepsArrays s s' := by
  cases h with
  | destroyed hrole hd hdest =>
    have hrole : KeepsArrays s (s.withRole o config) := keepsArrays_modify rfl rfl
    exact hrole.trans hdest.keepsArrays
  | failed hdest hpos hmode c hc =>
    exact keepsArrays_prepared.trans (keepsArrays_of_cg rfl rfl fun _ hp => hp)
  | disabled hstatus hlen c hc =>
    have hdis : KeepsArrays s ((s.prepared o config).disabledTo o c) :=
      keepsArrays_prepared.trans (keepsArrays_of_cg rfl rfl fun _ hp => hp)
    exact hdis.trans keepsArrays_renewBackground
  | kept hdest hlen hmode =>
    split
    · have hre : KeepsArrays s (((s.prepared o config).unlink o).outputInsert o) :=
        keepsArrays_prepared.trans (keepsArrays_of_cg rfl rfl fun _ hp => hp)
      exact hre.trans keepsArrays_renewBackground
    · exact keepsArrays_prepared.trans keepsArrays_renewBackground

/-- The array of a new output is the right one. -/
theorem ArraysOk.added (h : s.ArraysOk) (hs : s.Listed)
    (htorn : ¬ (s.added name).Torn s.top config answer)
    (hc : Configured (s.added name) s.top config answer s') :
    (s'.createWorkspaces s.top).ArraysOk := by
  have hkeep := hc.keepsArrays
  have hnws : s'.nws = s.nws := hkeep.same.nws
  obtain ⟨-, -, hlive, -, hnws'⟩ := createWorkspaces_same (s := s') (o := s.top)
  intro p hp
  rw [hlive] at hp
  rw [ArrayOk, hnws']
  by_cases hpo : p = s.top
  · subst hpo
    obtain ⟨hnum, hcurr⟩ := createWorkspaces_cg_self (hasSceneOutput_added htorn hc)
    refine ⟨hnum, ?_⟩
    rw [hcurr, hnws]
    exact hs.nws
  · rw [createWorkspaces_cg_of_ne hpo]
    have hadded : (s.added name).live p = true := hkeep.live p hp
    have hok : (s.added name).ArrayOk p := by
      show ((s.added name).cg p).Holds s.nws
      rw [added_cg_of_ne hpo]
      exact h p (by rw [← added_live_of_ne hpo, hadded])
    exact hkeep.same.arrayOk_iff.mpr hok

/-- The number of workspaces is changed only while no output is disabled, and no
new output is refused by the backend or disabled by its stored configuration. -/
def ArraysKept (s : OutputServer) : OutputEvent → Prop
  | .workspaces nws => nws.1 = s.nws ∨ s.disabledOutputs = []
  | .plug name answer => s.waiting name = none →
    ¬ (s.added name).Torn s.top (totalConfig s.outputConfig name) answer
  | _ => True

theorem ArraysOk.resized {cg : ℕ → CgOutput} {nws : ℕ} (h : s.ArraysOk) (hs : s.Listed)
    (hcg : Resized s s.outputs s.nws nws cg) (hok : nws = s.nws ∨ s.disabledOutputs = []) :
    ({ s with nws, cg } : OutputServer).ArraysOk := by
  intro p hp
  by_cases hmem : p ∈ s.outputs
  · exact hcg.holds p hmem (h p hp)
  · have hold : cg p = s.cg p := hcg.others p hmem
    obtain rfl | hnil := hok
    · show (cg p).Holds s.nws
      rw [hold]
      exact h p hp
    · have hknown := (hs.live_iff p).mp hp
      rw [hnil] at hknown
      simp [hmem] at hknown

theorem step_arrays (h : s.ArraysOk) (hs : s.Listed) (hok : s.ArraysKept e) :
    Meets (s.step e) (· ≠ .badIndex) ArraysOk := by
  have hlive : ∀ p, p ∈ s.outputs ∨ p ∈ s.disabledOutputs → s.live p = true := fun p hp =>
    (hs.live_iff p).mpr hp
  -- an index is outside only where an array is too short already
  have hblame : ∀ err, (∃ p, s.live p = true ∧ ¬ s.ArrayOk p) → err ≠ OutputFault.badIndex := by
    rintro err ⟨p, hp, hbad⟩
    exact absurd (h p hp) hbad
  cases e with
  | plug name answer =>
    show Meets (s.handleNewOutput name answer) _ _
    rw [handleNewOutput]
    cases hw : s.waiting name with
    | some o =>
      have hl := hlive o (.inl (waiting_mem hw).1)
      have hre : KeepsArrays s (s.reinited o) := ⟨sameArrays_reinited, fun _ hp => hp⟩
      refine (reinitOutput_spec hl).mono (fun err he hbad => ?_) fun s' hs' =>
        (hre.trans hs'.keepsArrays).arraysOk h
      exact hblame err (he.badIndex hbad) hbad
    | none =>
      have htorn := hok hw
      refine addOutput_spec.mono (fun err he hbad => ?_) ?_
      · obtain hp | ht := he.1 hbad
        · exact hblame err hp hbad
        · exact htorn ht
      · rintro _ ⟨s₁, hs₁, rfl⟩
        exact h.added hs htorn hs₁
  | unplug o =>
    refine Meets.ite (fun hc => ?_) fun _ => Meets.ok h
    have hl : s.live o = true := (Bool.and_eq_true_iff.mp hc).1
    exact (outputDestroy_spec hl).mono (fun err he hbad => hblame err (he.badIndex hbad) hbad)
      fun s' hs' => hs'.keepsArrays.arraysOk h
  | configure cfg answer =>
    have hrec : (s.recorded cfg).ArraysOk := h
    refine (keybindingConfigureOutput_spec hlive).mono ?_ ?_
    · rintro err ⟨o, -, he⟩ hbad
      obtain ⟨p, hp, hno, -⟩ := he.badIndex hbad
      exact hno (hrec p hp)
    · rintro s' (⟨-, rfl⟩ | ⟨o, -, hs'⟩)
      · exact hrec
      · exact hs'.keepsArrays.arraysOk hrec
  | workspaces nws =>
    refine (keybindingSetNws_spec nws.2.1 hs.outputs fun p hp => hlive p (.inl hp)).mono
      (fun err he hbad => hblame err (he.badIndex hbad) hbad) ?_
    rintro _ ⟨cg, hcg, rfl⟩
    exact h.resized hs hcg hok
  | cycleOutputs reverse =>
    refine (keybindingCycleOutputs_spec reverse).mono
      (fun err he hbad => hblame err (he.badIndex hbad) hbad) ?_
    rintro _ ⟨c, -, rfl⟩
    exact h
  | switchOutput output =>
    refine (keybindingSwitchOutput_spec output).mono
      (fun err he hbad => hblame err (he.badIndex hbad) hbad) ?_
    rintro _ (rfl | ⟨c, -, rfl⟩)
    · exact h
    · exact h
  | switchWs ws =>
    refine (keybindingSwitchWs_spec ws).mono
      (fun err he hbad => hblame err (he.badIndex hbad) hbad) ?_
    rintro _ (rfl | ⟨hlt, o, hl, rfl⟩)
    · exact h
    · intro p hp
      by_cases hpo : p = o
      · subst hpo
        show ((s.modify p _).cg p).Holds s.nws
        rw [modify_cg_self]
        exact ⟨(h p hp).workspaces, hlt⟩
      · show ((s.modify o _).cg p).Holds s.nws
        rw [modify_cg_of_ne hpo]
        exact h p hp
  | quit => exact Meets.ok h

/-- **The arrays of workspaces.**  In every run in which the number of workspaces
changes only while no output is disabled, and no new output is refused or
disabled by its stored configuration, every output has exactly the workspaces
`0, …, nws - 1` and its current one among them, and no admitted event indexes an
array outside. -/
theorem outputs_arrays {prios : List (Text × ℤ)} (hs : Runs step ArraysKept (init prios) s) :
    (∀ o ∈ s.outputs ++ s.disabledOutputs, s.ArrayOk o) ∧
      ∀ e, s.ArraysKept e → s.step e ≠ .error .badIndex := by
  have hinit : (init prios).Listed ∧ (init prios).ArraysOk :=
    ⟨init_listed prios, fun o ho => nomatch ho⟩
  have hinv : s.Listed ∧ s.ArraysOk := by
    refine hs.invariant (E := fun _ => True) (I := fun s => s.Listed ∧ s.ArraysOk) hinit
      fun t e ht hok => ?_
    have hl := step_listed (e := e) ht.1
    have ha := step_arrays ht.2 ht.1 hok
    cases hst : t.step e with
    | error err => exact Meets.error trivial
    | ok t' => exact Meets.ok ⟨hl.of_ok hst, ha.of_ok hst⟩
  refine ⟨fun o ho => hinv.2 o ((hinv.1.live_iff o).mpr (List.mem_append.mp ho)),
    fun e hok he => ?_⟩
  exact (step_arrays hinv.2 hinv.1 hok).of_error he rfl

/-- One monitor, and three workspaces. -/
theorem outputs_arrays_three : ∃ s, Runs step ArraysKept (init []) s ∧ s.nws = 3 ∧
    ∀ o ∈ s.outputs ++ s.disabledOutputs, s.ArrayOk o := by
  have hplug : (init []).ArraysKept (.plug (ascii "A") agrees) := by
    rintro - (⟨hrole, -⟩ | ⟨hpos, -⟩ | ⟨hstatus, -⟩)
    · cases hrole
    · exact hpos rfl
    · cases hstatus
  have hret : returns ((init []).step (.plug (ascii "A") agrees)) (fun s =>
      s.disabledOutputs.isEmpty && returns (s.step (.workspaces ⟨3, by decide⟩)) fun s =>
        decide (s.nws = 3)) = true := by decide
  obtain ⟨s, hs, htest⟩ := exists_of_returns hret
  rw [Bool.and_eq_true, List.isEmpty_iff] at htest
  obtain ⟨t, ht, hnws⟩ := exists_of_returns htest.2
  have hkept : s.ArraysKept (.workspaces ⟨3, by decide⟩) := Or.inr htest.1
  have hrun : Runs step ArraysKept (init []) t := (Runs.tail .refl hplug hs).tail hkept ht
  exact ⟨t, hrun, of_decide_eq_true hnws, (outputs_arrays hrun).1⟩

/-- Two monitors, one of which is disabled, and three workspaces. -/
def disabledThenResized : List OutputEvent :=
  [.plug (ascii "A") agrees, .plug (ascii "B") agrees,
    .configure { emptyOutputConfig with outputName := some (ascii "B"), status := .disable } agrees,
    .workspaces ⟨3, by decide⟩]

/-- The disabled output keeps its single workspace. -/
theorem outputs_arrays_disabled : ∃ s, Runs step (fun _ _ => True) (init []) s ∧
    s.nws = 3 ∧ ∃ o ∈ s.disabledOutputs, (s.cg o).workspaces = some [some ⟨0⟩] ∧ ¬ s.ArrayOk o := by
  have hret : returns (disabledThenResized.foldlM step (init [])) (fun s =>
      decide (s.nws = 3) && decide (2 ∈ s.disabledOutputs) &&
        decide ((s.cg 2).workspaces = some [some ⟨0⟩])) = true := by decide
  obtain ⟨s, hs, htest⟩ := exists_of_returns hret
  simp only [Bool.and_eq_true, decide_eq_true_eq] at htest
  obtain ⟨⟨hnws, hdis⟩, hws⟩ := htest
  refine ⟨s, Runs.of_foldlM hs, hnws, 2, hdis, hws, fun hok => ?_⟩
  have hnum := hok.workspaces
  rw [CgOutput.Numbered, hws, hnws] at hnum
  exact absurd hnum (by decide)

end OutputServer

end Cagebreak
