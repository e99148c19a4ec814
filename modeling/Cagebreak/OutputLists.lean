/-
The lists of outputs.

In every run each output in use is in exactly one of the two lists
(`step_listed`).  The current output is an enabled one as long as no mode is
refused for the only enabled output (`outputs_attended`).
-/
import Cagebreak.OutputSteps

namespace Cagebreak

open Outcome

namespace OutputServer

variable {s s' : OutputServer} {o p : ℕ} {c : Option ℕ} {config : OutputConfig}
  {answer : OutputAnswer} {name : Text} {e : OutputEvent}

/-- The outputs in use are those in the lists, each once. -/
structure Listed (s : OutputServer) : Prop where
  outputs : s.outputs.Nodup
  disabled : s.disabledOutputs.Nodup
  disjoint : ∀ o ∈ s.outputs, o ∉ s.disabledOutputs
  live_iff : ∀ o, s.live o = true ↔ o ∈ s.outputs ∨ o ∈ s.disabledOutputs
  fresh : ∀ o, s.live o = true → o < s.top
  nws : 1 ≤ s.nws

/-- Nothing about the lists has changed. -/
theorem Listed.congr (h : s.Listed) (hout : s'.outputs = s.outputs)
    (hdis : s'.disabledOutputs = s.disabledOutputs) (hlive : s'.live = s.live)
    (htop : s.top ≤ s'.top) (hnws : 1 ≤ s'.nws) : s'.Listed := by
  refine ⟨?_, ?_, ?_, ?_, ?_, hnws⟩
  · rw [hout]
    exact h.outputs
  · rw [hdis]
    exact h.disabled
  · rw [hout, hdis]
    exact h.disjoint
  · rw [hout, hdis, hlive]
    exact h.live_iff
  · rw [hlive]
    exact fun o ho => (h.fresh o ho).trans_le htop

theorem Listed.mem_unlink (h : s.Listed) :
    (p ∈ (s.unlink o).outputs ↔ p ≠ o ∧ p ∈ s.outputs) ∧
      (p ∈ (s.unlink o).disabledOutputs ↔ p ≠ o ∧ p ∈ s.disabledOutputs) :=
  ⟨h.outputs.mem_erase_iff, h.disabled.mem_erase_iff⟩

theorem outputInsert_perm : (s.outputInsert o).outputs.Perm (o :: s.outputs) := by
  have hsplit := List.takeWhile_append_dropWhile
    (p := fun it => decide ((s.cg o).priority ≤ (s.cg it).priority)) (l := s.outputs)
  have hperm : (s.outputInsert o).outputs.Perm (o :: (s.outputs.takeWhile _ ++
    s.outputs.dropWhile _)) := List.perm_middle
  rw [hsplit] at hperm
  exact hperm

/-- An output that is linked nowhere is put into the list of the enabled ones. -/
theorem Listed.outputInsert (hout : s.outputs.Nodup) (hdis : s.disabledOutputs.Nodup)
    (hdisj : ∀ p ∈ s.outputs, p ∉ s.disabledOutputs) (ho : o ∉ s.outputs)
    (ho' : o ∉ s.disabledOutputs)
    (hlive : ∀ p, s.live p = true ↔ p = o ∨ p ∈ s.outputs ∨ p ∈ s.disabledOutputs)
    (hfresh : ∀ p, s.live p = true → p < s.top) (hnws : 1 ≤ s.nws) : (s.outputInsert o).Listed := by
  have hmem : ∀ p, p ∈ (s.outputInsert o).outputs ↔ p = o ∨ p ∈ s.outputs := fun p =>
    outputInsert_perm.mem_iff.trans List.mem_cons
  refine ⟨outputInsert_perm.nodup_iff.mpr (List.nodup_cons.mpr ⟨ho, hout⟩), hdis, fun p hp => ?_,
    fun p => ?_, hfresh, hnws⟩
  · obtain rfl | hp := (hmem p).mp hp
    · exact ho'
    · exact hdisj p hp
  · rw [hmem, or_assoc]
    exact hlive p

theorem Listed.reinsert (h : s.Listed) (hl : s.live o = true) :
    ((s.unlink o).outputInsert o).Listed := by
  refine Listed.outputInsert (h.outputs.erase o) (h.disabled.erase o) (fun p hp => ?_) ?_ ?_
    (fun p => ?_) h.fresh h.nws
  · intro hp'
    exact h.disjoint p (h.mem_unlink.1.mp hp).2 (h.mem_unlink.2.mp hp').2
  · exact fun ho => (h.mem_unlink.1.mp ho).1 rfl
  · exact fun ho => (h.mem_unlink.2.mp ho).1 rfl
  · show s.live p = true ↔ _
    rw [h.live_iff, h.mem_unlink.1, h.mem_unlink.2]
    by_cases hpo : p = o
    · subst hpo
      exact iff_of_true ((h.live_iff p).mp hl) (.inl rfl)
    · simp [hpo]

theorem Listed.disabledTo (h : s.Listed) (hl : s.live o = true) : (s.disabledTo o c).Listed := by
  have hmem : ∀ p, p ∈ (s.disabledTo o c).disabledOutputs ↔
      p = o ∨ p ≠ o ∧ p ∈ s.disabledOutputs := fun p =>
    List.mem_cons.trans (or_congr_right h.disabled.mem_erase_iff)
  refine ⟨h.outputs.erase o, List.nodup_cons.mpr ⟨fun ho => ?_, h.disabled.erase o⟩, fun p hp => ?_,
    fun p => ?_, h.fresh, h.nws⟩
  · exact (h.disabled.mem_erase_iff.mp ho).1 rfl
  · have hp' := h.mem_unlink.1.mp hp
    rw [hmem]
    rintro (rfl | ⟨-, hdis⟩)
    · exact hp'.1 rfl
    · exact h.disjoint p hp'.2 hdis
  · rw [hmem]
    have hout : p ∈ (s.disabledTo o c).outputs ↔ p ≠ o ∧ p ∈ s.outputs := h.mem_unlink.1
    rw [hout]
    show s.live p = true ↔ _
    rw [h.live_iff]
    by_cases hpo : p = o
    · subst hpo
      exact iff_of_true ((h.live_iff p).mp hl) (.inr (.inl rfl))
    · simp [hpo]

theorem Listed.removed (h : s.Listed) :
    ({ s.cleared o c with live := Function.update s.live o false } : OutputServer).Listed := by
  refine ⟨h.outputs.erase o, h.disabled.erase o, fun p hp hp' => ?_, fun p => ?_, fun p hp => ?_,
    h.nws⟩
  · exact h.disjoint p (h.mem_unlink.1.mp hp).2 (h.mem_unlink.2.mp hp').2
  · show Function.update s.live o false p = true ↔
      p ∈ (s.unlink o).outputs ∨ p ∈ (s.unlink o).disabledOutputs
    rw [h.mem_unlink.1, h.mem_unlink.2]
    by_cases hpo : p = o
    · subst hpo
      rw [Function.update_self]
      simp
    · rw [Function.update_of_ne hpo]
      simpa [hpo] using h.live_iff p
  · refine h.fresh p ?_
    by_cases hpo : p = o
    · subst hpo
      simp at hp
    · rw [← hp]
      exact (Function.update_of_ne hpo ..).symm

theorem Listed.added (h : s.Listed) : (s.added name).Listed := by
  have hfresh : s.top ∉ s.outputs ∧ s.top ∉ s.disabledOutputs := by
    rw [← not_or, ← h.live_iff]
    exact fun hl => absurd (h.fresh _ hl) (Nat.lt_irrefl _)
  have hlive : ∀ p, p ≠ s.top → (s.allocated name).live p = s.live p := fun p hp =>
    Function.update_of_ne hp ..
  have hself : (s.allocated name).live s.top = true := Function.update_self ..
  have hins : ((s.allocated name).outputInsert s.top).Listed := by
    refine Listed.outputInsert h.outputs h.disabled h.disjoint hfresh.1 hfresh.2 (fun p => ?_)
      (fun p hp => ?_) h.nws
    · by_cases hp : p = s.top
      · exact iff_of_true (by rw [hp, hself]) (.inl hp)
      · rw [hlive p hp, h.live_iff]
        exact ⟨.inr, fun hor => hor.resolve_left hp⟩
    · show p < s.top + 1 + 1
      by_cases hps : p = s.top
      · omega
      · rw [hlive p hps] at hp
        exact (h.fresh p hp).trans (by omega)
  exact hins

theorem detached_lists : (s.detached o).outputs = s.outputs ∧
    (s.detached o).disabledOutputs = s.disabledOutputs ∧ (s.detached o).top = s.top := by
  rw [detached]
  split
  · exact ⟨rfl, rfl, rfl⟩
  · exact ⟨rfl, rfl, rfl⟩

theorem Listed.detached (h : s.Listed) : (s.detached o).Listed :=
  h.congr detached_lists.1 detached_lists.2.1 detached_live detached_lists.2.2.ge
    (by rw [detached_nws]; exact h.nws)

theorem Listed.ended (h : s.Listed) : s.ended.Listed := by
  rw [OutputServer.ended]
  split
  · exact h.congr rfl rfl rfl le_rfl h.nws
  · exact h

theorem Listed.destroyed (h : s.Listed) (hd : Destroyed s o s') : s'.Listed := by
  cases hd with
  | replaced hrole hrun =>
    have hnew : ((s.detached o).sceneOutputCreate o).Listed :=
      h.detached.congr rfl rfl rfl (Nat.le_succ _) h.detached.nws
    exact hnew.ended
  | removed hrole c hc =>
    have hrem := (h.detached (o := o)).removed (o := o) (c := c)
    rw [detached_live] at hrem
    exact hrem.ended

theorem Listed.prepared (h : s.Listed) : (s.prepared o config).Listed :=
  h.congr rfl rfl rfl le_rfl h.nws

theorem Listed.configured (h : s.Listed) (hl : s.live o = true)
    (hc : Configured s o config answer s') : s'.Listed := by
  cases hc with
  | destroyed hrole hd hdest =>
    have hrole : (s.withRole o config).Listed := h.congr rfl rfl rfl le_rfl h.nws
    exact hrole.destroyed hdest
  | failed hdest hpos hmode c hc => exact h.prepared.disabledTo hl
  | disabled hstatus hlen c hc =>
    have hdis : ((s.prepared o config).disabledTo o c).Listed := h.prepared.disabledTo hl
    exact hdis.congr rfl rfl rfl le_rfl hdis.nws
  | kept hdest hlen hmode =>
    split
    · have hre : (((s.prepared o config).unlink o).outputInsert o).Listed := h.prepared.reinsert hl
      exact hre.congr rfl rfl rfl le_rfl hre.nws
    · exact h.congr rfl rfl rfl le_rfl h.nws

theorem createWorkspaces_same : (s.createWorkspaces o).outputs = s.outputs ∧
    (s.createWorkspaces o).disabledOutputs = s.disabledOutputs ∧
    (s.createWorkspaces o).live = s.live ∧ (s.createWorkspaces o).top = s.top ∧
    (s.createWorkspaces o).nws = s.nws := by
  rw [createWorkspaces]
  split
  · exact ⟨rfl, rfl, rfl, rfl, rfl⟩
  · exact ⟨rfl, rfl, rfl, rfl, rfl⟩

theorem createWorkspaces_cg_self (h : s.hasSceneOutput o = true) :
    ((s.createWorkspaces o).cg o).Numbered s.nws ∧
      ((s.createWorkspaces o).cg o).currWorkspace = 0 := by
  have hcg : (s.createWorkspaces o).cg o = { s.cg o with
      workspaces := some ((List.range s.nws).map fun i : ℕ => some ⟨i⟩), currWorkspace := 0 } := by
    rw [OutputServer.createWorkspaces, if_pos h]
    exact Function.update_self ..
  rw [hcg]
  exact ⟨rfl, rfl⟩

theorem createWorkspaces_cg_of_ne (h : p ≠ o) : (s.createWorkspaces o).cg p = s.cg p := by
  rw [OutputServer.createWorkspaces]
  split
  · exact Function.update_of_ne h ..
  · exact Function.update_of_ne h ..

/-- Only the workspaces of the output are new. -/
theorem createWorkspaces_field {α : Type} {g : CgOutput → α}
    (hg : ∀ c ws i, g { c with workspaces := ws, currWorkspace := i } = g c) :
    g ((s.createWorkspaces o).cg p) = g (s.cg p) := by
  have hself : ∀ ws i, g (Function.update s.cg o
      { s.cg o with workspaces := ws, currWorkspace := i } p) = g (s.cg p) := by
    intro ws i
    by_cases hpo : p = o
    · subst hpo
      rw [Function.update_self, hg]
    · rw [Function.update_of_ne hpo]
  rw [OutputServer.createWorkspaces]
  split
  · exact hself _ _
  · exact hself _ _

theorem Listed.createWorkspaces (h : s.Listed) : (s.createWorkspaces o).Listed := by
  obtain ⟨hout, hdis, hlive, htop, hnws⟩ := createWorkspaces_same (s := s) (o := o)
  exact h.congr hout hdis hlive htop.ge (by rw [hnws]; exact h.nws)

theorem Listed.reinited (h : s.Listed) : (s.reinited o).Listed :=
  h.congr rfl rfl rfl (Nat.le_succ _) h.nws

/-- **No event loses or duplicates an output.** -/
theorem step_listed (h : s.Listed) : Meets (s.step e) (fun _ => True) Listed := by
  have hlive : ∀ p, p ∈ s.outputs ∨ p ∈ s.disabledOutputs → s.live p = true := fun p hp =>
    (h.live_iff p).mpr hp
  cases e with
  | plug name answer =>
    show Meets (s.handleNewOutput name answer) _ _
    rw [handleNewOutput]
    cases hw : s.waiting name with
    | some o =>
      have hl := hlive o (.inl (waiting_mem hw).1)
      exact (reinitOutput_spec hl).mono (fun _ _ => trivial) fun s' hs' =>
        h.reinited.configured hl hs'
    | none =>
      refine addOutput_spec.mono (fun _ _ => trivial) ?_
      rintro _ ⟨s₁, hs₁, rfl⟩
      exact (h.added.configured added_live_self hs₁).createWorkspaces
  | unplug o =>
    refine Meets.ite (fun hc => ?_) fun _ => Meets.ok h
    have hl : s.live o = true := (Bool.and_eq_true_iff.mp hc).1
    exact (outputDestroy_spec hl).mono (fun _ _ => trivial) fun s' hs' => h.destroyed hs'
  | configure cfg answer =>
    have hrec : (s.recorded cfg).Listed := h.congr rfl rfl rfl le_rfl h.nws
    refine (keybindingConfigureOutput_spec hlive).mono (fun _ _ => trivial) ?_
    rintro s' (⟨-, rfl⟩ | ⟨o, ho, hs'⟩)
    · exact hrec
    · exact hrec.configured (hlive o (named_mem ho).1) hs'
  | workspaces nws =>
    refine (keybindingSetNws_spec nws.2.1 h.outputs fun p hp => hlive p (.inl hp)).mono
      (fun _ _ => trivial) ?_
    rintro _ ⟨cg, -, rfl⟩
    exact h.congr rfl rfl rfl le_rfl nws.2.1
  | cycleOutputs reverse =>
    refine (keybindingCycleOutputs_spec reverse).mono (fun _ _ => trivial) ?_
    rintro _ ⟨c, -, rfl⟩
    exact h.congr rfl rfl rfl le_rfl h.nws
  | switchOutput output =>
    refine (keybindingSwitchOutput_spec output).mono (fun _ _ => trivial) ?_
    rintro _ (rfl | ⟨c, -, rfl⟩)
    · exact h
    · exact h.congr rfl rfl rfl le_rfl h.nws
  | switchWs ws =>
    refine (keybindingSwitchWs_spec ws).mono (fun _ _ => trivial) ?_
    rintro _ (rfl | ⟨-, o, -, rfl⟩)
    · exact h
    · exact h.congr rfl rfl rfl le_rfl h.nws
  | quit => exact Meets.ok (h.congr rfl rfl rfl le_rfl h.nws)

theorem init_listed (prios : List (Text × ℤ)) : (init prios).Listed where
  outputs := List.nodup_nil
  disabled := List.nodup_nil
  disjoint _ ho := absurd ho List.not_mem_nil
  live_iff o := by simp [init]
  fresh o ho := by simp [init] at ho
  nws := le_rfl

/-! ### The current output -/

/-- While the server is running its current output is an enabled one, unless
there has not been any output yet. -/
def Attended (s : OutputServer) : Prop :=
  s.running = true → s.terminated = false →
    s.outputs = [] ∧ s.disabledOutputs = [] ∧ s.currOutput = none ∨
      ∃ c ∈ s.outputs, s.currOutput = some c

/-- The configuration is refused by the backend. -/
def Fails (s : OutputServer) (o : ℕ) (config : OutputConfig) (answer : OutputAnswer) : Prop :=
  ¬ (config.role = .peripheral ∧ (s.cg o).destroyed = true) ∧ config.pos.x ≠ -1 ∧
    answer.modeSet = false

instance {config : OutputConfig} {answer : OutputAnswer} : Decidable (s.Fails o config answer) :=
  inferInstanceAs (Decidable (¬ _ ∧ _ ∧ _))

/-- Clearing an output leaves an enabled current output if one is left. -/
theorem Attended.clear (h : s.Attended) (hs : s.Listed) (hc : s.CurrAfter o c)
    (hrun : s.running = true) (hterm : s.terminated = false) (hl : s.live o = true)
    (hlen : o ∈ s.outputs → 1 < s.outputs.length) : ∃ p ∈ s.outputs.erase o, c = some p := by
  obtain ⟨hout, hdis, -⟩ | ⟨p, hp, hcurr⟩ := h hrun hterm
  · have ho := (hs.live_iff o).mp hl
    rw [hout, hdis] at ho
    simp at ho
  by_cases hturn : s.Turns o
  · obtain ⟨q, rfl, hq⟩ := hc.turned hturn
    have hpo : p = o := Option.some.inj (hcurr.symm.trans hturn.2.1)
    rw [hpo] at hp
    exact ⟨q, hs.outputs.mem_erase_iff.mpr ⟨hq.ne o hturn.2.1 hp hs.outputs hturn.2.2,
      hq.mem o hturn.2.1 hp⟩, rfl⟩
  · refine ⟨p, hs.outputs.mem_erase_iff.mpr ⟨?_, hp⟩, (hc.kept hturn).trans hcurr⟩
    rintro rfl
    exact hturn ⟨hrun, hcurr, hlen hp⟩

theorem Attended.congr (h : s.Attended) (hout : s'.outputs = s.outputs)
    (hdis : s'.disabledOutputs = s.disabledOutputs) (hcurr : s'.currOutput = s.currOutput)
    (hrun : s'.running = s.running) (hterm : s'.terminated = s.terminated) : s'.Attended := by
  rw [Attended, hout, hdis, hcurr, hrun, hterm]
  exact h

theorem Attended.ended (h : s.Attended) : s.ended.Attended := by
  rw [OutputServer.ended]
  split
  · exact fun _ hterm => nomatch hterm
  · exact h

theorem detached_status : (s.detached o).currOutput = s.currOutput ∧
    (s.detached o).running = s.running ∧ (s.detached o).terminated = s.terminated := by
  rw [detached]
  split
  · exact ⟨rfl, rfl, rfl⟩
  · exact ⟨rfl, rfl, rfl⟩

theorem Attended.detached (h : s.Attended) : (s.detached o).Attended :=
  h.congr detached_lists.1 detached_lists.2.1 detached_status.1 detached_status.2.1
    detached_status.2.2

theorem Attended.destroyed (h : s.Attended) (hs : s.Listed) (hl : s.live o = true)
    (hd : Destroyed s o s') : s'.Attended := by
  cases hd with
  | replaced hrole hrun =>
    have hnew : ((s.detached o).sceneOutputCreate o).Attended :=
      h.detached.congr rfl rfl rfl rfl rfl
    exact hnew.ended
  | removed hrole c hc =>
    intro hrun hterm
    rw [OutputServer.ended] at hrun hterm ⊢
    split at hterm
    · cases hterm
    · next hmore =>
      rw [if_neg hmore] at hrun ⊢
      -- the display goes on, so that another output is enabled
      have hne : (s.detached o).outputs.erase o ≠ [] := fun hnil => hmore ⟨hnil, hrun⟩
      refine .inr (h.detached.clear hs.detached hc hrun hterm ?_ fun ho => ?_)
      · rw [detached_live, hl]
      · have hlen := List.length_erase_of_mem ho
        have hpos := List.length_pos_iff.mpr hne
        omega

theorem Attended.disabledTo (h : s.Attended) (hs : s.Listed) (hl : s.live o = true)
    (hc : s.CurrAfter o c) (hlen : o ∈ s.outputs → 1 < s.outputs.length) :
    (s.disabledTo o c).Attended :=
  fun hrun hterm => .inr (h.clear hs hc hrun hterm hl hlen)

theorem Attended.configured (h : s.Attended) (hs : s.Listed) (hl : s.live o = true)
    (hfails : o ∈ s.outputs → s.Fails o config answer → 1 < s.outputs.length)
    (hc : Configured s o config answer s') : s'.Attended := by
  have hprep : (s.prepared o config).Attended := h.congr rfl rfl rfl rfl rfl
  cases hc with
  | destroyed hrole hd hdest =>
    have hrole : (s.withRole o config).Attended := h.congr rfl rfl rfl rfl rfl
    have hsrole : (s.withRole o config).Listed := hs.congr rfl rfl rfl le_rfl hs.nws
    exact hrole.destroyed hsrole hl hdest
  | failed hdest hpos hmode c hc =>
    exact hprep.disabledTo hs.prepared hl hc fun ho => hfails ho ⟨hdest, hpos, hmode⟩
  | disabled hstatus hlen c hc =>
    have hdis := hprep.disabledTo hs.prepared hl hc fun _ => hlen
    exact hdis.congr rfl rfl rfl rfl rfl
  | kept hdest hlen hmode =>
    split
    · intro hrun hterm
      obtain ⟨hout, hdis, -⟩ | ⟨p, hp, hcurr⟩ := h hrun hterm
      · have ho := (hs.live_iff o).mp hl
        rw [hout, hdis] at ho
        simp at ho
      · refine .inr ⟨p, outputInsert_perm.mem_iff.mpr (List.mem_cons.mpr ?_), hcurr⟩
        by_cases hpo : p = o
        · exact .inl hpo
        · exact .inr (hs.outputs.mem_erase_iff.mpr ⟨hpo, hp⟩)
    · exact h.congr rfl rfl rfl rfl rfl

/-- Configuring an output that has a monitor leaves everything else in place. -/
theorem configured_same (hdest : (s.cg o).destroyed = false)
    (hc : Configured s o config answer s') :
    s'.live = s.live ∧ s'.running = s.running ∧ s'.terminated = s.terminated := by
  cases hc with
  | destroyed hrole hd hdest' =>
    rw [hdest] at hd
    cases hd
  | failed hdest' hpos hmode c hc => exact ⟨rfl, rfl, rfl⟩
  | disabled hstatus hlen c hc => exact ⟨rfl, rfl, rfl⟩
  | kept hdest hlen hmode =>
    split
    · exact ⟨rfl, rfl, rfl⟩
    · exact ⟨rfl, rfl, rfl⟩

theorem createWorkspaces_currOutput : (s.createWorkspaces o).currOutput =
    if s.hasSceneOutput o then s.currOutput.or (some o) else s.currOutput := by
  rw [createWorkspaces]
  split
  · rfl
  · rfl

theorem hasSceneOutput_renewBackground :
    (s.renewBackground o).hasSceneOutput p = s.hasSceneOutput p := by
  by_cases h : p = o
  · subst h
    rw [hasSceneOutput, renewBackground, modify_cg_self]
    rfl
  · rw [hasSceneOutput, renewBackground, modify_cg_of_ne h]
    rfl

/-- A new output that is neither refused nor disabled is shown. -/
theorem hasSceneOutput_added (htorn : ¬ (s.added name).Torn s.top config answer)
    (hc : Configured (s.added name) s.top config answer s') : s'.hasSceneOutput s.top = true := by
  have hprep : ((s.added name).prepared s.top config).hasSceneOutput s.top = true := by
    rw [hasSceneOutput, prepared_sceneOutput, added_cg_self]
    exact Function.update_self ..
  cases hc with
  | destroyed hrole hd hdest => exact absurd (.inl ⟨hrole, hd⟩) htorn
  | failed hdest hpos hmode c hc => exact absurd (.inr (.inl ⟨hpos, hmode⟩)) htorn
  | disabled hstatus hlen c hc => exact absurd (.inr (.inr ⟨hstatus, hlen⟩)) htorn
  | kept hdest hlen hmode =>
    rw [hasSceneOutput_renewBackground]
    split
    · exact hprep
    · exact hprep

/-- While the server is running, a new output that is cleared stops it. -/
theorem not_fails_added (hs : s.Listed) (hrun : s.running = true)
    (hc : Configured (s.added name) s.top config answer s') :
    ¬ (s.added name).Torn s.top config answer := by
  have hnone : (((s.added name).prepared s.top config).cg s.top).workspaces = none := by
    rw [prepared, modify_cg_self, withRole, modify_cg_self, added_cg_self]
    rfl
  have hnew : ((s.added name).cg s.top).destroyed = false := by
    rw [added_cg_self]
    rfl
  cases hc with
  | destroyed hrole hd hdest =>
    rw [hnew] at hd
    cases hd
  | failed hdest hpos hmode c hc => exact absurd hnone (hc.array hrun hs.nws)
  | disabled hstatus hlen c hc => exact absurd hnone (hc.array hrun hs.nws)
  | kept hdest hlen hmode =>
    rintro (⟨-, hd⟩ | hrefused | hdis)
    · rw [hnew] at hd
      cases hd
    · exact hmode hrefused
    · exact hlen hdis

theorem configured_kept (htorn : ¬ s.Torn o config answer)
    (hc : Configured s o config answer s') :
    s'.currOutput = s.currOutput ∧ (o ∈ s.outputs → o ∈ s'.outputs) := by
  cases hc with
  | destroyed hrole hd hdest => exact absurd (.inl ⟨hrole, hd⟩) htorn
  | failed hdest hpos hmode c hc => exact absurd (.inr (.inl ⟨hpos, hmode⟩)) htorn
  | disabled hstatus hlen c hc => exact absurd (.inr (.inr ⟨hstatus, hlen⟩)) htorn
  | kept hdest hlen hmode =>
    split
    · exact ⟨rfl, fun _ => outputInsert_perm.mem_iff.mpr List.mem_cons_self⟩
    · exact ⟨rfl, id⟩

/-- An output that is created for the first monitor becomes the current one. -/
theorem added_first (hs : s.Listed) (hcurr : s.currOutput = none) (hrun : s.running = true)
    (hc : Configured (s.added name) s.top config answer s') :
    s.top ∈ s'.outputs ∧ (s'.createWorkspaces s.top).currOutput = some s.top := by
  have hperm : (s.added name).outputs.Perm (s.top :: s.outputs) := outputInsert_perm
  have htorn := not_fails_added hs hrun hc
  obtain ⟨hcurr', hmem⟩ := configured_kept htorn hc
  refine ⟨hmem (hperm.mem_iff.mpr List.mem_cons_self), ?_⟩
  have hnone : s'.currOutput = none := hcurr'.trans hcurr
  rw [createWorkspaces_currOutput, if_pos (hasSceneOutput_added htorn hc), hnone]
  rfl

theorem Attended.added (h : s.Attended) (hs : s.Listed)
    (hc : Configured (s.added name) s.top config answer s') :
    (s'.createWorkspaces s.top).Attended := by
  have hnew : ((s.added name).cg s.top).destroyed = false := by
    rw [added_cg_self]
    rfl
  have hperm : (s.added name).outputs.Perm (s.top :: s.outputs) := outputInsert_perm
  obtain ⟨hlive, hrun', hterm'⟩ := configured_same hnew hc
  obtain ⟨hout', hdis', -, -, -⟩ := createWorkspaces_same (s := s') (o := s.top)
  have hstatus : (s'.createWorkspaces s.top).running = s.running ∧
      (s'.createWorkspaces s.top).terminated = s.terminated := by
    rw [createWorkspaces]
    split
    · exact ⟨hrun', hterm'⟩
    · exact ⟨hrun', hterm'⟩
  intro hrun hterm
  rw [hstatus.1] at hrun
  rw [hstatus.2] at hterm
  rw [hout', hdis']
  obtain ⟨hout, hdis, hcurr⟩ | ⟨p, hp, hcurr⟩ := h hrun hterm
  · obtain ⟨hmem, hcurr'⟩ := added_first hs hcurr hrun hc
    exact .inr ⟨s.top, hmem, hcurr'⟩
  · have hadded : (s.added name).Attended := fun _ _ =>
      .inr ⟨p, hperm.mem_iff.mpr (List.mem_cons_of_mem _ hp), hcurr⟩
    have hlen : 1 < (s.added name).outputs.length := by
      rw [hperm.length_eq, List.length_cons]
      exact Nat.succ_lt_succ (List.length_pos_of_mem hp)
    have hs' := hs.added.configured added_live_self hc
    obtain ⟨hnil, hnil', -⟩ | ⟨q, hq, hcurr'⟩ :=
      hadded.configured hs.added added_live_self (fun _ _ => hlen) hc (hrun'.trans hrun)
        (hterm'.trans hterm)
    · have htop := (hs'.live_iff s.top).mp (by rw [hlive]; exact added_live_self)
      rw [hnil, hnil'] at htop
      simp at htop
    · refine .inr ⟨q, hq, ?_⟩
      rw [createWorkspaces_currOutput, hcurr']
      split
      · rfl
      · rfl

/-- No mode is refused for the only enabled output. -/
def ModesAccepted (s : OutputServer) : OutputEvent → Prop
  | .configure cfg answer => ∀ o, s.named cfg.outputName = some o → o ∈ s.outputs →
    (s.recorded cfg).Fails o ((s.recorded cfg).effective o) answer → 1 < s.outputs.length
  | .plug name answer => ∀ o, s.waiting name = some o →
    (s.reinited o).Fails o (s.effective o) answer → 1 < s.outputs.length
  | _ => True

instance : Decidable (s.ModesAccepted e) :=
  match e with
  | .configure cfg answer => inferInstanceAs (Decidable (∀ o ∈ s.named cfg.outputName,
      o ∈ s.outputs → (s.recorded cfg).Fails o ((s.recorded cfg).effective o) answer →
        1 < s.outputs.length))
  | .plug name answer => inferInstanceAs (Decidable (∀ o ∈ s.waiting name,
      (s.reinited o).Fails o (s.effective o) answer → 1 < s.outputs.length))
  | .unplug _ | .workspaces _ | .cycleOutputs _ | .switchOutput _ | .switchWs _ | .quit =>
    isTrue trivial

theorem step_attended (h : s.Attended) (hs : s.Listed) (hok : s.ModesAccepted e) :
    Meets (s.step e) (fun _ => True) Attended := by
  have hlive : ∀ p, p ∈ s.outputs ∨ p ∈ s.disabledOutputs → s.live p = true := fun p hp =>
    (hs.live_iff p).mpr hp
  cases e with
  | plug name answer =>
    show Meets (s.handleNewOutput name answer) _ _
    rw [handleNewOutput]
    cases hw : s.waiting name with
    | some o =>
      have hl := hlive o (.inl (waiting_mem hw).1)
      have hre : (s.reinited o).Attended := h.congr rfl rfl rfl rfl rfl
      exact (reinitOutput_spec hl).mono (fun _ _ => trivial) fun s' hs' =>
        hre.configured hs.reinited hl (fun _ hf => hok o hw hf) hs'
    | none =>
      refine addOutput_spec.mono (fun _ _ => trivial) ?_
      rintro _ ⟨s₁, hs₁, rfl⟩
      exact h.added hs hs₁
  | unplug o =>
    refine Meets.ite (fun hc => ?_) fun _ => Meets.ok h
    have hl : s.live o = true := (Bool.and_eq_true_iff.mp hc).1
    exact (outputDestroy_spec hl).mono (fun _ _ => trivial) fun s' hs' => h.destroyed hs hl hs'
  | configure cfg answer =>
    have hrec : (s.recorded cfg).Attended := h.congr rfl rfl rfl rfl rfl
    have hsrec : (s.recorded cfg).Listed := hs.congr rfl rfl rfl le_rfl hs.nws
    refine (keybindingConfigureOutput_spec hlive).mono (fun _ _ => trivial) ?_
    rintro s' (⟨-, rfl⟩ | ⟨o, ho, hs'⟩)
    · exact hrec
    · exact hrec.configured hsrec (hlive o (named_mem ho).1) (hok o ho) hs'
  | workspaces nws =>
    refine (keybindingSetNws_spec nws.2.1 hs.outputs fun p hp => hlive p (.inl hp)).mono
      (fun _ _ => trivial) ?_
    rintro _ ⟨cg, -, rfl⟩
    exact h
  | cycleOutputs reverse =>
    refine (keybindingCycleOutputs_spec reverse).mono (fun _ _ => trivial) ?_
    rintro _ ⟨c, hc, rfl⟩
    intro hrun hterm
    obtain ⟨hout, hdis, -⟩ | ⟨p, hp, hcurr⟩ := h hrun hterm
    -- an output is left to turn to, so that not both lists are empty
    · have hknown := hc.known
      rw [hout, hdis] at hknown
      simp at hknown
    · exact .inr ⟨c, hc.mem p hcurr hp, rfl⟩
  | switchOutput output =>
    refine (keybindingSwitchOutput_spec output).mono (fun _ _ => trivial) ?_
    rintro _ (rfl | ⟨c, hc, rfl⟩)
    · exact h
    · exact fun _ _ => .inr ⟨c, hc, rfl⟩
  | switchWs ws =>
    refine (keybindingSwitchWs_spec ws).mono (fun _ _ => trivial) ?_
    rintro _ (rfl | ⟨-, o, -, rfl⟩)
    · exact h
    · exact h.congr rfl rfl rfl rfl rfl
  | quit => exact Meets.ok fun hrun => nomatch hrun

/-- Whatever the backend is asked, it agrees. -/
def agrees : OutputAnswer := ⟨true, false, false⟩

/-- A mode for output A, and `output B disable`. -/
def modeForA : OutputConfig :=
  { emptyOutputConfig with outputName := some (ascii "A"), pos := ⟨0, 0, 1, 1⟩ }

def hideB : OutputConfig :=
  { emptyOutputConfig with outputName := some (ascii "B"), status := .disable }

/-- Two monitors, a mode for the first of them that the backend accepts, and
`output B disable`. -/
def twoMonitors : List OutputEvent :=
  [.plug (ascii "A") agrees, .plug (ascii "B") agrees, .configure modeForA agrees,
    .configure hideB agrees]

/-- One monitor, and a position for it with a mode that the backend refuses. -/
def refusedMode : List OutputEvent :=
  [.plug (ascii "A") agrees,
    .configure { emptyOutputConfig with outputName := some (ascii "A"), pos := ⟨0, 0, 1, 1⟩ }
      ⟨false, false, false⟩]

end OutputServer

end Cagebreak
