/-
The names of the outputs.

The backend gives no two monitors the same name.  When a monitor comes back whose
output is permanent, `handle_new_output` should find the output that has waited for
it, but it looks for it among the enabled outputs only.

* `outputs_distinct` — the outputs in use have different names, until a monitor comes
  back whose output has been disabled in the meantime;
* `replug_reuses` — a permanent output that is left alone while its monitor is away
  gets it back, and has the workspaces it had.
-/
import Cagebreak.OutputArrays
import Cagebreak.OutputEnabled

namespace Cagebreak

open Outcome

namespace OutputServer

variable {s s' t : OutputServer} {o p : ℕ} {config : OutputConfig} {answer : OutputAnswer}
  {name : Text} {e : OutputEvent}

/-- The outputs in use have different names. -/
def Distinct (s : OutputServer) : Prop :=
  ∀ o p, s.live o = true → s.live p = true → (s.cg o).name = (s.cg p).name → o = p

/-- What the backend promises: a new monitor does not have the name of one that is there. -/
def Promised (s : OutputServer) : OutputEvent → Prop
  | .plug name _ => ∀ o ∈ s.outputs ++ s.disabledOutputs, s.connected o = true →
    (s.cg o).name ≠ name
  | _ => True

/-- The output of the monitor that comes back is disabled. -/
def Doubles (s : OutputServer) : OutputEvent → Prop
  | .plug name _ => ∃ o ∈ s.disabledOutputs, (s.cg o).name = name
  | _ => False

instance : Decidable (s.Promised e) :=
  match e with
  | .plug name _ => inferInstanceAs (Decidable (∀ o ∈ s.outputs ++ s.disabledOutputs,
      s.connected o = true → (s.cg o).name ≠ name))
  | .unplug _ | .configure _ _ | .workspaces _ | .cycleOutputs _ | .switchOutput _
  | .switchWs _ | .quit => .isTrue trivial

instance : Decidable (s.Doubles e) :=
  match e with
  | .plug name _ => inferInstanceAs (Decidable (∃ o ∈ s.disabledOutputs, (s.cg o).name = name))
  | .unplug _ | .configure _ _ | .workspaces _ | .cycleOutputs _ | .switchOutput _
  | .switchWs _ | .quit => .isFalse id

/-! ### Different names -/

/-- Only an output in use is changed, and keeps its name. -/
theorem Distinct.alter (h : s.Distinct) (ha : Alters s s' o) (hl : s.live o = true)
    (hname : (s'.cg o).name = (s.cg o).name) : s'.Distinct := by
  have hlive : ∀ p, s'.live p = true → s.live p = true := by
    intro p hp
    by_cases hpo : p = o
    · rw [hpo]
      exact hl
    · exact ha.live p hpo hp
  have hnames : ∀ p, (s'.cg p).name = (s.cg p).name := by
    intro p
    by_cases hpo : p = o
    · rw [hpo]
      exact hname
    · rw [ha.cg p hpo]
  intro q p hq hp hqp
  rw [hnames, hnames] at hqp
  exact h q p (hlive q hq) (hlive p hp) hqp

theorem Distinct.congr (h : s.Distinct) (hlive : s'.live = s.live)
    (hname : ∀ p, (s'.cg p).name = (s.cg p).name) : s'.Distinct := by
  intro q p hq hp hqp
  rw [hlive] at hq hp
  rw [hname, hname] at hqp
  exact h q p hq hp hqp

/-- A new output with a name of its own. -/
theorem Distinct.added (h : s.Distinct) (hfresh : ∀ o, s.live o = true → (s.cg o).name ≠ name) :
    (s.added name).Distinct := by
  have hself : ((s.added name).cg s.top).name = name := by
    rw [added_cg_self]
    rfl
  have hold : ∀ p, p ≠ s.top → (s.added name).live p = true →
      s.live p = true ∧ ((s.added name).cg p).name = (s.cg p).name := by
    intro p hp hl
    rw [added_live_of_ne hp] at hl
    rw [added_cg_of_ne hp]
    exact ⟨hl, rfl⟩
  intro q p hq hp hqp
  by_cases hqt : q = s.top
  · by_cases hpt : p = s.top
    · rw [hqt, hpt]
    · obtain ⟨hl, hn⟩ := hold p hpt hp
      rw [hqt, hself, hn] at hqp
      exact absurd hqp.symm (hfresh p hl)
  · obtain ⟨hl, hn⟩ := hold q hqt hq
    by_cases hpt : p = s.top
    · rw [hpt, hself, hn] at hqp
      exact absurd hqp (hfresh q hl)
    · obtain ⟨hl', hn'⟩ := hold p hpt hp
      rw [hn, hn'] at hqp
      exact h q p hl hl' hqp

/-- An output of this name waits, or is disabled, or there is none. -/
theorem waiting_or_disabled (hs : s.Listed) (hp : s.Promised (.plug name answer))
    (hw : s.waiting name = none) (hl : s.live o = true) (hname : (s.cg o).name = name) :
    o ∈ s.disabledOutputs := by
  refine ((hs.live_iff o).mp hl).resolve_left fun hout => ?_
  have hdest : (s.cg o).destroyed = true := by
    by_contra hd
    rw [Bool.not_eq_true] at hd
    exact hp o (List.mem_append_left _ hout) (by simp [connected, hl, hd]) hname
  rw [waiting, List.getLast?_eq_none_iff] at hw
  have hmem : o ∈ s.outputs.filter fun o => decide ((s.cg o).name = name) && (s.cg o).destroyed :=
    List.mem_filter.mpr ⟨hout, by simp [hname, hdest]⟩
  rw [hw] at hmem
  exact absurd hmem List.not_mem_nil

theorem reinited_name : ((s.reinited o).cg p).name = (s.cg p).name := by
  by_cases hpo : p = o
  · rw [hpo, reinited_cg_self]
  · rw [reinited_cg_of_ne hpo]

/-- A monitor comes back. -/
theorem plug_distinct (h : s.Distinct) (hs : s.Listed) (hp : s.Promised (.plug name answer)) :
    Meets (s.handleNewOutput name answer) (fun _ => True) fun s' =>
      (s'.Distinct ↔ ¬ s.Doubles (.plug name answer)) := by
  rw [handleNewOutput]
  cases hw : s.waiting name with
  | some o =>
    obtain ⟨ho, hname, -⟩ := waiting_mem hw
    have hl : s.live o = true := (hs.live_iff o).mpr (.inl ho)
    refine (reinitOutput_spec hl).mono (fun _ _ => trivial) fun s' hs' => ?_
    have hre : (s.reinited o).Distinct := h.congr rfl fun _ => reinited_name
    refine ⟨fun _ => ?_, fun _ => hre.alter (hs'.alters hs.reinited) hl hs'.same_name⟩
    rintro ⟨p, hdis, hpname⟩
    have hpo := h p o ((hs.live_iff p).mpr (.inr hdis)) hl (hpname.trans hname.symm)
    rw [hpo] at hdis
    exact hs.disjoint o ho hdis
  | none =>
    refine addOutput_spec.mono (fun _ _ => trivial) ?_
    rintro _ ⟨s₁, hs₁, rfl⟩
    have halters := hs₁.alters hs.added
    have hcreate : ∀ q, ((s₁.createWorkspaces s.top).cg q).name = (s₁.cg q).name := fun q =>
      createWorkspaces_field fun _ _ _ => rfl
    have hclive : (s₁.createWorkspaces s.top).live = s₁.live := createWorkspaces_same.2.2.1
    have hnew : (s₁.cg s.top).name = name := by
      rw [hs₁.same_name, added_cg_self]
      rfl
    constructor
    · rintro hd ⟨p, hdis, hpname⟩
      have hne : p ≠ s.top := (hs.fresh p ((hs.live_iff p).mpr (.inr hdis))).ne
      -- the old output is still disabled, and the new one is in use
      have hold : s₁.live p = true := ((hs.added.configured added_live_self hs₁).live_iff p).mpr
        (.inr ((halters.disabled p hne).mpr hdis))
      have htop : s₁.live s.top = true := by
        have hfield : ((s.added name).cg s.top).destroyed = false := by
          rw [added_cg_self]
          rfl
        rw [(configured_same hfield hs₁).1]
        exact added_live_self
      refine hne (hd p s.top (hclive ▸ hold) (hclive ▸ htop) ?_)
      rw [hcreate, hcreate, hnew, halters.cg p hne, added_cg_of_ne hne, hpname]
    · intro hno
      have hadd : (s.added name).Distinct := by
        refine h.added fun q hq hqname => hno ⟨q, ?_, hqname⟩
        exact waiting_or_disabled hs hp hw hq hqname
      exact (hadd.alter halters added_live_self hs₁.same_name).congr hclive hcreate

/-- **The step lemma.** -/
theorem step_distinct (h : s.Distinct) (hs : s.Listed) (hp : s.Promised e) :
    Meets (s.step e) (fun _ => True) fun s' => (s'.Distinct ↔ ¬ s.Doubles e) := by
  have hlive : ∀ p, p ∈ s.outputs ∨ p ∈ s.disabledOutputs → s.live p = true := fun p hp =>
    (hs.live_iff p).mpr hp
  have hiff : ∀ {t : OutputServer}, ¬ s.Doubles e → t.Distinct → (t.Distinct ↔ ¬ s.Doubles e) :=
    fun hno ht => ⟨fun _ => hno, fun _ => ht⟩
  cases e with
  | plug name answer => exact plug_distinct h hs hp
  | unplug o =>
    refine Meets.ite (fun hc => ?_) fun _ => Meets.ok (hiff id h)
    have hl : s.live o = true := (Bool.and_eq_true_iff.mp hc).1
    refine (outputDestroy_spec hl).mono (fun _ _ => trivial) fun s' hs' => hiff id ?_
    exact h.alter (hs'.alters hs) hl hs'.same_name
  | configure cfg answer =>
    have hsrec : (s.recorded cfg).Listed := hs.congr rfl rfl rfl le_rfl hs.nws
    refine (keybindingConfigureOutput_spec hlive).mono (fun _ _ => trivial) ?_
    rintro s' (⟨hnone, rfl⟩ | ⟨o, ho, hs'⟩)
    · exact hiff id (h.congr rfl fun _ => rfl)
    · have hrec : (s.recorded cfg).Distinct := h.congr rfl fun _ => rfl
      exact hiff id (hrec.alter (hs'.alters hsrec) (hlive o (named_mem ho).1) hs'.same_name)
  | workspaces nws =>
    refine (keybindingSetNws_spec nws.2.1 hs.outputs fun p hp => hlive p (.inl hp)).mono
      (fun _ _ => trivial) ?_
    rintro _ ⟨cg, hcg, rfl⟩
    exact hiff id (h.congr rfl fun p => (hcg.same p).name)
  | cycleOutputs reverse =>
    refine (keybindingCycleOutputs_spec reverse).mono (fun _ _ => trivial) ?_
    rintro _ ⟨c, -, rfl⟩
    exact hiff id (h.congr rfl fun _ => rfl)
  | switchOutput output =>
    refine (keybindingSwitchOutput_spec output).mono (fun _ _ => trivial) ?_
    rintro _ (rfl | ⟨c, -, rfl⟩)
    · exact hiff id h
    · exact hiff id (h.congr rfl fun _ => rfl)
  | switchWs ws =>
    refine (keybindingSwitchWs_spec ws).mono (fun _ _ => trivial) ?_
    rintro _ (rfl | ⟨-, o, -, rfl⟩)
    · exact hiff id h
    · refine hiff id (h.congr rfl fun p => ?_)
      by_cases hpo : p = o
      · rw [hpo, modify_cg_self]
      · rw [modify_cg_of_ne hpo]
  | quit => exact Meets.ok (hiff id (h.congr rfl fun _ => rfl))

/-- What holds in all runs that double no output. -/
theorem distinct_of_runs {prios : List (Text × ℤ)}
    (hs : Runs step (fun s e => s.Promised e ∧ ¬ s.Doubles e) (init prios) s) :
    s.Distinct ∧ s.Listed := by
  refine hs.invariant (E := fun _ => True) (I := fun s => s.Distinct ∧ s.Listed)
    ⟨fun o p ho => by simp [init] at ho, init_listed prios⟩ ?_
  rintro t e ⟨h, hl⟩ ⟨hp, hno⟩
  have hd := step_distinct h hl hp
  have hlisted := step_listed (e := e) hl
  cases hstep : t.step e with
  | error err => trivial
  | ok t' => exact ⟨(hd.of_ok hstep).mpr hno, hlisted.of_ok hstep⟩

/-- **Names.**  As long as no monitor comes back whose output is disabled, the outputs in use
have different names; and the first time that one comes back, there are two of its name. -/
theorem outputs_distinct {prios : List (Text × ℤ)}
    (hs : Runs step (fun s e => s.Promised e ∧ ¬ s.Doubles e) (init prios) s) :
    s.Distinct ∧ ∀ e s', s.Promised e → s.step e = .ok s' → (s'.Distinct ↔ ¬ s.Doubles e) := by
  obtain ⟨h, hl⟩ := distinct_of_runs hs
  exact ⟨h, fun e s' hp hstep => (step_distinct h hl hp).of_ok hstep⟩

/-- Output B is permanent, and disabled and enabled while its monitor is away. -/
def disabledAway : List OutputEvent :=
  [.plug (ascii "A") agrees,
    .configure { emptyOutputConfig with outputName := some (ascii "B"), role := .permanent } agrees,
    .plug (ascii "B") agrees,
    .unplug 2,
    .configure { emptyOutputConfig with outputName := some (ascii "B"), status := .disable } agrees,
    .configure { emptyOutputConfig with outputName := some (ascii "B"), status := .enable } agrees]

/-- Its monitor comes back. -/
theorem outputs_distinct_doubled : ∃ s s' : OutputServer, s.Distinct ∧
    s.step (.plug (ascii "B") agrees) = .ok s' ∧ ¬ s'.Distinct := by
  have hcheck : checked step (fun s e => s.Promised e ∧ ¬ s.Doubles e) (fun s =>
      decide (s.Promised (.plug (ascii "B") agrees)) &&
      decide (s.Doubles (.plug (ascii "B") agrees)) &&
      returns (s.step (.plug (ascii "B") agrees)) fun _ => true) (init []) disabledAway = true := by
    decide
  obtain ⟨s, hs, htest⟩ := exists_of_checked hcheck
  simp only [Bool.and_eq_true, decide_eq_true_eq] at htest
  obtain ⟨s', hs', -⟩ := exists_of_returns htest.2
  obtain ⟨h, hiff⟩ := outputs_distinct hs
  refine ⟨s, s', h, hs', fun hd => ?_⟩
  exact (hiff _ s' htest.1.1 hs').mp hd htest.1.2

/-! ### Monitors that come back -/

/-- The event is not about the output, which has lost its monitor. -/
def Leaves (s : OutputServer) (o : ℕ) : OutputEvent → Prop
  | .plug name _ => (s.cg o).name ≠ name
  | .configure cfg _ => cfg.outputName ≠ some (s.cg o).name
  | .workspaces _ => False
  | .switchWs _ => s.currOutput ≠ some o
  | _ => True

/-- The output waits for its monitor, and has what `c` has. -/
structure Away (s : OutputServer) (o : ℕ) (c : CgOutput) : Prop where
  enabled : o ∈ s.outputs
  destroyed : (s.cg o).destroyed = true
  name : (s.cg o).name = c.name
  workspaces : (s.cg o).workspaces = c.workspaces
  currWorkspace : (s.cg o).currWorkspace = c.currWorkspace

theorem Away.congr {c : CgOutput} (h : s.Away o c) (hout : o ∈ s'.outputs)
    (hcg : s'.cg o = s.cg o) : s'.Away o c := by
  refine ⟨hout, ?_, ?_, ?_, ?_⟩
  · rw [hcg]
    exact h.destroyed
  · rw [hcg]
    exact h.name
  · rw [hcg]
    exact h.workspaces
  · rw [hcg]
    exact h.currWorkspace

/-- What is done to another output. -/
theorem Away.alter {c : CgOutput} (h : s.Away o c) (ha : Alters s s' p) (hp : o ≠ p) :
    s'.Away o c :=
  h.congr ((ha.outputs o hp).mpr h.enabled) (ha.cg o hp)

/-- **The step lemma.** -/
theorem step_away {c : CgOutput} (h : s.Away o c) (hs : s.Listed) (hleave : s.Leaves o e) :
    Meets (s.step e) (fun _ => True) (·.Away o c) := by
  have hlive : ∀ p, p ∈ s.outputs ∨ p ∈ s.disabledOutputs → s.live p = true := fun p hp =>
    (hs.live_iff p).mpr hp
  cases e with
  | plug name answer =>
    show Meets (s.handleNewOutput name answer) _ _
    rw [handleNewOutput]
    cases hw : s.waiting name with
    | some q =>
      obtain ⟨hq, hname, -⟩ := waiting_mem hw
      -- the output that comes back has another name
      have hne : o ≠ q := by
        rintro rfl
        exact hleave hname
      refine (reinitOutput_spec (hlive q (.inl hq))).mono (fun _ _ => trivial) fun s' hs' => ?_
      have hre : (s.reinited q).Away o c := h.congr h.enabled (reinited_cg_of_ne hne)
      exact hre.alter (hs'.alters hs.reinited) hne
    | none =>
      have hne : o ≠ s.top := (hs.fresh o (hlive o (.inl h.enabled))).ne
      refine addOutput_spec.mono (fun _ _ => trivial) ?_
      rintro _ ⟨s₁, hs₁, rfl⟩
      exact ((h.alter alters_added hne).alter (hs₁.alters hs.added) hne).alter
        alters_createWorkspaces hne
  | unplug q =>
    refine Meets.ite (fun hc => ?_) fun _ => Meets.ok h
    have hne : o ≠ q := by
      rintro rfl
      simp [connected, h.destroyed] at hc
    have hl : s.live q = true := (Bool.and_eq_true_iff.mp hc).1
    exact (outputDestroy_spec hl).mono (fun _ _ => trivial) fun s' hs' =>
      h.alter (hs'.alters hs) hne
  | configure cfg answer =>
    have hsrec : (s.recorded cfg).Listed := hs.congr rfl rfl rfl le_rfl hs.nws
    have hrec : (s.recorded cfg).Away o c := h.congr h.enabled rfl
    refine (keybindingConfigureOutput_spec hlive).mono (fun _ _ => trivial) ?_
    rintro s' (⟨-, rfl⟩ | ⟨q, hq, hs'⟩)
    · exact hrec
    · have hne : o ≠ q := by
        rintro rfl
        exact hleave (named_mem hq).2.symm
      exact hrec.alter (hs'.alters hsrec) hne
  | workspaces nws => exact absurd hleave id
  | cycleOutputs reverse =>
    refine (keybindingCycleOutputs_spec reverse).mono (fun _ _ => trivial) ?_
    rintro _ ⟨q, -, rfl⟩
    exact h.congr h.enabled rfl
  | switchOutput output =>
    refine (keybindingSwitchOutput_spec output).mono (fun _ _ => trivial) ?_
    rintro _ (rfl | ⟨q, -, rfl⟩)
    · exact h
    · exact h.congr h.enabled rfl
  | switchWs ws =>
    show Meets (s.keybindingSwitchWs ws) _ _
    rw [keybindingSwitchWs]
    refine Meets.ite (fun _ => Meets.ok h) fun _ => ?_
    refine Meets.bind (curr_spec.mono (fun _ _ => trivial) fun _ h => h) fun q hq => ?_
    have hne : o ≠ q := by
      rintro rfl
      exact hleave hq.1
    refine Meets.bind (wsAt_spec.mono (fun _ _ => trivial) fun _ h => h) fun _ _ => ?_
    refine Meets.bind (wsAt_spec.mono (fun _ _ => trivial) fun _ h => h) fun _ _ => Meets.ok ?_
    exact h.alter alters_modify hne
  | quit => exact Meets.ok (h.congr h.enabled rfl)

/-- An output with a monitor keeps it when it is configured. -/
theorem configured_destroyed (hdest : (s.cg o).destroyed = false)
    (hc : Configured s o config answer s') : (s'.cg o).destroyed = false := by
  have hprep : ((s.prepared o config).cg o).destroyed = false := by
    rw [prepared, modify_cg_self, withRole, modify_cg_self]
    exact hdest
  have hback : ∀ t : OutputServer, ((t.renewBackground o).cg o).destroyed = (t.cg o).destroyed := by
    intro t
    rw [renewBackground, modify_cg_self]
  cases hc with
  | destroyed hrole hd hdest' =>
    rw [hdest] at hd
    cases hd
  | failed hdest' hpos hmode c hc => exact hprep
  | disabled hstatus hlen c hc =>
    rw [hback]
    exact hprep
  | kept hdest' hlen hmode =>
    rw [hback]
    split
    · exact hprep
    · exact hprep

/-- The output that waits is found. -/
theorem Away.waiting {c : CgOutput} (h : s.Away o c) (hs : s.Listed) (hd : s.Distinct) :
    s.waiting c.name = some o := by
  have hl : s.live o = true := (hs.live_iff o).mpr (.inl h.enabled)
  cases hw : s.waiting c.name with
  | none =>
    rw [OutputServer.waiting, List.getLast?_eq_none_iff] at hw
    have hmem : o ∈ s.outputs.filter fun o =>
        decide ((s.cg o).name = c.name) && (s.cg o).destroyed :=
      List.mem_filter.mpr ⟨h.enabled, by simp [h.name, h.destroyed]⟩
    rw [hw] at hmem
    exact absurd hmem List.not_mem_nil
  | some q =>
    obtain ⟨hq, hname, -⟩ := waiting_mem hw
    rw [hd q o ((hs.live_iff q).mpr (.inl hq)) hl (hname.trans h.name.symm)]

/-- The monitor of an output that waits for it comes back. -/
theorem Away.plugged {c : CgOutput} (h : s.Away o c) (hs : s.Listed) (hd : s.Distinct) :
    Meets (s.step (.plug c.name answer)) (fun _ => True) fun s' =>
      s'.connected o = true ∧ s'.live = s.live ∧ (s'.cg o).name = c.name ∧
        (s'.cg o).workspaces = c.workspaces ∧ (s'.cg o).currWorkspace = c.currWorkspace := by
  have hl : s.live o = true := (hs.live_iff o).mpr (.inl h.enabled)
  have hself : ((s.reinited o).cg o).destroyed = false := by
    rw [reinited_cg_self]
  show Meets (s.handleNewOutput c.name answer) _ _
  rw [handleNewOutput, h.waiting hs hd]
  refine (reinitOutput_spec hl).mono (fun _ _ => trivial) fun s' hs' => ?_
  have hlive : s'.live = s.live := (configured_same hself hs').1
  have harr : SameArrays s s' := sameArrays_reinited.trans hs'.keepsArrays.same
  refine ⟨?_, hlive, ?_, ?_, ?_⟩
  · rw [connected, hlive, hl, configured_destroyed hself hs']
    rfl
  · rw [hs'.same_name, reinited_name, h.name]
  · rw [harr.workspaces, h.workspaces]
  · rw [harr.currWorkspace, h.currWorkspace]

/-- The output of the monitor that is unplugged waits for it. -/
theorem unplug_away (hl : s.live o = true) (hout : o ∈ s.outputs)
    (hrole : (s.cg o).role = .permanent) (hrun : s.running = true) :
    Meets (s.outputDestroy o) (fun _ => True) (·.Away o (s.cg o)) := by
  refine (outputDestroy_spec hl).mono (fun _ _ => trivial) fun s' hs' => ?_
  have hout' : ∀ t : OutputServer, t.ended.outputs = t.outputs ∧ t.ended.cg = t.cg := by
    intro t
    rw [ended]
    split
    · exact ⟨rfl, rfl⟩
    · exact ⟨rfl, rfl⟩
  cases hs' with
  | removed hno c hc => exact absurd ⟨hrole, hrun⟩ hno
  | replaced hrole' hrun' =>
    have hcg : ((s.detached o).sceneOutputCreate o).ended.cg o =
        { (s.detached o).cg o with sceneOutput := some (s.detached o).top } := by
      rw [(hout' _).2]
      exact Function.update_self ..
    have hdet : ((s.detached o).cg o).destroyed = true ∧
        ((s.detached o).cg o).name = (s.cg o).name := by
      rw [detached]
      split
      · next h => exact ⟨h, rfl⟩
      · rw [modify_cg_self]
        exact ⟨rfl, rfl⟩
    refine ⟨?_, ?_, ?_, ?_, ?_⟩
    · rw [(hout' _).1]
      show o ∈ (s.detached o).outputs
      rw [detached_lists.1]
      exact hout
    · rw [hcg]
      exact hdet.1
    · rw [hcg]
      exact hdet.2
    · rw [hcg]
      exact sameArrays_detached.workspaces o
    · rw [hcg]
      exact sameArrays_detached.currWorkspace o

/-- **Replugging.**  A permanent output whose monitor is unplugged, and which no command is
about until the monitor comes back, gets it back: no output is added, and it has the
workspaces and the current workspace that it had. -/
theorem replug_reuses {prios : List (Text × ℤ)} {u : OutputServer}
    (hs : Runs step (fun s e => s.Promised e ∧ ¬ s.Doubles e) (init prios) s)
    (hc : s.connected o = true) (hout : o ∈ s.outputs) (hrole : (s.cg o).role = .permanent)
    (hrun : s.running = true) (hu : s.step (.unplug o) = .ok u)
    (ht : Runs step (fun s e => s.Promised e ∧ ¬ s.Doubles e ∧ s.Leaves o e) u t)
    (hplug : t.step (.plug (s.cg o).name answer) = .ok s') :
    s'.connected o = true ∧ s'.live = t.live ∧ (s'.cg o).name = (s.cg o).name ∧
      (s'.cg o).workspaces = (s.cg o).workspaces ∧
      (s'.cg o).currWorkspace = (s.cg o).currWorkspace := by
  obtain ⟨hd, hl⟩ := distinct_of_runs hs
  have hlive : s.live o = true := (Bool.and_eq_true_iff.mp hc).1
  have hunplug : s.outputDestroy o = .ok u := by rwa [step, if_pos hc] at hu
  have hfirst : u.Distinct ∧ u.Listed ∧ u.Away o (s.cg o) :=
    ⟨((step_distinct hd hl (e := .unplug o) trivial).of_ok hu).mpr id,
      (step_listed hl).of_ok hu, (unplug_away hlive hout hrole hrun).of_ok hunplug⟩
  have hlast : t.Distinct ∧ t.Listed ∧ t.Away o (s.cg o) := by
    refine ht.invariant (E := fun _ => True)
      (I := fun t => t.Distinct ∧ t.Listed ∧ t.Away o (s.cg o)) hfirst ?_
    rintro t e ⟨hd, hl, ha⟩ ⟨hp, hno, hleave⟩
    have hstepd := step_distinct hd hl hp
    have hstepl := step_listed (e := e) hl
    have hstepa := step_away ha hl hleave
    cases hstep : t.step e with
    | error err => trivial
    | ok t' => exact ⟨(hstepd.of_ok hstep).mpr hno, hstepl.of_ok hstep, hstepa.of_ok hstep⟩
  exact (hlast.2.2.plugged hlast.2.1 hlast.1).of_ok hplug

/-- The only monitor is unplugged and plugged in again. -/
theorem replug_reuses_only : ∃ s u s' : OutputServer, s.step (.unplug 0) = .ok u ∧
    u.connected 0 = false ∧ u.step (.plug (s.cg 0).name agrees) = .ok s' ∧
      s'.connected 0 = true ∧ s'.live = u.live := by
  have hcheck : checked step (fun s e => s.Promised e ∧ ¬ s.Doubles e) (fun s =>
      s.connected 0 && decide (0 ∈ s.outputs) && decide ((s.cg 0).role = .permanent) && s.running &&
      returns (s.step (.unplug 0)) fun u => !u.connected 0 &&
        returns (u.step (.plug (s.cg 0).name agrees)) fun _ => true) (init [])
      [.configure { emptyOutputConfig with outputName := some (ascii "A"), role := .permanent }
        agrees, .plug (ascii "A") agrees] = true := by
    decide
  obtain ⟨s, hs, htest⟩ := exists_of_checked hcheck
  simp only [Bool.and_eq_true, decide_eq_true_eq] at htest
  obtain ⟨⟨⟨⟨hc, hout⟩, hrole⟩, hrun⟩, hreturns⟩ := htest
  obtain ⟨u, hu, hnext⟩ := exists_of_returns hreturns
  rw [Bool.and_eq_true, Bool.not_eq_true'] at hnext
  obtain ⟨s', hs', -⟩ := exists_of_returns hnext.2
  obtain ⟨hconn, hlive, -⟩ := replug_reuses hs hc hout hrole hrun hu .refl hs'
  exact ⟨s, u, s', hu, hnext.1, hs', hconn, hlive⟩

end OutputServer

end Cagebreak
