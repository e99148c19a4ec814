/-
The scene outputs.

`output_clear` destroys the scene output of an output and keeps the pointer to
it, so that whatever clears or destroys the output again destroys the scene
output a second time.  `Watched` remembers which outputs have ever been
disabled; `scene_outputs_once` says that no other output is in this danger.
-/
import Cagebreak.OutputLists

namespace Cagebreak

open Outcome

namespace OutputServer

variable {s s' : OutputServer} {o p : ℕ} {c : Option ℕ} {config : OutputConfig}
  {answer : OutputAnswer} {name : Text} {e : OutputEvent} {seen seen' : List ℕ}

/-- Each output has a scene output of its own, which is not destroyed before the
output has been seen among the disabled ones. -/
structure Owned (s : OutputServer) (seen : List ℕ) : Prop where
  own : ∀ o p q, s.live o = true → s.live p = true → (s.cg o).sceneOutput = some q →
    (s.cg p).sceneOutput = some q → o = p
  fresh : ∀ o q, s.live o = true → (s.cg o).sceneOutput = some q → q < s.top
  shown : ∀ o, s.live o = true → o ∉ seen → ¬ s.Gone o
  seen : ∀ o ∈ seen, o < s.top

/-- Nothing about scene outputs has changed, but outputs may have been freed. -/
theorem Owned.congr (h : s.Owned seen)
    (hscene : ∀ p, (s'.cg p).sceneOutput = (s.cg p).sceneOutput)
    (hsceneLive : s'.sceneLive = s.sceneLive) (hlive : ∀ p, s'.live p = true → s.live p = true)
    (htop : s'.top = s.top) : s'.Owned seen := by
  refine ⟨fun o p q ho hp hoq hpq => ?_, fun o q ho hoq => ?_, fun o ho hnew => ?_, fun o ho => ?_⟩
  · rw [hscene] at hoq hpq
    exact h.own o p q (hlive o ho) (hlive p hp) hoq hpq
  · rw [hscene] at hoq
    rw [htop]
    exact h.fresh o q (hlive o ho) hoq
  · rintro ⟨q, hq, hgone⟩
    rw [hscene] at hq
    rw [hsceneLive] at hgone
    exact h.shown o (hlive o ho) hnew ⟨q, hq, hgone⟩
  · rw [htop]
    exact h.seen o ho

theorem Owned.mono (h : s.Owned seen) (hsub : ∀ o ∈ seen, o ∈ seen')
    (hnew : ∀ o ∈ seen', o < s.top) : s.Owned seen' :=
  ⟨h.own, h.fresh, fun o ho hno => h.shown o ho fun hmem => hno (hsub o hmem), hnew⟩

/-- Destroying the scene output of `o` concerns no other output. -/
theorem Owned.without (h : s.Owned seen) (hl : s.live o = true) (ho : o < s.top) :
    ({ s with sceneLive := s.sceneWithout o } : OutputServer).Owned (o :: seen) := by
  refine ⟨h.own, h.fresh, fun p hp hnew => ?_, fun p hp => ?_⟩
  · obtain ⟨hpo, hpnew⟩ := List.ne_and_not_mem_of_not_mem_cons hnew
    rintro ⟨q, hq, hgone⟩
    refine h.shown p hp hpnew ⟨q, hq, ?_⟩
    have hgone' : s.sceneWithout o q = false := hgone
    rw [sceneWithout] at hgone'
    cases hoq : (s.cg o).sceneOutput with
    | none => simpa [hoq] using hgone'
    | some r =>
      have hqr : q ≠ r := by
        rintro rfl
        exact hpo (h.own p o q hp hl hq hoq)
      simpa [hoq, Function.update_of_ne hqr] using hgone'
  · obtain rfl | hp := List.mem_cons.mp hp
    · exact ho
    · exact h.seen p hp

/-- A new scene output for `o`, which need not be shown before. -/
theorem Owned.create (h : s.Owned (o :: seen)) : (s.sceneOutputCreate o).Owned seen := by
  have hcg : (s.sceneOutputCreate o).cg o = { s.cg o with sceneOutput := some s.top } :=
    Function.update_self ..
  have hself : ((s.sceneOutputCreate o).cg o).sceneOutput = some s.top := by rw [hcg]
  have hne : ∀ p, p ≠ o → (s.sceneOutputCreate o).cg p = s.cg p := fun p hp =>
    Function.update_of_ne hp ..
  have hold : ∀ p q, s.live p = true → p ≠ o →
      ((s.sceneOutputCreate o).cg p).sceneOutput = some q → q < s.top := by
    intro p q hp hpo hq
    rw [hne p hpo] at hq
    exact h.fresh p q hp hq
  refine ⟨fun p r q hp hr hpq hrq => ?_, fun p q hp hpq => ?_, fun p hp hnew => ?_, fun p hp => ?_⟩
  · by_cases hpo : p = o
    · by_cases hro : r = o
      · rw [hpo, hro]
      · rw [hpo, hself] at hpq
        obtain rfl := Option.some.inj hpq
        exact absurd (hold r _ hr hro hrq) (Nat.lt_irrefl _)
    · by_cases hro : r = o
      · rw [hro, hself] at hrq
        obtain rfl := Option.some.inj hrq
        exact absurd (hold p _ hp hpo hpq) (Nat.lt_irrefl _)
      · rw [hne p hpo] at hpq
        rw [hne r hro] at hrq
        exact h.own p r q hp hr hpq hrq
  · show q < s.top + 1
    by_cases hpo : p = o
    · rw [hpo, hself] at hpq
      obtain rfl := Option.some.inj hpq
      exact Nat.lt_succ_self _
    · exact (hold p q hp hpo hpq).trans (Nat.lt_succ_self _)
  · rintro ⟨q, hq, hgone⟩
    have hgone' : Function.update s.sceneLive s.top true q = false := hgone
    by_cases hpo : p = o
    · rw [hpo, hself] at hq
      obtain rfl := Option.some.inj hq
      rw [Function.update_self] at hgone'
      cases hgone'
    · rw [Function.update_of_ne (hold p q hp hpo hq).ne] at hgone'
      rw [hne p hpo] at hq
      refine h.shown p hp ?_ ⟨q, hq, hgone'⟩
      exact fun hmem => hnew ((List.mem_cons.mp hmem).resolve_left hpo)
  · exact (h.seen p (List.mem_cons_of_mem _ hp)).trans (Nat.lt_succ_self _)

/-- An output that has been freed need not be shown. -/
theorem Owned.freed (h : s.Owned (o :: seen)) (hl : s.live o = false) : s.Owned seen := by
  refine ⟨h.own, h.fresh, fun p hp hnew => h.shown p hp fun hmem => ?_,
    fun p hp => h.seen p (List.mem_cons_of_mem _ hp)⟩
  obtain rfl | hmem := List.mem_cons.mp hmem
  · rw [hl] at hp
    cases hp
  · exact hnew hmem

theorem Owned.detached (h : s.Owned seen) (hl : s.live o = true) (ho : o < s.top) :
    (s.detached o).Owned (o :: seen) := by
  rw [OutputServer.detached]
  split
  · exact h.mono (fun p hp => List.mem_cons_of_mem _ hp) fun p hp => by
      obtain rfl | hp := List.mem_cons.mp hp
      · exact ho
      · exact h.seen p hp
  · -- the pointer is reset, so that the output has no scene output at all
    have hw := h.without hl ho
    have hself : ∀ p q,
        ((({ s with sceneLive := s.sceneWithout o } : OutputServer).modify o fun c =>
        { c with sceneOutput := none, destroyed := true }).cg p).sceneOutput = some q →
        (s.cg p).sceneOutput = some q := by
      intro p q hq
      by_cases hpo : p = o
      · subst hpo
        rw [modify_cg_self] at hq
        cases hq
      · rw [modify_cg_of_ne hpo] at hq
        exact hq
    refine ⟨fun p r q hp hr hpq hrq => hw.own p r q hp hr (hself p q hpq) (hself r q hrq),
      fun p q hp hpq => hw.fresh p q hp (hself p q hpq), fun p hp hnew => ?_, hw.seen⟩
    rintro ⟨q, hq, hgone⟩
    exact hw.shown p hp hnew ⟨q, hself p q hq, hgone⟩

theorem Owned.ended (h : s.Owned seen) : s.ended.Owned seen := by
  rw [OutputServer.ended]
  split
  · exact h.congr (fun _ => rfl) rfl (fun _ hp => hp) rfl
  · exact h

/-- Clearing destroys the scene output, if there is one. -/
theorem Owned.cleared (h : s.Owned seen) (hl : s.live o = true) (ho : o < s.top) :
    (s.cleared o c).Owned (o :: seen) :=
  (h.without hl ho).congr (fun _ => rfl) rfl (fun _ hp => hp) rfl

theorem Owned.destroyed (h : s.Owned seen) (hl : s.live o = true) (ho : o < s.top)
    (hd : Destroyed s o s') : s'.Owned seen := by
  cases hd with
  | replaced hrole hrun => exact (h.detached hl ho).create.ended
  | removed hrole c hc =>
    have hdet := h.detached hl ho
    have hclear : ((s.detached o).cleared o c).Owned (o :: o :: seen) :=
      hdet.cleared (by rw [detached_live, hl]) (by rw [detached_lists.2.2]; exact ho)
    have hclear' : ((s.detached o).cleared o c).Owned (o :: seen) :=
      hclear.mono (fun p hp => by simpa using hp) hdet.seen
    have hrem : ({ (s.detached o).cleared o c with
        live := Function.update s.live o false } : OutputServer).Owned (o :: seen) := by
      refine hclear'.congr (fun _ => rfl) rfl (fun p hp => ?_) rfl
      show (s.detached o).live p = true
      rw [detached_live]
      by_cases hpo : p = o
      · subst hpo
        simp at hp
      · rw [← hp]
        exact (Function.update_of_ne hpo ..).symm
    exact (hrem.freed (Function.update_self ..)).ended

theorem Owned.disabledTo (h : s.Owned seen) (hl : s.live o = true) (ho : o < s.top) :
    (s.disabledTo o c).Owned (o :: seen) :=
  (h.cleared (c := c) hl ho).congr (fun _ => rfl) rfl (fun _ hp => hp) rfl

theorem Owned.prepared (h : s.Owned seen) : (s.prepared o config).Owned seen :=
  h.congr (fun _ => prepared_sceneOutput) rfl (fun _ hp => hp) rfl

theorem Owned.renewBackground (h : s.Owned seen) : (s.renewBackground o).Owned seen := by
  refine h.congr (fun p => ?_) rfl (fun _ hp => hp) rfl
  by_cases hpo : p = o
  · subst hpo
    rw [OutputServer.renewBackground, modify_cg_self]
  · rw [OutputServer.renewBackground, modify_cg_of_ne hpo]

/-- The outputs that are disabled now are remembered. -/
theorem Owned.watch (h : s.Owned seen') (hs : s.Listed) (hsub : ∀ o ∈ seen, o ∈ seen')
    (hnew : ∀ o ∈ seen', o ∈ s.disabledOutputs ++ seen) :
    s.Owned (s.disabledOutputs ++ seen) := by
  refine h.mono hnew fun o ho => ?_
  obtain ho | ho := List.mem_append.mp ho
  · exact hs.fresh o ((hs.live_iff o).mpr (.inr ho))
  · exact h.seen o (hsub o ho)

theorem Owned.configured (h : s.Owned seen) (hs : s.Listed) (hl : s.live o = true)
    (hc : Configured s o config answer s') : s'.Owned (s'.disabledOutputs ++ seen) := by
  have hs' := hs.configured hl hc
  have ho := hs.fresh o hl
  -- an output that is cleared has been put among the disabled ones
  have hself : ∀ l : List ℕ, ∀ p ∈ o :: seen, p ∈ (o :: l) ++ seen := by
    intro l p hp
    obtain rfl | hp := List.mem_cons.mp hp
    · exact List.mem_cons_self
    · exact List.mem_append_right _ hp
  cases hc with
  | destroyed hrole hd hdest =>
    have hrole : (s.withRole o config).Owned seen :=
      h.congr (fun _ => withRole_sceneOutput) rfl (fun _ hp => hp) rfl
    exact (hrole.destroyed hl ho hdest).watch hs' (fun _ hp => hp) fun _ =>
      List.mem_append_right _
  | failed hdest hpos hmode c hc =>
    have hdis : ((s.prepared o config).disabledTo o c).Owned (o :: seen) :=
      h.prepared.disabledTo hl ho
    exact hdis.watch hs' (fun _ => List.mem_cons_of_mem _) (hself _)
  | disabled hstatus hlen c hc =>
    have hdis : ((s.prepared o config).disabledTo o c).Owned (o :: seen) :=
      h.prepared.disabledTo hl ho
    exact hdis.renewBackground.watch hs' (fun _ => List.mem_cons_of_mem _) (hself _)
  | kept hdest hlen hmode =>
    have hkept : (if s.PrioChanged o config then ((s.prepared o config).unlink o).outputInsert o
        else s.prepared o config).Owned seen := by
      split
      · exact h.prepared.congr (fun _ => rfl) rfl (fun _ hp => hp) rfl
      · exact h.prepared
    exact hkept.renewBackground.watch hs' (fun _ hp => hp) fun _ => List.mem_append_right _

theorem Owned.reinited (h : s.Owned seen) (hs : s.Listed) (hl : s.live o = true) :
    (s.reinited o).Owned seen := by
  have hnew : ({ s with sceneLive := s.sceneWithout o }.sceneOutputCreate o).Owned seen :=
    (h.without hl (hs.fresh o hl)).create
  refine hnew.congr (fun p => ?_) rfl (fun _ hp => hp) rfl
  by_cases hpo : p = o
  · subst hpo
    rw [OutputServer.reinited, modify_cg_self]
  · rw [OutputServer.reinited, modify_cg_of_ne hpo]

/-- A new output has a new scene output. -/
theorem Owned.added (h : s.Owned seen) : (s.added name).Owned seen := by
  have halloc : ({ s with
      top := s.top + 1
      live := Function.update s.live s.top true
      cg := Function.update s.cg s.top (s.newOutput name) } : OutputServer).Owned
        (s.top :: seen) := by
    have hscene : ∀ p q, Function.update s.live s.top true p = true →
        (Function.update s.cg s.top (s.newOutput name) p).sceneOutput = some q →
        s.live p = true ∧ (s.cg p).sceneOutput = some q := by
      intro p q hp hq
      by_cases hpt : p = s.top
      · subst hpt
        rw [Function.update_self] at hq
        cases hq
      · rw [Function.update_of_ne hpt] at hp hq
        exact ⟨hp, hq⟩
    refine ⟨fun p r q hp hr hpq hrq => ?_, fun p q hp hpq => ?_, fun p hp hno => ?_, fun p hp => ?_⟩
    · exact h.own p r q (hscene p q hp hpq).1 (hscene r q hr hrq).1 (hscene p q hp hpq).2
        (hscene r q hr hrq).2
    · exact (h.fresh p q (hscene p q hp hpq).1 (hscene p q hp hpq).2).trans (Nat.lt_succ_self _)
    · rintro ⟨q, hq, hgone⟩
      obtain ⟨hlive, hscene⟩ := hscene p q hp hq
      exact h.shown p hlive (fun hmem => hno (List.mem_cons_of_mem _ hmem)) ⟨q, hscene, hgone⟩
    · obtain rfl | hp := List.mem_cons.mp hp
      · exact Nat.lt_succ_self _
      · exact (h.seen p hp).trans (Nat.lt_succ_self _)
  exact halloc.create.congr (fun _ => rfl) rfl (fun _ hp => hp) rfl

theorem Owned.createWorkspaces (h : s.Owned seen) : (s.createWorkspaces o).Owned seen := by
  obtain ⟨-, -, hlive, htop, -⟩ := createWorkspaces_same (s := s) (o := o)
  have hsceneLive : (s.createWorkspaces o).sceneLive = s.sceneLive := by
    rw [OutputServer.createWorkspaces]
    split
    · rfl
    · rfl
  exact h.congr (fun p => createWorkspaces_field fun _ _ _ => rfl) hsceneLive
    (fun p hp => by rwa [hlive] at hp) htop

/-! ### Runs -/

/-- The server, and the outputs that have ever been among the disabled ones. -/
structure Watched where
  server : OutputServer
  seen : List ℕ

/-- The event clears or destroys the output. -/
def TearsDown (s : OutputServer) (o : ℕ) : OutputEvent → Prop
  | .plug name _ => s.waiting name = some o
  | .unplug p => p = o ∧ s.connected o = true
  | .configure cfg answer => s.named cfg.outputName = some o ∧
    (s.recorded cfg).Torn o ((s.recorded cfg).effective o) answer
  | _ => False

/-- Handle one event, and remember the outputs that are disabled. -/
def Watched.step (w : Watched) (e : OutputEvent) : OutputExec Watched := do
  let server ← w.server.step e
  .ok ⟨server, server.disabledOutputs ++ w.seen⟩

/-- No output is torn down that has ever been disabled. -/
def Watched.Spares (w : Watched) (e : OutputEvent) : Prop :=
  ∀ o ∈ w.seen, ¬ w.server.TearsDown o e

theorem step_owned (h : s.Owned seen) (hs : s.Listed) (hok : ∀ o ∈ seen, ¬ s.TearsDown o e) :
    Meets (s.step e) (· ≠ .doubleDestroy) fun s' => s'.Owned (s'.disabledOutputs ++ seen) := by
  have hlive : ∀ p, p ∈ s.outputs ∨ p ∈ s.disabledOutputs → s.live p = true := fun p hp =>
    (hs.live_iff p).mpr hp
  have hshown : ∀ o, s.live o = true → s.TearsDown o e → ¬ s.Gone o := fun o hl ht =>
    h.shown o hl fun hmem => hok o hmem ht
  -- the disabled outputs are watched from here on
  have hsame : s.Owned (s.disabledOutputs ++ seen) :=
    h.watch hs (fun _ hp => hp) fun _ => List.mem_append_right _
  cases e with
  | plug name answer =>
    show Meets (s.handleNewOutput name answer) _ _
    rw [handleNewOutput]
    cases hw : s.waiting name with
    | some o =>
      have hl := hlive o (.inl (waiting_mem hw).1)
      refine (reinitOutput_spec hl).mono (fun err he hdouble => ?_) fun s' hs' =>
        (h.reinited hs hl).configured hs.reinited hl hs'
      exact hshown o hl hw (he.doubleDestroy hdouble)
    | none =>
      refine addOutput_spec.mono (fun err he => he.2) ?_
      rintro _ ⟨s₁, hs₁, rfl⟩
      obtain ⟨-, hdis, -⟩ := createWorkspaces_same (s := s₁) (o := s.top)
      rw [hdis]
      exact (h.added.configured hs.added added_live_self hs₁).createWorkspaces
  | unplug o =>
    refine Meets.ite (fun hc => ?_) fun _ => Meets.ok hsame
    have hl : s.live o = true := (Bool.and_eq_true_iff.mp hc).1
    refine (outputDestroy_spec hl).mono (fun err he hdouble => ?_) fun s' hs' => ?_
    · exact hshown o hl ⟨rfl, hc⟩ (he.doubleDestroy hdouble)
    · exact (h.destroyed hl (hs.fresh o hl) hs').watch (hs.destroyed hs') (fun _ hp => hp) fun _ =>
        List.mem_append_right _
  | configure cfg answer =>
    have hrec : (s.recorded cfg).Owned seen := h.congr (fun _ => rfl) rfl (fun _ hp => hp) rfl
    have hsrec : (s.recorded cfg).Listed := hs.congr rfl rfl rfl le_rfl hs.nws
    refine (keybindingConfigureOutput_spec hlive).mono ?_ ?_
    · rintro err ⟨o, ho, he⟩ hdouble
      obtain ⟨hgone, htorn⟩ := he.doubleDestroy hdouble
      exact hshown o (hlive o (named_mem ho).1) ⟨ho, htorn⟩ hgone
    · rintro s' (⟨-, rfl⟩ | ⟨o, ho, hs'⟩)
      · exact hrec.watch hsrec (fun _ hp => hp) fun _ => List.mem_append_right _
      · exact hrec.configured hsrec (hlive o (named_mem ho).1) hs'
  | workspaces nws =>
    refine (keybindingSetNws_spec nws.2.1 hs.outputs fun p hp => hlive p (.inl hp)).mono
      (fun err he => he.doubleDestroy) ?_
    rintro _ ⟨cg, hcg, rfl⟩
    exact hsame.congr (fun p => (hcg.same p).sceneOutput) rfl (fun _ hp => hp) rfl
  | cycleOutputs reverse =>
    refine (keybindingCycleOutputs_spec reverse).mono (fun err he => he.doubleDestroy) ?_
    rintro _ ⟨c, -, rfl⟩
    exact hsame.congr (fun _ => rfl) rfl (fun _ hp => hp) rfl
  | switchOutput output =>
    refine (keybindingSwitchOutput_spec output).mono (fun err he => he.doubleDestroy) ?_
    rintro _ (rfl | ⟨c, -, rfl⟩)
    · exact hsame
    · exact hsame.congr (fun _ => rfl) rfl (fun _ hp => hp) rfl
  | switchWs ws =>
    refine (keybindingSwitchWs_spec ws).mono (fun err he => he.doubleDestroy) ?_
    rintro _ (rfl | ⟨-, o, -, rfl⟩)
    · exact hsame
    · refine hsame.congr (fun p => ?_) rfl (fun _ hp => hp) rfl
      by_cases hpo : p = o
      · subst hpo
        rw [modify_cg_self]
      · rw [modify_cg_of_ne hpo]
  | quit => exact Meets.ok (hsame.congr (fun _ => rfl) rfl (fun _ hp => hp) rfl)

/-- `output B disable`. -/
def disableB : OutputEvent :=
  .configure { emptyOutputConfig with outputName := some (ascii "B"), status := .disable } agrees

end OutputServer

end Cagebreak
