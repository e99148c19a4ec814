/-
Which outputs are enabled.

The list an output is in should follow from its merged configuration: a disabled
output is in the list of the disabled ones, unless it is the only enabled one,
and every other output is in the list of the enabled ones.  The branches of
`output_apply_config` are taken for outputs of both lists alike, and only a new
priority takes an output out of the list of the disabled ones.
`outputs_enabled` tells under which commands the lists are the right ones.
-/
import Cagebreak.OutputLists

namespace Cagebreak

open Outcome OutputConfig

/-! ### The merged status -/

section Merges

variable {cfg : OutputConfig} {cfgs : List OutputConfig} {name : Text}

/-- There is one record for a name at most. -/
def SingleRecords (cfgs : List OutputConfig) : Prop := ∀ name, (naming name cfgs).length ≤ 1

theorem SingleRecords.storeConfig (h : SingleRecords cfgs) :
    SingleRecords (storeConfig cfgs cfg) := by
  intro name
  rw [naming_storeConfig]
  split
  · exact le_rfl
  · exact h name

theorem totalConfig_eq_foldl : totalConfig cfgs name =
    (naming name cfgs).foldl (fun tot config => mergeOutputConfigs config tot)
      emptyOutputConfig := by
  rw [totalConfig, naming, List.foldl_filter]
  simp only [decide_eq_true_eq]

/-- A command changes the merged configuration of the output it names only. -/
theorem totalConfig_storeConfig_of_ne (h : cfg.outputName ≠ some name) :
    totalConfig (storeConfig cfgs cfg) name = totalConfig cfgs name := by
  rw [totalConfig_eq_foldl, totalConfig_eq_foldl, naming_storeConfig, if_neg h]

/-- The merged status is the one that the command gives, or else the one that it
was before. -/
theorem totalConfig_storeConfig_status (h : cfg.outputName = some name) (hs : SingleRecords cfgs) :
    (totalConfig (storeConfig cfgs cfg) name).status =
      if cfg.status = .default then (totalConfig cfgs name).status else cfg.status := by
  have hmerge : ∀ c : OutputConfig, (mergeOutputConfigs c emptyOutputConfig).status = c.status := by
    intro c
    by_cases hc : c.status = .default
    · simp [mergeOutputConfigs, emptyOutputConfig, hc]
    · simp [mergeOutputConfigs, emptyOutputConfig, hc]
  rw [totalConfig_eq_foldl, totalConfig_eq_foldl, naming_storeConfig, if_pos h, List.foldl_cons,
    List.foldl_nil, hmerge]
  cases hn : naming name cfgs with
  | nil =>
    by_cases hc : cfg.status = .default
    · simp [emptyOutputConfig, hc]
    · simp [hc]
  | cons c l =>
    have hl : l = [] := by
      have hlen := hs name
      rw [hn, List.length_cons] at hlen
      exact List.length_eq_zero_iff.mp (by omega)
    subst hl
    rw [List.foldl_cons, List.foldl_nil, List.foldl_cons, List.foldl_nil, hmerge]
    rfl

end Merges

namespace OutputServer

variable {s s' : OutputServer} {o p : ℕ} {c : Option ℕ} {config : OutputConfig}
  {answer : OutputAnswer} {name : Text} {e : OutputEvent}

/-! ### Other outputs -/

/-- An event that is about `o` leaves the other outputs in their lists. -/
structure Alters (s s' : OutputServer) (o : ℕ) : Prop where
  cg : ∀ p, p ≠ o → s'.cg p = s.cg p
  live : ∀ p, p ≠ o → s'.live p = true → s.live p = true
  outputConfig : s'.outputConfig = s.outputConfig
  outputs : ∀ p, p ≠ o → (p ∈ s'.outputs ↔ p ∈ s.outputs)
  disabled : ∀ p, p ≠ o → (p ∈ s'.disabledOutputs ↔ p ∈ s.disabledOutputs)

theorem Alters.refl (s : OutputServer) (o : ℕ) : Alters s s o :=
  ⟨fun _ _ => rfl, fun _ _ h => h, rfl, fun _ _ => Iff.rfl, fun _ _ => Iff.rfl⟩

theorem Alters.trans {s'' : OutputServer} (h : Alters s s' o) (h' : Alters s' s'' o) :
    Alters s s'' o where
  cg p hp := (h'.cg p hp).trans (h.cg p hp)
  live p hp hl := h.live p hp (h'.live p hp hl)
  outputConfig := h'.outputConfig.trans h.outputConfig
  outputs p hp := (h'.outputs p hp).trans (h.outputs p hp)
  disabled p hp := (h'.disabled p hp).trans (h.disabled p hp)

theorem alters_modify {f : CgOutput → CgOutput} : Alters s (s.modify o f) o :=
  ⟨fun _ hp => modify_cg_of_ne hp, fun _ _ h => h, rfl, fun _ _ => Iff.rfl, fun _ _ => Iff.rfl⟩

/-- Nothing has changed about the outputs. -/
theorem alters_of_cg (hcg : s'.cg = s.cg) (hlive : s'.live = s.live)
    (hconfig : s'.outputConfig = s.outputConfig) (hout : s'.outputs = s.outputs)
    (hdis : s'.disabledOutputs = s.disabledOutputs) : Alters s s' o := by
  refine ⟨fun p _ => by rw [hcg], fun p _ hp => by rwa [hlive] at hp, hconfig,
    fun p _ => by rw [hout], fun p _ => by rw [hdis]⟩

theorem alters_ended : Alters s s.ended o := by
  rw [ended]
  split
  · exact alters_of_cg rfl rfl rfl rfl rfl
  · exact .refl s o

theorem alters_detached : Alters s (s.detached o) o := by
  rw [detached]
  split
  · exact .refl s o
  · have hscene : Alters s { s with sceneLive := s.sceneWithout o } o :=
      alters_of_cg rfl rfl rfl rfl rfl
    exact hscene.trans alters_modify

theorem Listed.alters_cleared (h : s.Listed) : Alters s (s.cleared o c) o where
  cg _ _ := rfl
  live _ _ hp := hp
  outputConfig := rfl
  outputs _ hp := h.mem_unlink.1.trans (and_iff_right hp)
  disabled _ hp := h.mem_unlink.2.trans (and_iff_right hp)

theorem Destroyed.alters (hd : Destroyed s o s') (hs : s.Listed) : Alters s s' o := by
  cases hd with
  | replaced hrole hrun =>
    have hscene : Alters (s.detached o) ((s.detached o).modify o fun c =>
        { c with sceneOutput := some (s.detached o).top }) o := alters_modify
    have hnew : Alters (s.detached o) ((s.detached o).sceneOutputCreate o) o :=
      hscene.trans (alters_of_cg rfl rfl rfl rfl rfl)
    exact alters_detached.trans (hnew.trans alters_ended)
  | removed hrole c hc =>
    have hclear : Alters (s.detached o) ((s.detached o).cleared o c) o := hs.detached.alters_cleared
    refine alters_detached.trans (hclear.trans (Alters.trans ?_ alters_ended))
    refine ⟨fun _ _ => rfl, fun p hpo hp => ?_, rfl, fun _ _ => Iff.rfl, fun _ _ => Iff.rfl⟩
    show (s.detached o).live p = true
    rw [detached_live, ← hp]
    exact (Function.update_of_ne hpo ..).symm

theorem alters_prepared : Alters s (s.prepared o config) o :=
  (alters_modify (s := s)).trans alters_modify

theorem Listed.alters_disabledTo (h : s.Listed) : Alters s (s.disabledTo o c) o where
  cg _ _ := rfl
  live _ _ hp := hp
  outputConfig := rfl
  outputs _ hp := h.mem_unlink.1.trans (and_iff_right hp)
  disabled _ hp := List.mem_cons.trans ((or_iff_right hp).trans
    (h.disabled.mem_erase_iff.trans (and_iff_right hp)))

theorem Listed.alters_reinsert (h : s.Listed) : Alters s ((s.unlink o).outputInsert o) o where
  cg _ _ := rfl
  live _ _ hp := hp
  outputConfig := rfl
  outputs _ hp := outputInsert_perm.mem_iff.trans (List.mem_cons.trans ((or_iff_right hp).trans
    (h.mem_unlink.1.trans (and_iff_right hp))))
  disabled _ hp := h.mem_unlink.2.trans (and_iff_right hp)

theorem Configured.alters (hc : Configured s o config answer s') (hs : s.Listed) :
    Alters s s' o := by
  cases hc with
  | destroyed hrole hd hdest =>
    have hrole : (s.withRole o config).Listed := hs.congr rfl rfl rfl le_rfl hs.nws
    exact alters_modify.trans (hdest.alters hrole)
  | failed hdest hpos hmode c hc => exact alters_prepared.trans hs.prepared.alters_disabledTo
  | disabled hstatus hlen c hc =>
    exact alters_prepared.trans (hs.prepared.alters_disabledTo.trans alters_modify)
  | kept hdest hlen hmode =>
    split
    · exact alters_prepared.trans (hs.prepared.alters_reinsert.trans alters_modify)
    · exact alters_prepared.trans alters_modify

/-! ### Following the status -/

/-- The output is in the list that its merged status asks for. -/
structure Heeded (s : OutputServer) (o : ℕ) : Prop where
  shown : (s.effective o).status ≠ .disable → o ∈ s.outputs
  hidden : (s.effective o).status = .disable → o ∈ s.disabledOutputs ∨ s.outputs = [o]

/-- No enabled output with a monitor should be disabled. -/
def NoneHidden (s : OutputServer) : Prop :=
  ∀ p ∈ s.outputs, s.connected p = true → (s.effective p).status ≠ .disable

/-- A list without repetition that has one element. -/
theorem eq_singleton_of_mem {l : List ℕ} (hnd : l.Nodup) (h : ∀ q, q ∈ l ↔ q = p) : l = [p] := by
  have hperm : l.Perm [p] :=
    (List.perm_ext_iff_of_nodup hnd (List.nodup_singleton p)).mpr fun q => by
    rw [h, List.mem_singleton]
  exact List.perm_singleton.mp hperm

theorem Alters.connected (h : Alters s s' o) (hp : p ≠ o) (hc : s'.connected p = true) :
    s.connected p = true := by
  rw [OutputServer.connected, Bool.and_eq_true] at hc ⊢
  rw [h.cg p hp] at hc
  exact ⟨h.live p hp hc.1, hc.2⟩

theorem Alters.effective (h : Alters s s' o) (hp : p ≠ o) : s'.effective p = s.effective p := by
  rw [OutputServer.effective, OutputServer.effective, h.outputConfig, h.cg p hp]

/-- Other outputs stay in the right list, unless `o` is enabled beside the only
enabled output. -/
theorem Heeded.alter (h : s.Heeded p) (ha : Alters s s' o) (hs' : s'.Listed) (hp : p ≠ o)
    (hconn : s.connected p = true) (halone : o ∈ s'.outputs → o ∈ s.outputs ∨ s.NoneHidden) :
    s'.Heeded p := by
  refine ⟨fun hstatus => ?_, fun hstatus => ?_⟩
  · rw [ha.effective hp] at hstatus
    exact (ha.outputs p hp).mpr (h.shown hstatus)
  · rw [ha.effective hp] at hstatus
    obtain hdis | honly := h.hidden hstatus
    · exact .inl ((ha.disabled p hp).mpr hdis)
    · refine .inr (eq_singleton_of_mem hs'.outputs fun q => ?_)
      by_cases hq : q = o
      · subst hq
        refine iff_of_false (fun hmem => ?_) (Ne.symm hp)
        obtain hmem | hnone := halone hmem
        · rw [honly, List.mem_singleton] at hmem
          exact hp hmem.symm
        · exact hnone p (by rw [honly]; exact List.mem_singleton_self p) hconn hstatus
      · rw [ha.outputs q hq, honly, List.mem_singleton]

/-- Applying a configuration to `o` is harmless.  An output that is destroyed by
it does not matter. -/
structure Applies (s : OutputServer) (o : ℕ) (config : OutputConfig) (answer : OutputAnswer) :
    Prop where
  modes : s.Fails o config answer → config.status = .disable ∧ s.outputs ≠ [o]
  disabled : ¬ (config.role = .peripheral ∧ (s.cg o).destroyed = true) → o ∈ s.disabledOutputs →
    config.status = .disable → s.PrioChanged o config → 1 < s.outputs.length
  enabled : ¬ (config.role = .peripheral ∧ (s.cg o).destroyed = true) → o ∈ s.disabledOutputs →
    config.status ≠ .disable → s.PrioChanged o config ∧ s.NoneHidden

instance : Decidable s.NoneHidden :=
  inferInstanceAs (Decidable (∀ p ∈ s.outputs, s.connected p = true →
    (s.effective p).status ≠ .disable))

instance : Decidable (s.Applies o config answer) :=
  decidable_of_iff ((s.Fails o config answer → config.status = .disable ∧ s.outputs ≠ [o]) ∧
    (¬ (config.role = .peripheral ∧ (s.cg o).destroyed = true) → o ∈ s.disabledOutputs →
      config.status = .disable → s.PrioChanged o config → 1 < s.outputs.length) ∧
    (¬ (config.role = .peripheral ∧ (s.cg o).destroyed = true) → o ∈ s.disabledOutputs →
      config.status ≠ .disable → s.PrioChanged o config ∧ s.NoneHidden))
    ⟨fun h => ⟨h.1, h.2.1, h.2.2⟩, fun h => ⟨h.1, h.2, h.3⟩⟩

theorem disabledTo_mem : o ∈ (s.disabledTo o c).disabledOutputs := List.mem_cons_self

theorem eq_singleton_of_length {l : List ℕ} (ho : o ∈ l) (hlen : ¬ 1 < l.length) : l = [o] := by
  obtain ⟨a, rfl⟩ : ∃ a, l = [a] := List.length_eq_one_iff.mp (by
    have hpos := List.length_pos_of_mem ho
    omega)
  rw [List.mem_singleton.mp ho]

/-- The output that is destroyed has no monitor any more. -/
theorem Destroyed.not_connected (hd : Destroyed s o s') : s'.connected o = false := by
  have hended : ∀ t : OutputServer, t.ended.connected o = t.connected o := by
    intro t
    rw [OutputServer.ended]
    split
    · rfl
    · rfl
  cases hd with
  | replaced hrole hrun =>
    rw [hended]
    have hcg : ((s.detached o).sceneOutputCreate o).cg o =
        { (s.detached o).cg o with sceneOutput := some (s.detached o).top } :=
      Function.update_self ..
    have hdest : ((s.detached o).cg o).destroyed = true := by
      rw [detached]
      split
      · next h => exact h
      · rw [modify_cg_self]
    rw [OutputServer.connected, hcg]
    simp [hdest]
  | removed hrole c hc =>
    rw [hended, OutputServer.connected]
    simp

theorem Destroyed.outputs_subset (hd : Destroyed s o s') (hp : p ∈ s'.outputs) : p ∈ s.outputs := by
  have hended : ∀ t : OutputServer, t.ended.outputs = t.outputs := by
    intro t
    rw [OutputServer.ended]
    split
    · rfl
    · rfl
  cases hd with
  | replaced hrole hrun =>
    rw [hended] at hp
    have hp' : p ∈ (s.detached o).outputs := hp
    rwa [detached_lists.1] at hp'
  | removed hrole c hc =>
    rw [hended] at hp
    have hp' : p ∈ (s.detached o).outputs.erase o := hp
    rw [detached_lists.1] at hp'
    exact List.mem_of_mem_erase hp'

theorem Destroyed.same_name (hd : Destroyed s o s') : (s'.cg o).name = (s.cg o).name := by
  have hended : ∀ t : OutputServer, t.ended.cg = t.cg := by
    intro t
    rw [OutputServer.ended]
    split
    · rfl
    · rfl
  have hdet : ((s.detached o).cg o).name = (s.cg o).name := by
    rw [detached]
    split
    · rfl
    · rw [modify_cg_self]
  cases hd with
  | replaced hrole hrun =>
    have hcg : ((s.detached o).sceneOutputCreate o).cg o =
        { (s.detached o).cg o with sceneOutput := some (s.detached o).top } :=
      Function.update_self ..
    rw [hended, hcg, hdet]
  | removed hrole c hc =>
    rw [hended]
    exact hdet

theorem prepared_name : ((s.prepared o config).cg o).name = (s.cg o).name := by
  rw [prepared, modify_cg_self, withRole, modify_cg_self]

theorem renewBackground_name : ((s.renewBackground o).cg o).name = (s.cg o).name := by
  rw [renewBackground, modify_cg_self]

theorem Configured.same_name (hc : Configured s o config answer s') :
    (s'.cg o).name = (s.cg o).name := by
  cases hc with
  | destroyed hrole hd hdest => rw [hdest.same_name, withRole, modify_cg_self]
  | failed hdest hpos hmode c hc => exact prepared_name
  | disabled hstatus hlen c hc => exact renewBackground_name.trans prepared_name
  | kept hdest hlen hmode =>
    split
    · exact renewBackground_name.trans prepared_name
    · exact renewBackground_name.trans prepared_name

theorem Configured.effective (hc : Configured s o config answer s') (hs : s.Listed) :
    s'.effective o = s.effective o := by
  rw [OutputServer.effective, OutputServer.effective, (hc.alters hs).outputConfig, hc.same_name]

theorem Configured.heeded (hc : Configured s o config answer s') (hs : s.Listed)
    (hl : s.live o = true) (heff : s.effective o = config) (hok : s.Applies o config answer)
    (hconn : s'.connected o = true) : s'.Heeded o := by
  have heff' : s'.effective o = config := (hc.effective hs).trans heff
  have hmem := (hs.live_iff o).mp hl
  cases hc with
  | destroyed hrole hd hdest =>
    rw [hdest.not_connected] at hconn
    cases hconn
  | failed hdest hpos hmode c hc =>
    have hstatus := (hok.modes ⟨hdest, hpos, hmode⟩).1
    refine ⟨fun hne => ?_, fun _ => .inl disabledTo_mem⟩
    rw [heff'] at hne
    exact absurd hstatus hne
  | disabled hstatus hlen c hc =>
    refine ⟨fun hne => ?_, fun _ => .inl (disabledTo_mem (c := c))⟩
    rw [heff'] at hne
    exact absurd hstatus hne
  | kept hdest hlen hmode =>
    by_cases hprio : s.PrioChanged o config
    · rw [if_pos hprio] at heff' ⊢
      have hperm : (((s.prepared o config).unlink o).outputInsert o).outputs.Perm
          (o :: s.outputs.erase o) := outputInsert_perm
      refine ⟨fun _ => hperm.mem_iff.mpr List.mem_cons_self, fun hstatus => .inr ?_⟩
      rw [heff'] at hstatus
      have hshort : ¬ 1 < s.outputs.length := fun hlt => hlen ⟨hstatus, hlt⟩
      obtain ho | ho := hmem
      · rw [eq_singleton_of_length ho hshort, List.erase_cons_head] at hperm
        exact List.perm_singleton.mp hperm
      · exact absurd (hok.disabled hdest ho hstatus hprio) hshort
    · rw [if_neg hprio] at heff' ⊢
      refine ⟨fun hne => ?_, fun hstatus => ?_⟩
      · rw [heff'] at hne
        exact hmem.resolve_right fun ho => hprio (hok.enabled hdest ho hne).1
      · rw [heff'] at hstatus
        obtain ho | ho := hmem
        · exact .inr (eq_singleton_of_length ho fun hlt => hlen ⟨hstatus, hlt⟩)
        · exact .inl ho

theorem Configured.alone (hc : Configured s o config answer s') (hs : s.Listed)
    (hl : s.live o = true) (hok : s.Applies o config answer) (ho : o ∈ s'.outputs) :
    o ∈ s.outputs ∨ s.NoneHidden := by
  cases hc with
  | destroyed hrole hd hdest => exact .inl (hdest.outputs_subset ho)
  | failed hdest hpos hmode c hc => exact .inl (List.mem_of_mem_erase ho)
  | disabled hstatus hlen c hc => exact .inl (List.mem_of_mem_erase ho)
  | kept hdest hlen hmode =>
    split at ho
    · next hprio =>
      obtain hout | hdis := (hs.live_iff o).mp hl
      · exact .inl hout
      · by_cases hstatus : config.status = .disable
        · exact absurd ⟨hstatus, hok.disabled hdest hdis hstatus hprio⟩ hlen
        · exact .inr (hok.enabled hdest hdis hstatus).2
    · exact .inl ho

/-! ### Runs -/

/-- Every output with a monitor is in the right list, and has a name of its own. -/
structure Heeds (s : OutputServer) : Prop where
  heeded : ∀ o, s.connected o = true → s.Heeded o
  names : ∀ o p, s.live o = true → s.live p = true → (s.cg o).name = (s.cg p).name → o = p
  records : SingleRecords s.outputConfig

/-- What an event about `o` has to leave in order. -/
theorem Heeds.alter (hothers : ∀ p, p ≠ o → s.connected p = true → s.Heeded p)
    (hnames : ∀ q p, s.live q = true → s.live p = true → (s.cg q).name = (s.cg p).name → q = p)
    (hrecords : SingleRecords s.outputConfig) (hl : s.live o = true)
    (hname : (s'.cg o).name = (s.cg o).name) (ha : Alters s s' o) (hs' : s'.Listed)
    (halone : o ∈ s'.outputs → o ∈ s.outputs ∨ s.NoneHidden)
    (hself : s'.connected o = true → s'.Heeded o) : s'.Heeds := by
  refine ⟨fun p hp => ?_, fun q p hq hp hqp => ?_, by rw [ha.outputConfig]; exact hrecords⟩
  · by_cases hpo : p = o
    · subst hpo
      exact hself hp
    · have hconn := ha.connected hpo hp
      exact (hothers p hpo hconn).alter ha hs' hpo hconn halone
  · have hold : ∀ r, s'.live r = true → s.live r = true ∧ (s'.cg r).name = (s.cg r).name := by
      intro r hr
      by_cases hro : r = o
      · rw [hro]
        exact ⟨hl, hname⟩
      · exact ⟨ha.live r hro hr, by rw [ha.cg r hro]⟩
    rw [(hold q hq).2, (hold p hp).2] at hqp
    exact hnames q p (hold q hq).1 (hold p hp).1 hqp

/-- Nothing about the lists and the monitors has changed. -/
theorem Heeds.congr (h : s.Heeds) (hout : s'.outputs = s.outputs)
    (hdis : s'.disabledOutputs = s.disabledOutputs) (hlive : s'.live = s.live)
    (hname : ∀ p, (s'.cg p).name = (s.cg p).name)
    (hdest : ∀ p, (s'.cg p).destroyed = (s.cg p).destroyed)
    (hconfig : s'.outputConfig = s.outputConfig) : s'.Heeds := by
  have heff : ∀ p, s'.effective p = s.effective p := by
    intro p
    rw [effective, effective, hconfig, hname]
  refine ⟨fun p hp => ?_, fun q p hq hp hqp => ?_, by rw [hconfig]; exact h.records⟩
  · rw [connected, hlive, hdest] at hp
    obtain ⟨hshown, hhidden⟩ := h.heeded p hp
    rw [← heff p] at hshown hhidden
    rw [← hout] at hshown hhidden
    rw [← hdis] at hhidden
    exact ⟨hshown, hhidden⟩
  · rw [hlive] at hq hp
    rw [hname, hname] at hqp
    exact h.names q p hq hp hqp

/-- The commands and monitors after which the lists are right.

A configuration is applied to a disabled output only if it moves it to the list
its status asks for; an output is enabled only if no enabled output waits to be
disabled; and the names of the outputs are different. -/
def Obeyed (s : OutputServer) : OutputEvent → Prop
  | .configure cfg answer => ∀ o, s.named cfg.outputName = some o →
    (s.recorded cfg).Applies o ((s.recorded cfg).effective o) answer
  | .plug name answer =>
    (∀ o, s.waiting name = some o → (s.reinited o).Applies o (s.effective o) answer) ∧
    (s.waiting name = none → (∀ o, s.live o = true → (s.cg o).name ≠ name) ∧
      (s.added name).Applies s.top (totalConfig s.outputConfig name) answer ∧
      ((totalConfig s.outputConfig name).status ≠ .disable → s.NoneHidden))
  | _ => True

theorem alters_added : Alters s (s.added name) s.top where
  cg _ hp := added_cg_of_ne hp
  live p hp hl := by rwa [added_live_of_ne hp] at hl
  outputConfig := rfl
  outputs _ hp := outputInsert_perm.mem_iff.trans (List.mem_cons.trans (or_iff_right hp))
  disabled _ _ := Iff.rfl

theorem alters_createWorkspaces : Alters s (s.createWorkspaces o) o := by
  obtain ⟨hout, hdis, hlive, -, -⟩ := createWorkspaces_same (s := s) (o := o)
  have hconfig : (s.createWorkspaces o).outputConfig = s.outputConfig := by
    rw [createWorkspaces]
    split
    · rfl
    · rfl
  exact ⟨fun p hp => createWorkspaces_cg_of_ne hp, fun p _ hp => by rwa [hlive] at hp, hconfig,
    fun p _ => by rw [hout], fun p _ => by rw [hdis]⟩

theorem Heeds.configured (hothers : ∀ p, p ≠ o → s.connected p = true → s.Heeded p)
    (hnames : ∀ q p, s.live q = true → s.live p = true → (s.cg q).name = (s.cg p).name → q = p)
    (hrecords : SingleRecords s.outputConfig) (hs : s.Listed) (hl : s.live o = true)
    (heff : s.effective o = config) (hok : s.Applies o config answer)
    (hc : Configured s o config answer s') : s'.Heeds :=
  .alter hothers hnames hrecords hl hc.same_name (hc.alters hs) (hs.configured hl hc)
    (hc.alone hs hl hok) (hc.heeded hs hl heff hok)

theorem Heeds.destroyed (h : s.Heeds) (hs : s.Listed) (hl : s.live o = true)
    (hd : Destroyed s o s') : s'.Heeds := by
  refine .alter (fun p _ hp => h.heeded p hp) h.names h.records hl hd.same_name (hd.alters hs)
    (hs.destroyed hd) (fun ho => .inl (hd.outputs_subset ho)) fun hconn => ?_
  rw [hd.not_connected] at hconn
  cases hconn

/-- A command that is stored concerns the outputs of its name only. -/
theorem Heeds.recorded_others (h : s.Heeds) {cfg : OutputConfig}
    (hname : ∀ p, s.live p = true → p ≠ o → cfg.outputName ≠ some (s.cg p).name) :
    ∀ p, p ≠ o → (s.recorded cfg).connected p = true → (s.recorded cfg).Heeded p := by
  intro p hp hconn
  have hl : s.live p = true := (Bool.and_eq_true_iff.mp hconn).1
  have heff : (s.recorded cfg).effective p = s.effective p :=
    totalConfig_storeConfig_of_ne (hname p hl hp)
  obtain ⟨hshown, hhidden⟩ := h.heeded p hconn
  rw [← heff] at hshown hhidden
  exact ⟨hshown, hhidden⟩

theorem not_named {cfg : OutputConfig} (h : s.named cfg.outputName = none)
    (hp : p ∈ s.outputs ∨ p ∈ s.disabledOutputs) : cfg.outputName ≠ some (s.cg p).name := by
  rw [named, Option.or_eq_none_iff, List.find?_eq_none, List.find?_eq_none] at h
  intro hname
  obtain hp | hp := hp
  · exact h.1 p hp (by simp [hname])
  · exact h.2 p hp (by simp [hname])

/-- A new output is enabled beside others only if none of them waits to be
disabled. -/
theorem added_alone (hs : s.Listed) (hnone : config.status ≠ .disable → s.NoneHidden)
    (hc : Configured (s.added name) s.top config answer s') (ho : s.top ∈ s'.outputs) :
    s.NoneHidden := by
  by_cases hstatus : config.status = .disable
  · cases hc with
    | destroyed hrole hd hdest =>
      rw [added_cg_self] at hd
      cases hd
    | failed hdest hpos hmode c hc => exact absurd rfl (hs.added.prepared.mem_unlink.1.mp ho).1
    | disabled hst hlen c hc => exact absurd rfl (hs.added.prepared.mem_unlink.1.mp ho).1
    | kept hdest hlen hmode =>
      have hperm : (s.added name).outputs.Perm (s.top :: s.outputs) := outputInsert_perm
      have hshort : ¬ 1 < (s.added name).outputs.length := fun hlt => hlen ⟨hstatus, hlt⟩
      rw [hperm.length_eq, List.length_cons] at hshort
      have hnil : s.outputs = [] := List.length_eq_zero_iff.mp (by omega)
      intro p hp
      rw [hnil] at hp
      cases hp
  · exact hnone hstatus

theorem Heeds.added (h : s.Heeds) (hs : s.Listed)
    (hfresh : ∀ o, s.live o = true → (s.cg o).name ≠ name)
    (hok : (s.added name).Applies s.top (totalConfig s.outputConfig name) answer)
    (hnone : (totalConfig s.outputConfig name).status ≠ .disable → s.NoneHidden)
    (hc : Configured (s.added name) s.top (totalConfig s.outputConfig name) answer s') :
    (s'.createWorkspaces s.top).Heeds := by
  have hs' := hs.added.configured added_live_self hc
  have ha : Alters s (s'.createWorkspaces s.top) s.top :=
    alters_added.trans ((hc.alters hs.added).trans alters_createWorkspaces)
  obtain ⟨hout, hdis, hlive, -, -⟩ := createWorkspaces_same (s := s') (o := s.top)
  have hname : ((s'.createWorkspaces s.top).cg s.top).name = name := by
    rw [createWorkspaces_field (g := CgOutput.name) fun _ _ _ => rfl, hc.same_name, added_cg_self]
    rfl
  have halone : s.top ∈ (s'.createWorkspaces s.top).outputs →
      s.top ∈ s.outputs ∨ s.NoneHidden := by
    intro ho
    rw [hout] at ho
    exact .inr (added_alone hs hnone hc ho)
  have heff : (s.added name).effective s.top = totalConfig s.outputConfig name := by
    rw [effective, added_cg_self]
    rfl
  refine ⟨fun p hp => ?_, fun q p hq hp hqp => ?_, by rw [ha.outputConfig]; exact h.records⟩
  · by_cases hpo : p = s.top
    · subst hpo
      have hconn : s'.connected s.top = true := by
        rw [connected, hlive,
          createWorkspaces_field (g := CgOutput.destroyed) fun _ _ _ => rfl] at hp
        exact hp
      obtain ⟨hshown, hhidden⟩ := hc.heeded hs.added added_live_self heff hok hconn
      have hsame : (s'.createWorkspaces s.top).effective s.top = s'.effective s.top := by
        rw [effective, effective, hname, hc.same_name, added_cg_self,
          (alters_createWorkspaces (s := s') (o := s.top)).outputConfig]
        rfl
      rw [← hsame, ← hout] at hshown hhidden
      rw [← hdis] at hhidden
      exact ⟨hshown, hhidden⟩
    · have hconn := ha.connected hpo hp
      exact (h.heeded p hconn).alter ha hs'.createWorkspaces hpo hconn halone
  · have hold : ∀ r, r ≠ s.top → (s'.createWorkspaces s.top).live r = true →
        s.live r = true ∧ ((s'.createWorkspaces s.top).cg r).name = (s.cg r).name := fun r hr hl =>
      ⟨ha.live r hr hl, by rw [ha.cg r hr]⟩
    by_cases hqt : q = s.top
    · by_cases hpt : p = s.top
      · rw [hqt, hpt]
      · obtain ⟨hl, hpname⟩ := hold p hpt hp
        rw [hqt, hname, hpname] at hqp
        exact absurd hqp.symm (hfresh p hl)
    · obtain ⟨hl, hqname⟩ := hold q hqt hq
      by_cases hpt : p = s.top
      · rw [hpt, hname, hqname] at hqp
        exact absurd hqp (hfresh q hl)
      · obtain ⟨hl', hpname⟩ := hold p hpt hp
        rw [hqname, hpname] at hqp
        exact h.names q p hl hl' hqp

theorem step_heeds (h : s.Heeds) (hs : s.Listed) (hok : s.Obeyed e) :
    Meets (s.step e) (fun _ => True) Heeds := by
  have hlive : ∀ p, p ∈ s.outputs ∨ p ∈ s.disabledOutputs → s.live p = true := fun p hp =>
    (hs.live_iff p).mpr hp
  cases e with
  | plug name answer =>
    show Meets (s.handleNewOutput name answer) _ _
    rw [handleNewOutput]
    cases hw : s.waiting name with
    | some o =>
      have hl := hlive o (.inl (waiting_mem hw).1)
      have hname : ∀ p, ((s.reinited o).cg p).name = (s.cg p).name := by
        intro p
        by_cases hpo : p = o
        · rw [hpo, reinited_cg_self]
        · rw [reinited_cg_of_ne hpo]
      -- the records and the other outputs are as they were
      have hothers : ∀ p, p ≠ o → (s.reinited o).connected p = true → (s.reinited o).Heeded p := by
        intro p hp hconn
        rw [connected, reinited_cg_of_ne hp] at hconn
        obtain ⟨hshown, hhidden⟩ := h.heeded p hconn
        have heff : (s.reinited o).effective p = s.effective p := by
          rw [effective, effective, hname]
          rfl
        rw [← heff] at hshown hhidden
        exact ⟨hshown, hhidden⟩
      refine (reinitOutput_spec hl).mono (fun _ _ => trivial) fun s' hs' =>
        .configured hothers (fun q p hq hp hqp => ?_) h.records hs.reinited hl ?_ (hok.1 o hw) hs'
      · rw [hname, hname] at hqp
        exact h.names q p hq hp hqp
      · rw [effective, hname]
        rfl
    | none =>
      obtain ⟨hfresh, happ, hnone⟩ := hok.2 hw
      refine addOutput_spec.mono (fun _ _ => trivial) ?_
      rintro _ ⟨s₁, hs₁, rfl⟩
      exact h.added hs hfresh happ hnone hs₁
  | unplug o =>
    refine Meets.ite (fun hc => ?_) fun _ => Meets.ok h
    have hl : s.live o = true := (Bool.and_eq_true_iff.mp hc).1
    exact (outputDestroy_spec hl).mono (fun _ _ => trivial) fun s' hs' => h.destroyed hs hl hs'
  | configure cfg answer =>
    have hsrec : (s.recorded cfg).Listed := hs.congr rfl rfl rfl le_rfl hs.nws
    have hrecords : SingleRecords (s.recorded cfg).outputConfig := h.records.storeConfig
    refine (keybindingConfigureOutput_spec hlive).mono (fun _ _ => trivial) ?_
    rintro s' (⟨hnone, rfl⟩ | ⟨o, ho, hs'⟩)
    -- the record is for an output that is not there
    · refine ⟨fun p hp => ?_, h.names, hrecords⟩
      have hl : s.live p = true := (Bool.and_eq_true_iff.mp hp).1
      exact h.recorded_others (fun q hq _ => not_named hnone ((hs.live_iff q).mp hq)) p
        (hs.fresh p hl).ne hp
    -- names are unique, so no other output heeds the record
    · have hl := hlive o (named_mem ho).1
      refine .configured (h.recorded_others fun p hp hpo hname => ?_) h.names hrecords hsrec hl rfl
        (hok o ho) hs'
      rw [← (named_mem ho).2] at hname
      exact hpo (h.names p o hp hl (Option.some.inj hname).symm)
  | workspaces nws =>
    refine (keybindingSetNws_spec nws.2.1 hs.outputs fun p hp => hlive p (.inl hp)).mono
      (fun _ _ => trivial) ?_
    rintro _ ⟨cg, hcg, rfl⟩
    exact h.congr rfl rfl rfl (fun p => (hcg.same p).name) (fun p => (hcg.same p).destroyed) rfl
  | cycleOutputs reverse =>
    refine (keybindingCycleOutputs_spec reverse).mono (fun _ _ => trivial) ?_
    rintro _ ⟨c, -, rfl⟩
    exact h.congr rfl rfl rfl (fun _ => rfl) (fun _ => rfl) rfl
  | switchOutput output =>
    refine (keybindingSwitchOutput_spec output).mono (fun _ _ => trivial) ?_
    rintro _ (rfl | ⟨c, -, rfl⟩)
    · exact h
    · exact h.congr rfl rfl rfl (fun _ => rfl) (fun _ => rfl) rfl
  | switchWs ws =>
    refine (keybindingSwitchWs_spec ws).mono (fun _ _ => trivial) ?_
    rintro _ (rfl | ⟨-, o, -, rfl⟩)
    · exact h
    · have hsame : ∀ {α : Type} (g : CgOutput → α), (∀ c i, g { c with currWorkspace := i } = g c) →
          ∀ p, g ((s.modify o fun c => { c with currWorkspace := ws }).cg p) = g (s.cg p) := by
        intro α g hg p
        by_cases hpo : p = o
        · rw [hpo, modify_cg_self, hg]
        · rw [modify_cg_of_ne hpo]
      exact h.congr rfl rfl rfl (hsame CgOutput.name fun _ _ => rfl)
        (hsame CgOutput.destroyed fun _ _ => rfl) rfl
  | quit => exact Meets.ok (h.congr rfl rfl rfl (fun _ => rfl) (fun _ => rfl) rfl)

/-- A command that leaves the merged status as it is does not enable or disable
the output. -/
theorem Configured.mem_outputs_iff (hc : Configured s o config answer s') (hs : s.Listed)
    (hl : s.live o = true) (heff : s.effective o = config) (hok : s.Applies o config answer)
    (h : s.Heeded o) (hconn : s'.connected o = true) : o ∈ s'.outputs ↔ o ∈ s.outputs := by
  have hnew := hc.heeded hs hl heff hok hconn
  have heff' : s'.effective o = config := (hc.effective hs).trans heff
  by_cases hstatus : config.status = .disable
  · have hhidden := h.hidden (by rw [heff, hstatus])
    cases hc with
    | destroyed hrole hd hdest =>
      rw [hdest.not_connected] at hconn
      cases hconn
    | failed hdest hpos hmode c hc =>
      have hdis := hhidden.resolve_right (hok.modes ⟨hdest, hpos, hmode⟩).2
      refine iff_of_false (fun ho => ?_) fun ho => hs.disjoint o ho hdis
      exact (hs.prepared.mem_unlink.1.mp ho).1 rfl
    | disabled hst hlen c hc =>
      have hdis := hhidden.resolve_right fun honly => absurd hlen (by simp [honly])
      refine iff_of_false (fun ho => ?_) fun ho => hs.disjoint o ho hdis
      exact (hs.prepared.mem_unlink.1.mp ho).1 rfl
    | kept hdest hlen hmode =>
      by_cases hprio : s.PrioChanged o config
      · rw [if_pos hprio]
        refine iff_of_true (outputInsert_perm.mem_iff.mpr List.mem_cons_self) ?_
        obtain hdis | honly := hhidden
        · exact absurd ⟨hstatus, hok.disabled hdest hdis hstatus hprio⟩ hlen
        · rw [honly]
          exact List.mem_singleton_self o
      · rw [if_neg hprio]
        rfl
  · refine iff_of_true (hnew.shown ?_) (h.shown ?_)
    · rwa [heff']
    · rwa [heff]

theorem init_heeds (prios : List (Text × ℤ)) : (init prios).Heeds where
  heeded _ ho := nomatch ho
  names _ _ hq := nomatch hq
  records _ := Nat.zero_le _

/-- **The lists follow the configuration.**  In every run whose commands and
monitors are of the kind described by `Obeyed`, each output with a monitor whose
merged status is not `disable` is enabled, and each other one is disabled or the
only enabled output.  Such a command that enables an output puts it into the list
of the enabled ones, and one that gives no status changes the list of no
output. -/
theorem outputs_enabled {prios : List (Text × ℤ)} (hs : Runs step Obeyed (init prios) s) :
    (∀ o, s.connected o = true →
      ((s.effective o).status ≠ .disable → o ∈ s.outputs) ∧
      ((s.effective o).status = .disable → o ∈ s.disabledOutputs ∨ s.outputs = [o])) ∧
    ∀ cfg answer s', s.Obeyed (.configure cfg answer) → s.step (.configure cfg answer) = .ok s' →
      (cfg.status = .enable → ∀ o, s.named cfg.outputName = some o → s'.connected o = true →
        o ∈ s'.outputs) ∧
      (cfg.status = .default → ∀ o, s.connected o = true → s'.connected o = true →
        (o ∈ s'.outputs ↔ o ∈ s.outputs)) := by
  have hinit : (init prios).Listed ∧ (init prios).Heeds := ⟨init_listed prios, init_heeds prios⟩
  obtain ⟨hlisted, h⟩ : s.Listed ∧ s.Heeds := by
    refine hs.invariant (E := fun _ => True) (I := fun s => s.Listed ∧ s.Heeds) hinit
      fun t e ht hok => ?_
    have hl := step_listed (e := e) ht.1
    have hh := step_heeds ht.2 ht.1 hok
    cases hst : t.step e with
    | error err => exact Meets.error trivial
    | ok t' => exact Meets.ok ⟨hl.of_ok hst, hh.of_ok hst⟩
  have hlive : ∀ p, p ∈ s.outputs ∨ p ∈ s.disabledOutputs → s.live p = true := fun p hp =>
    (hlisted.live_iff p).mpr hp
  refine ⟨fun o ho => ⟨(h.heeded o ho).shown, (h.heeded o ho).hidden⟩,
    fun cfg answer s' hok hst => ?_⟩
  have hsrec : (s.recorded cfg).Listed := hlisted.congr rfl rfl rfl le_rfl hlisted.nws
  have hspec := (keybindingConfigureOutput_spec hlive).of_ok hst
  constructor
  · intro hstatus o ho hconn
    obtain ⟨hnone, -⟩ | ⟨q, hq, hc⟩ := hspec
    · rw [hnone] at ho
      cases ho
    · obtain rfl : q = o := Option.some.inj (hq.symm.trans ho)
      have hl := hlive q (named_mem hq).1
      refine (hc.heeded hsrec hl rfl (hok q hq) hconn).shown ?_
      rw [hc.effective hsrec, effective]
      show (totalConfig (storeConfig s.outputConfig cfg) (s.cg q).name).status ≠ .disable
      rw [totalConfig_storeConfig_status (named_mem hq).2.symm h.records, hstatus, if_neg nofun]
      exact nofun
  · intro hstatus o ho hconn
    obtain ⟨-, rfl⟩ | ⟨q, hq, hc⟩ := hspec
    · rfl
    · by_cases hoq : o = q
      · subst hoq
        have hl := hlive o (named_mem hq).1
        -- a record without a status leaves the effective one as it is
        have hsame : ((s.recorded cfg).effective o).status = (s.effective o).status := by
          show (totalConfig (storeConfig s.outputConfig cfg) (s.cg o).name).status = _
          rw [totalConfig_storeConfig_status (named_mem hq).2.symm h.records, if_pos hstatus]
          rfl
        have hheeded : (s.recorded cfg).Heeded o := by
          obtain ⟨hshown, hhidden⟩ := h.heeded o ho
          rw [← hsame] at hshown hhidden
          exact ⟨hshown, hhidden⟩
        exact hc.mem_outputs_iff hsrec hl rfl (hok o hq) hheeded hconn
      · exact (hc.alters hsrec).outputs o hoq

/-- A monitor whose name no output has. -/
theorem obeyed_plug {name : Text} {answer : OutputAnswer} (h : s.Listed)
    (hw : s.waiting name = none)
    (hnames : ∀ o ∈ s.outputs ++ s.disabledOutputs, (s.cg o).name ≠ name)
    (ha : (s.added name).Applies s.top (totalConfig s.outputConfig name) answer)
    (hn : s.NoneHidden) : s.Obeyed (.plug name answer) := by
  constructor
  · intro o ho
    rw [hw] at ho
    cases ho
  · intro _
    refine ⟨fun o hl => hnames o ?_, ha, fun _ => hn⟩
    exact List.mem_append.mpr ((h.live_iff o).mp hl)

/-- With two monitors, a mode is accepted for the first of them, and `output B disable`
hides the other. -/
theorem outputs_enabled_first : ∃ s, Runs step Obeyed (init []) s ∧ 0 ∈ s.outputs ∧
    (2 ∈ s.disabledOutputs ∨ s.outputs = [2]) := by
  have hret : returns ((init []).step (.plug (ascii "A") agrees)) (fun s₁ =>
      decide (s₁.waiting (ascii "B") = none ∧
        (∀ o ∈ s₁.outputs ++ s₁.disabledOutputs, (s₁.cg o).name ≠ ascii "B") ∧
        (s₁.added (ascii "B")).Applies s₁.top (totalConfig s₁.outputConfig (ascii "B")) agrees ∧
        s₁.NoneHidden) &&
      returns (s₁.step (.plug (ascii "B") agrees)) fun s₂ =>
        decide (∀ o ∈ s₂.named (some (ascii "A")), (s₂.recorded modeForA).Applies o
          ((s₂.recorded modeForA).effective o) agrees) &&
        returns (s₂.step (.configure modeForA agrees)) fun s₃ =>
          decide (∀ o ∈ s₃.named (some (ascii "B")), (s₃.recorded hideB).Applies o
            ((s₃.recorded hideB).effective o) agrees) &&
          returns (s₃.step (.configure hideB agrees)) fun s =>
            s.connected 0 && decide ((s.effective 0).status ≠ .disable) && s.connected 2 &&
              decide ((s.effective 2).status = .disable)) = true := by
    decide
  obtain ⟨s₁, h₁, htest⟩ := exists_of_returns hret
  rw [Bool.and_eq_true, decide_eq_true_eq] at htest
  obtain ⟨⟨hw, hnames, happlies, hhidden⟩, htest⟩ := htest
  obtain ⟨s₂, h₂, htest⟩ := exists_of_returns htest
  rw [Bool.and_eq_true, decide_eq_true_eq] at htest
  obtain ⟨hmode, htest⟩ := htest
  obtain ⟨s₃, h₃, htest⟩ := exists_of_returns htest
  rw [Bool.and_eq_true, decide_eq_true_eq] at htest
  obtain ⟨hhide, htest⟩ := htest
  obtain ⟨s, h, htest⟩ := exists_of_returns htest
  simp only [Bool.and_eq_true, decide_eq_true_eq] at htest
  obtain ⟨⟨⟨h0, hstatus0⟩, h2⟩, hstatus2⟩ := htest
  have hfirst : (init []).Obeyed (.plug (ascii "A") agrees) :=
    obeyed_plug (init_listed []) rfl (by decide) (by decide) (by decide)
  have hlisted : s₁.Listed := (step_listed (init_listed [])).of_ok h₁
  have hsecond := obeyed_plug hlisted hw hnames happlies hhidden
  have hmode : s₂.Obeyed (.configure modeForA agrees) := hmode
  have hhide : s₃.Obeyed (.configure hideB agrees) := hhide
  have hrun : Runs step Obeyed (init []) s :=
    (((Runs.tail .refl hfirst h₁).tail hsecond h₂).tail hmode h₃).tail hhide h
  obtain ⟨hlists, -⟩ := outputs_enabled hrun
  exact ⟨s, hrun, (hlists 0 h0).1 hstatus0, (hlists 2 h2).2 hstatus2⟩

/-- `output B enable`, after `output B disable`. -/
def disabledThenEnabled : List OutputEvent :=
  [.plug (ascii "A") agrees, .plug (ascii "B") agrees,
    .configure { emptyOutputConfig with outputName := some (ascii "B"), status := .disable } agrees,
    .configure { emptyOutputConfig with outputName := some (ascii "B"), status := .enable } agrees]

/-- The output stays disabled. -/
theorem outputs_enabled_again : ∃ s, Runs step (fun _ _ => True) (init []) s ∧
    s.connected 2 = true ∧ (s.effective 2).status = .enable ∧ 2 ∉ s.outputs ∧
    2 ∈ s.disabledOutputs := by
  have hret : returns (disabledThenEnabled.foldlM step (init [])) (fun s =>
      s.connected 2 && decide ((s.effective 2).status = .enable) && decide (2 ∉ s.outputs) &&
        decide (2 ∈ s.disabledOutputs)) = true := by decide
  obtain ⟨s, hs, htest⟩ := exists_of_returns hret
  simp only [Bool.and_eq_true, decide_eq_true_eq] at htest
  exact ⟨s, Runs.of_foldlM hs, htest.1.1.1, htest.1.1.2, htest.1.2, htest.2⟩

end OutputServer

end Cagebreak
