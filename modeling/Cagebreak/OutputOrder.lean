/-
The order of the outputs.

`server->outputs` is kept sorted by priority, and `screen n` counts in this order.
An output comes into the list through `output_insert` only; its priority is
overwritten while it is in the list, and then it is linked anew
(`configured_placed`).  After the configuration file has been read, `main` empties
the list and inserts every output again.
-/
import Cagebreak.Lib.Ranking
import Cagebreak.OutputLists

namespace Cagebreak

open Outcome Ranking

/-- What changes the list of outputs: the events, and the sorting in `main` with
the answers of the backend for each output. -/
inductive OrderEvent
  | output (e : OutputEvent)
  | resort (answer : ℕ → OutputAnswer)

namespace OutputServer

variable {s s' : OutputServer} {o p : ℕ} {config : OutputConfig} {answer : OutputAnswer}
  {name : Text}

/-- `output->priority`. -/
def priority (s : OutputServer) (o : ℕ) : ℤ := (s.cg o).priority

/-- `output_insert` and `output_configure` for one output of the old list. -/
def sortIn (answer : ℕ → OutputAnswer) (s : OutputServer) (o : ℕ) : OutputExec OutputServer :=
  (s.outputInsert o).outputConfigure o (answer o)

/-- The sorting in `main`.  The current output is the container of what follows
the head of the list, which is not an output if the list is empty. -/
def resort (s : OutputServer) (answer : ℕ → OutputAnswer) : OutputExec OutputServer := do
  let s ← s.outputs.foldlM (sortIn answer) { s with outputs := [] }
  match s.outputs with
  | o :: _ => .ok { s with currOutput := some o }
  | [] => .ok { s with top := s.top + 1, currOutput := some s.top }

/-- Handle an event, or sort the outputs. -/
def orderStep (s : OutputServer) : OrderEvent → OutputExec OutputServer
  | .output e => s.step e
  | .resort answer => s.resort answer

/-- No output stands before one of a higher priority. -/
def Sorted (s : OutputServer) : Prop := Ranked s.priority s.outputs

/-! ### The place of an output after one routine -/

/-- What a routine for the output `o` does to the order. -/
inductive Placed (s : OutputServer) (o : ℕ) (s' : OutputServer) : Prop
  | kept (hout : s'.outputs = s.outputs) (hprio : ∀ p, s'.priority p = s.priority p)
  | left (hout : s'.outputs = s.outputs.erase o) (hprio : ∀ p, p ≠ o → s'.priority p = s.priority p)
  | moved (hout : s'.outputs = rankedInsert s'.priority o (s.outputs.erase o))
      (hprio : ∀ p, p ≠ o → s'.priority p = s.priority p) (hchanged : s'.priority o ≠ s.priority o)

theorem Placed.congr {t : OutputServer} (h : Placed t o s') (hout : t.outputs = s.outputs)
    (hprio : ∀ p, t.priority p = s.priority p) : Placed s o s' := by
  cases h with
  | kept h h' => exact .kept (h.trans hout) fun p => (h' p).trans (hprio p)
  | left h h' => exact .left (by rw [h, hout]) fun p hp => (h' p hp).trans (hprio p)
  | moved h h' hne =>
    refine .moved (by rw [h, hout]) (fun p hp => (h' p hp).trans (hprio p)) ?_
    rw [← hprio o]
    exact hne

theorem Sorted.placed (h : s.Sorted) (hnd : s.outputs.Nodup) (hp : Placed s o s') : s'.Sorted := by
  -- the priority of `o` has changed, but the output is not in the rest of the list
  have hrest : (∀ p, p ≠ o → s'.priority p = s.priority p) →
      Ranked s'.priority (s.outputs.erase o) := by
    intro hprio
    refine (Ranked.sublist h List.erase_sublist).congr fun p hp => hprio p ?_
    exact (hnd.mem_erase_iff.mp hp).1
  rw [Sorted]
  cases hp with
  | kept hout hprio =>
    rw [hout]
    exact Ranked.congr h fun p _ => hprio p
  | left hout hprio =>
    rw [hout]
    exact hrest hprio
  | moved hout hprio hne =>
    rw [hout]
    exact (hrest hprio).insert o

theorem Placed.others (h : Placed s o s') (hp : p ≠ o) : s'.priority p = s.priority p := by
  cases h with
  | kept hout hprio => exact hprio p
  | left hout hprio => exact hprio p hp
  | moved hout hprio hne => exact hprio p hp

/-- Unless a priority changes, the outputs that stay keep their order. -/
theorem Placed.sublist (h : Placed s o s') (hprio : ∀ p, s'.priority p = s.priority p) :
    s'.outputs.Sublist s.outputs := by
  cases h with
  | kept hout =>
    rw [hout]
  | left hout =>
    rw [hout]
    exact List.erase_sublist
  | moved hout hprio' hne => exact absurd (hprio o) hne

/-- Changing an output in another field keeps its priority. -/
theorem modify_priority {f : CgOutput → CgOutput} (h : (f (s.cg o)).priority = (s.cg o).priority) :
    (s.modify o f).priority p = s.priority p := by
  rw [priority]
  by_cases hp : p = o
  · subst hp
    rw [modify_cg_self, h]
    rfl
  · rw [modify_cg_of_ne hp]
    rfl

theorem ended_outputs : s.ended.outputs = s.outputs := by
  rw [ended]
  split
  · rfl
  · rfl

theorem ended_priority : s.ended.priority p = s.priority p := by
  rw [ended]
  split
  · rfl
  · rfl

theorem detached_priority : (s.detached o).priority p = s.priority p := by
  rw [detached]
  split
  · rfl
  · exact modify_priority rfl

theorem sceneOutputCreate_priority : (s.sceneOutputCreate o).priority p = s.priority p := by
  show (s.modify o fun c => { c with sceneOutput := some s.top }).priority p = s.priority p
  exact modify_priority rfl

theorem destroyed_placed (h : Destroyed s o s') : Placed s o s' := by
  cases h with
  | replaced hrole hrun =>
    refine .kept (ended_outputs.trans detached_lists.1) fun p => ended_priority.trans ?_
    exact sceneOutputCreate_priority.trans detached_priority
  | removed hrole c hc =>
    refine .left (ended_outputs.trans ?_) fun p _ => ended_priority.trans detached_priority
    show (s.detached o).outputs.erase o = s.outputs.erase o
    rw [detached_lists.1]

theorem withRole_priority : (s.withRole o config).priority p = s.priority p := modify_priority rfl

theorem prepared_priority (h : p ≠ o) : (s.prepared o config).priority p = s.priority p := by
  rw [priority, prepared, modify_cg_of_ne h]
  exact withRole_priority

theorem prepared_priority_self : (s.prepared o config).priority o =
    if config.priority ≠ -1 then config.priority else s.priority o := by
  rw [priority, prepared, modify_cg_self]
  simp only [withRole, modify_cg_self]
  rfl

theorem renewBackground_priority : (s.renewBackground o).priority p = s.priority p :=
  modify_priority rfl

/-- **One configuration.**  An output whose priority changes is linked anew unless
it leaves the list. -/
theorem configured_placed (h : Configured s o config answer s') : Placed s o s' := by
  cases h with
  | destroyed hrole hd hdest => exact (destroyed_placed hdest).congr rfl fun p => withRole_priority
  | failed hdest hpos hmode c hc => exact .left rfl fun p hp => prepared_priority hp
  | disabled hstatus hlen c hc =>
    exact .left rfl fun p hp => renewBackground_priority.trans (prepared_priority hp)
  | kept hdest hlen hmode =>
    by_cases hchanged : s.PrioChanged o config
    · rw [if_pos hchanged]
      have hprio : ∀ p, ((((s.prepared o config).unlink o).outputInsert o).renewBackground
          o).priority p = (s.prepared o config).priority p := fun p => renewBackground_priority
      refine .moved ?_ (fun p hp => (hprio p).trans (prepared_priority hp)) ?_
      · rw [funext hprio]
        rfl
      · rw [hprio, prepared_priority_self, if_pos hchanged.1]
        exact hchanged.2.symm
    · rw [if_neg hchanged]
      refine .kept rfl fun p => renewBackground_priority.trans ?_
      by_cases hp : p = o
      · subst hp
        rw [prepared_priority_self]
        split
        · next hset => exact (not_not.mp fun hne => hchanged ⟨hset, Ne.symm hne⟩)
        · rfl
      · exact prepared_priority hp

/-! ### The events -/

theorem added_ranked (h : s.Sorted) (hs : s.Listed) : (s.added name).Sorted := by
  have hfresh : s.top ∉ s.outputs := fun ho =>
    absurd (hs.fresh _ ((hs.live_iff _).mpr (.inl ho))) (Nat.lt_irrefl _)
  -- the new output has its priority before it is inserted
  have hold : Ranked (s.added name).priority s.outputs := by
    refine Ranked.congr h fun p hp => ?_
    show ((s.added name).cg p).priority = s.priority p
    rw [added_cg_of_ne (ne_of_mem_of_not_mem hp hfresh)]
    rfl
  exact hold.insert s.top

theorem createWorkspaces_priority : (s.createWorkspaces o).priority p = s.priority p :=
  createWorkspaces_field (g := CgOutput.priority) fun _ _ _ => rfl

/-- What a `configure` event does to the order. -/
theorem configure_placed {cfg : OutputConfig} {t : OutputServer} (hs : s.Listed)
    (h : s.step (.configure cfg answer) = .ok t) :
    (t.outputs = s.outputs ∧ ∀ p, t.priority p = s.priority p) ∨ ∃ o, Placed s o t := by
  have hlive : ∀ p, p ∈ s.outputs ∨ p ∈ s.disabledOutputs → s.live p = true := fun p hp =>
    (hs.live_iff p).mpr hp
  obtain ⟨-, rfl⟩ | ⟨o, -, ho⟩ := (keybindingConfigureOutput_spec hlive).of_ok h
  · exact .inl ⟨rfl, fun _ => rfl⟩
  · exact .inr ⟨o, (configured_placed ho).congr rfl fun _ => rfl⟩

theorem step_sorted {e : OutputEvent} {t : OutputServer} (hs : s.Listed) (h : s.Sorted)
    (ht : s.step e = .ok t) : t.Sorted := by
  have hlive : ∀ p, p ∈ s.outputs ∨ p ∈ s.disabledOutputs → s.live p = true := fun p hp =>
    (hs.live_iff p).mpr hp
  cases e with
  | plug name answer =>
    have hplug : s.handleNewOutput name answer = .ok t := ht
    rw [handleNewOutput] at hplug
    cases hw : s.waiting name with
    | some o =>
      rw [hw] at hplug
      have hconf := (reinitOutput_spec (hlive o (.inl (waiting_mem hw).1))).of_ok hplug
      have hplaced : Placed s o t := by
        refine (configured_placed hconf).congr rfl fun p => ?_
        refine (modify_priority ?_).trans sceneOutputCreate_priority
        rfl
      exact h.placed hs.outputs hplaced
    | none =>
      rw [hw] at hplug
      obtain ⟨s₁, hconf, rfl⟩ := addOutput_spec.of_ok hplug
      have hsorted := (added_ranked h hs).placed hs.added.outputs (configured_placed hconf)
      rw [Sorted, createWorkspaces_same.1]
      exact Ranked.congr hsorted fun p _ => createWorkspaces_priority
  | unplug o =>
    have hunplug : (if s.connected o then s.outputDestroy o else .ok s) = .ok t := ht
    by_cases hc : s.connected o = true
    · rw [if_pos hc] at hunplug
      have hl : s.live o = true := (Bool.and_eq_true_iff.mp hc).1
      exact h.placed hs.outputs (destroyed_placed ((outputDestroy_spec hl).of_ok hunplug))
    · rw [if_neg hc] at hunplug
      cases hunplug
      exact h
  | configure cfg answer =>
    obtain ⟨hout, hprio⟩ | ⟨o, ho⟩ := configure_placed hs ht
    · exact h.placed hs.outputs (.kept (o := 0) hout hprio)
    · exact h.placed hs.outputs ho
  | workspaces nws =>
    obtain ⟨cg, hcg, rfl⟩ :=
      (keybindingSetNws_spec nws.2.1 hs.outputs fun p hp => hlive p (.inl hp)).of_ok ht
    exact Ranked.congr h fun p _ => (hcg.same p).priority
  | cycleOutputs reverse =>
    obtain ⟨c, -, rfl⟩ := (keybindingCycleOutputs_spec reverse).of_ok ht
    exact h
  | switchOutput output =>
    obtain rfl | ⟨c, -, rfl⟩ := (keybindingSwitchOutput_spec output).of_ok ht
    · exact h
    · exact h
  | switchWs ws =>
    obtain rfl | ⟨-, o, -, rfl⟩ := (keybindingSwitchWs_spec ws).of_ok ht
    · exact h
    · exact Ranked.congr h fun p _ => modify_priority rfl
  | quit =>
    cases ht
    exact h

/-! ### Sorting in `main` -/

/-- The server with the outputs that still wait to be inserted. -/
def beside (s : OutputServer) (rest : List ℕ) : OutputServer :=
  { s with outputs := s.outputs ++ rest }

theorem Listed.of_perm (h : s.Listed) (hout : s'.outputs.Perm s.outputs)
    (hdis : s'.disabledOutputs = s.disabledOutputs) (hlive : s'.live = s.live)
    (htop : s.top ≤ s'.top) (hnws : s'.nws = s.nws) : s'.Listed := by
  refine ⟨hout.nodup_iff.mpr h.outputs, ?_, fun p hp => ?_, fun p => ?_, fun p hp => ?_, ?_⟩
  · rw [hdis]
    exact h.disabled
  · rw [hdis]
    exact h.disjoint p (hout.mem_iff.mp hp)
  · rw [hdis, hlive, hout.mem_iff]
    exact h.live_iff p
  · rw [hlive] at hp
    exact (h.fresh p hp).trans_le htop
  · rw [hnws]
    exact h.nws

theorem Listed.ended_beside {rest : List ℕ} (h : (s.beside rest).Listed) :
    (s.ended.beside rest).Listed := by
  rw [OutputServer.ended]
  split
  · exact h.of_perm (.refl _) rfl rfl le_rfl rfl
  · exact h

theorem Listed.destroyed_beside {rest : List ℕ} (h : (s.beside rest).Listed) (ho : o ∈ s.outputs)
    (hd : Destroyed s o s') : (s'.beside rest).Listed := by
  obtain ⟨hout, hdis, htop⟩ := detached_lists (s := s) (o := o)
  cases hd with
  | replaced hrole hrun =>
    have hnew : (((s.detached o).sceneOutputCreate o).beside rest).Listed := by
      refine h.of_perm ?_ hdis detached_live ?_ detached_nws
      · show ((s.detached o).outputs ++ rest).Perm _
        rw [hout]
        exact .refl _
      · show s.top ≤ (s.detached o).top + 1
        omega
    exact hnew.ended_beside
  | removed hrole c hc =>
    have hnew : (({ (s.detached o).cleared o c with
        live := Function.update s.live o false } : OutputServer).beside rest).Listed := by
      refine (h.removed (o := o) (c := c)).of_perm ?_ ?_ rfl htop.ge detached_nws
      · show ((s.detached o).outputs.erase o ++ rest).Perm ((s.outputs ++ rest).erase o)
        rw [hout, List.erase_append_left _ ho]
      · show (s.detached o).disabledOutputs.erase o = s.disabledOutputs.erase o
        rw [hdis]
    exact hnew.ended_beside

/-- Configuring an output does not touch those that still wait. -/
theorem Listed.configured_beside {rest : List ℕ} (h : (s.beside rest).Listed) (ho : o ∈ s.outputs)
    (hc : Configured s o config answer s') : (s'.beside rest).Listed := by
  have hl : (s.beside rest).live o = true :=
    (h.live_iff o).mpr (.inl (List.mem_append_left rest ho))
  have herase : (s.outputs ++ rest).erase o = s.outputs.erase o ++ rest :=
    List.erase_append_left rest ho
  have hdisabled : ∀ (c : Option ℕ) (t : OutputServer), t.outputs = s.outputs.erase o →
      t.disabledOutputs = o :: s.disabledOutputs.erase o → t.live = s.live → t.top = s.top →
      t.nws = s.nws → (t.beside rest).Listed := by
    intro c t hout hdis hlive htop hnws
    refine (h.disabledTo (c := c) hl).of_perm ?_ hdis hlive htop.ge hnws
    show (t.outputs ++ rest).Perm ((s.outputs ++ rest).erase o)
    rw [hout, herase]
  cases hc with
  | destroyed hrole hd hdest =>
    have hrole : ((s.withRole o config).beside rest).Listed :=
      h.of_perm (.refl _) rfl rfl le_rfl rfl
    exact hrole.destroyed_beside ho hdest
  | failed hdest hpos hmode c hc => exact hdisabled c _ rfl rfl rfl rfl rfl
  | disabled hstatus hlen c hc => exact hdisabled c _ rfl rfl rfl rfl rfl
  | kept hdest hlen hmode =>
    split
    · refine (h.reinsert hl).of_perm ?_ rfl rfl le_rfl rfl
      have hin : ((((s.prepared o config).unlink o).outputInsert o).outputs ++ rest).Perm
          (o :: (s.outputs.erase o ++ rest)) := outputInsert_perm.append_right rest
      have hout : (((s.beside rest).unlink o).outputInsert o).outputs.Perm
          (o :: (s.outputs ++ rest).erase o) := outputInsert_perm
      rw [herase] at hout
      exact hin.trans hout.symm
    · exact h.of_perm (.refl _) rfl rfl le_rfl rfl

/-- One round of the loop. -/
theorem sortIn_spec {rest : List ℕ} {answers : ℕ → OutputAnswer}
    (hs : (s.beside (o :: rest)).Listed) (h : s.Sorted) :
    Meets (sortIn answers s o) (fun _ => True) fun t => (t.beside rest).Listed ∧ t.Sorted := by
  have hin : ((s.outputInsert o).beside rest).Listed := by
    refine hs.of_perm ?_ rfl rfl le_rfl rfl
    have hperm : ((s.outputInsert o).outputs ++ rest).Perm (o :: s.outputs ++ rest) :=
      outputInsert_perm.append_right rest
    exact hperm.trans List.perm_middle.symm
  have hsorted : (s.outputInsert o).Sorted := Ranked.insert h o
  have ho : o ∈ (s.outputInsert o).outputs := outputInsert_perm.mem_iff.mpr List.mem_cons_self
  have hl : (s.outputInsert o).live o = true :=
    (hin.live_iff o).mpr (.inl (List.mem_append_left rest ho))
  refine (outputApplyConfig_spec hl).mono (fun _ _ => trivial) fun t ht => ?_
  have hnd : (s.outputInsert o).outputs.Nodup := (List.nodup_append.mp hin.outputs).1
  exact ⟨hin.configured_beside ho ht, hsorted.placed hnd (configured_placed ht)⟩

theorem foldlM_sortIn {l : List ℕ} {answers : ℕ → OutputAnswer} (hs : (s.beside l).Listed)
    (h : s.Sorted) :
    Meets (l.foldlM (sortIn answers) s) (fun _ => True) fun t => t.Listed ∧ t.Sorted := by
  induction l generalizing s with
  | nil =>
    refine Meets.ok ⟨hs.of_perm ?_ rfl rfl le_rfl rfl, h⟩
    show s.outputs.Perm (s.outputs ++ [])
    rw [List.append_nil]
  | cons o l ih =>
    rw [List.foldlM_cons]
    exact Meets.bind (sortIn_spec hs h) fun t ht => ih ht.1 ht.2

/-- Sorting starts with an empty list and ends with a sorted one. -/
theorem resort_spec {answers : ℕ → OutputAnswer} (hs : s.Listed) :
    Meets (s.resort answers) (fun _ => True) fun t => t.Listed ∧ t.Sorted := by
  have hstart : (({ s with outputs := [] } : OutputServer).beside s.outputs).Listed :=
    hs.of_perm (.refl _) rfl rfl le_rfl rfl
  refine Meets.bind (foldlM_sortIn hstart Ranked.nil) ?_
  rintro t ⟨hlisted, hsorted⟩
  show Meets (match t.outputs with
    | o :: _ => .ok { t with currOutput := some o }
    | [] => .ok { t with top := t.top + 1, currOutput := some t.top }) _ _
  split
  · exact Meets.ok ⟨hlisted.of_perm (.refl _) rfl rfl le_rfl rfl, hsorted⟩
  · exact Meets.ok ⟨hlisted.of_perm (.refl _) rfl rfl (Nat.le_succ _) rfl, hsorted⟩

theorem orderStep_spec {e : OrderEvent} (hs : s.Listed) (h : s.Sorted) :
    Meets (s.orderStep e) (fun _ => True) fun t => t.Listed ∧ t.Sorted := by
  cases e with
  | output e =>
    have hlisted := step_listed (e := e) hs
    show Meets (s.step e) _ _
    cases hst : s.step e with
    | error err => exact Meets.error trivial
    | ok t => exact Meets.ok ⟨hlisted.of_ok hst, step_sorted hs h hst⟩
  | resort answer => exact resort_spec hs

theorem runs_sorted {prios : List (Text × ℤ)}
    (h : Runs orderStep (fun _ _ => True) (init prios) s) : s.Listed ∧ s.Sorted :=
  h.invariant ⟨init_listed prios, Ranked.nil⟩ fun _ _ ht _ => orderStep_spec ht.1 ht.2

/-- **The order of the outputs.**  In every run the list of outputs is sorted by
priority.  `output_insert` puts an output behind those of its priority or a
higher one and before those of a lower one, which all keep their order, and a
command that changes no priority moves none of the outputs that stay. -/
theorem outputs_sorted {prios : List (Text × ℤ)} :
    (∀ s, Runs orderStep (fun _ _ => True) (init prios) s → s.Sorted) ∧
    (∀ (s : OutputServer) (o : ℕ), s.Sorted → ∃ before behind,
      s.outputs = before ++ behind ∧ (s.outputInsert o).outputs = before ++ o :: behind ∧
        (∀ p ∈ before, s.priority o ≤ s.priority p) ∧
        ∀ p ∈ behind, s.priority p < s.priority o) ∧
    ∀ s, Runs orderStep (fun _ _ => True) (init prios) s →
      ∀ cfg answer t, s.orderStep (.output (.configure cfg answer)) = .ok t →
        (∀ p, t.priority p = s.priority p) → t.outputs.Sublist s.outputs := by
  refine ⟨fun s hs => (runs_sorted hs).2, fun s o hs => Ranked.insert_between hs o, ?_⟩
  intro s hs cfg answer t ht hprio
  obtain ⟨hout, -⟩ | ⟨o, ho⟩ := configure_placed (runs_sorted hs).1 ht
  · rw [hout]
  · exact ho.sublist hprio

/-- Three monitors, the last of which gets the highest priority. -/
def prioritized : List OrderEvent :=
  [.output (.plug (ascii "A") agrees), .output (.plug (ascii "B") agrees),
    .output (.plug (ascii "C") agrees),
    .output (.configure { emptyOutputConfig with outputName := some (ascii "C"), priority := 5 }
      agrees),
    .resort fun _ => agrees]

/-- The first monitor is disabled. -/
def firstDisabled : OutputConfig :=
  { emptyOutputConfig with outputName := some (ascii "A"), status := .disable }

/-- The third monitor comes first, and another one of the priority of the others
would come last.  The others stay when the first one is disabled. -/
theorem outputs_sorted_prioritized : ∃ s t, Runs orderStep (fun _ _ => True) (init []) s ∧
    s.outputs = [4, 0, 2] ∧ s.Sorted ∧ (∃ before behind, s.outputs = before ++ behind ∧
      (s.outputInsert 6).outputs = before ++ 6 :: behind ∧
      (∀ p ∈ before, s.priority 6 ≤ s.priority p) ∧ ∀ p ∈ behind, s.priority p < s.priority 6) ∧
    s.orderStep (.output (.configure firstDisabled agrees)) = .ok t ∧
    t.outputs.Sublist s.outputs := by
  have hret : returns (prioritized.foldlM orderStep (init [])) (fun s =>
      decide (s.outputs = [4, 0, 2] ∧ s.named firstDisabled.outputName = some 0) &&
        returns (s.orderStep (.output (.configure firstDisabled agrees))) fun t =>
          decide (t.priority 0 = s.priority 0)) = true := by decide +kernel
  obtain ⟨s, hs, htest⟩ := exists_of_returns hret
  obtain ⟨htest, hstep⟩ := Bool.and_eq_true_iff.mp htest
  obtain ⟨hout, hnamed⟩ := of_decide_eq_true htest
  obtain ⟨t, ht, hprio⟩ := exists_of_returns hstep
  have hrun := Runs.of_foldlM hs
  obtain ⟨hsorted, hins, hconf⟩ := @outputs_sorted []
  refine ⟨s, t, hrun, hout, hsorted s hrun, hins s 6 (hsorted s hrun), ht,
    hconf s hrun firstDisabled agrees t ht fun p => ?_⟩
  have hlive : ∀ p, p ∈ s.outputs ∨ p ∈ s.disabledOutputs → s.live p = true := fun p hp =>
    ((runs_sorted hrun).1.live_iff p).mpr hp
  obtain ⟨hnone, -⟩ | ⟨o, ho, hconfd⟩ := (keybindingConfigureOutput_spec hlive).of_ok ht
  · rw [hnamed] at hnone
    cases hnone
  · obtain rfl : 0 = o := Option.some.inj (hnamed.symm.trans ho)
    by_cases hp : p = 0
    · rw [hp]
      exact of_decide_eq_true hprio
    · exact (configured_placed hconfd).others hp

end OutputServer

end Cagebreak
