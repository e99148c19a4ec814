/-
How keyboard groups are configured.

The records that match a group are merged, the newest first, and the result is
applied to the group.  A record addressed to `*` or to all keyboards overrides
what newer records say, and so does one addressed to the group if the record
before it in the merge was addressed to `*`.

* `overrider` — the oldest record that overrides the newer ones;
* `group_setting_iff` — when the newest record addressed to the group itself
  decides a setting that no newer record gives.
-/
import Cagebreak.Libinput

namespace Cagebreak

/-- `struct cg_keyboard_group`, with what is stored in its keyboard. -/
structure KeyboardGroup where
  identifier : Text
  enableKeybindings : ℤ
  repeatRate : ℤ
  repeatDelay : ℤ
  deriving DecidableEq

/-- `apply_keyboard_group_config`. -/
def applyKeyboardGroupConfig (config : InputConfig) (group : KeyboardGroup) : KeyboardGroup :=
  { group with
    enableKeybindings :=
      if config.enableKeybindings ≠ -1 then config.enableKeybindings else group.enableKeybindings
    repeatDelay := if config.repeatDelay ≠ -1 then config.repeatDelay else 600
    repeatRate := if config.repeatRate ≠ -1 then config.repeatRate else 25 }

/-- The condition of `cg_input_manager_configure_keyboard_group`. -/
def groupMatches (identifier : Text) (config : InputConfig) : Bool :=
  config.identifier.any fun id =>
    decide (id = identifier) || decide (id = ascii "*") ||
      (decide (id.take 5 = ascii "type:") && decide (id.drop 5 = ascii "keyboard"))

/-- The merge of one more record: it has precedence, unless it is addressed to the
group and what has been merged is addressed to something but `*`. -/
def mergeForGroup (identifier : Text) (totCfg config : InputConfig) : InputConfig :=
  if totCfg.identifier = none ∨ totCfg.identifier = some (ascii "*") ∨
      config.identifier ≠ some identifier then
    inputManagerMergeInputConfigs config totCfg
  else inputManagerMergeInputConfigs totCfg config

/-- `cg_input_manager_configure_keyboard_group`. -/
def cgInputManagerConfigureKeyboardGroup (inputConfig : List InputConfig)
    (group : KeyboardGroup) : KeyboardGroup :=
  let totCfg := inputConfig.foldl (fun totCfg config =>
    if groupMatches group.identifier config then mergeForGroup group.identifier totCfg config
    else totCfg) emptyInputConfig
  applyKeyboardGroupConfig totCfg group

/-- The input devices and the keyboard groups. -/
structure GroupServer where
  input : InputServer
  groups : List KeyboardGroup

/-- What happens to keyboard groups; a group is created with the identifier of a
device and the repeat information of a keyboard. -/
inductive GroupEvent
  | input (ev : InputEvent)
  | newGroup (identifier : Text) (rate delay : ℤ)
  | groupDestroy (i : ℕ)

/-- An `input` command configures all devices and then all groups. -/
def groupStep (server : GroupServer) : GroupEvent → GroupServer
  | .input ev =>
    let input := inputStep server.input ev
    match ev with
    | .configure _ =>
      ⟨input, server.groups.map (cgInputManagerConfigureKeyboardGroup input.inputConfig)⟩
    | _ => { server with input }
  | .newGroup identifier rate delay =>
    { server with
      groups := cgInputManagerConfigureKeyboardGroup server.input.inputConfig
        ⟨identifier, 1, rate, delay⟩ :: server.groups }
  | .groupDestroy i => { server with groups := server.groups.eraseIdx i }

def groupRun (evs : List GroupEvent) : GroupServer := evs.foldl groupStep ⟨⟨[], [], []⟩, []⟩

/-- The events of a run that concern input devices. -/
def inputEvents (evs : List GroupEvent) : List InputEvent :=
  evs.filterMap fun
    | .input ev => some ev
    | _ => none

/-! ### Settings of a group -/

/-- What can be set for a keyboard group. -/
inductive GroupSetting
  | repeatDelay
  | repeatRate
  | keybindings
  deriving DecidableEq, Repr

namespace GroupSetting

/-- What a record says about a setting. -/
def setting : GroupSetting → Setting InputConfig ℤ
  | repeatDelay => ⟨fun c => c.repeatDelay, fun c => decide (c.repeatDelay ≠ -1)⟩
  | repeatRate => ⟨fun c => c.repeatRate, fun c => decide (c.repeatRate ≠ -1)⟩
  | keybindings => ⟨fun c => c.enableKeybindings, fun c => decide (c.enableKeybindings ≠ -1)⟩

/-- What a group has. -/
def value : GroupSetting → KeyboardGroup → ℤ
  | repeatDelay, group => group.repeatDelay
  | repeatRate, group => group.repeatRate
  | keybindings, group => group.enableKeybindings

variable {s : GroupSetting} {c : InputConfig}

theorem isSet_iff : s.setting.isSet c = true ↔ s.setting.get c ≠ -1 := by
  cases s <;> exact decide_eq_true_iff

theorem overrides : s.setting.Overrides inputManagerMergeInputConfigs := by
  intro new old
  cases s <;> simp [setting, inputManagerMergeInputConfigs]

theorem storedConfig_get : s.setting.get (storedConfig c) = s.setting.get c := by
  rw [storedConfig, merge_emptyInputConfig]
  cases s <;> rfl

theorem value_apply {group : KeyboardGroup} (h : s.setting.isSet c = true) :
    s.value (applyKeyboardGroupConfig c group) = s.setting.get c := by
  rw [isSet_iff] at h
  cases s <;> exact if_pos h

theorem storedConfig_isSet : s.setting.isSet (storedConfig c) = s.setting.isSet c := by
  rw [Bool.eq_iff_iff, isSet_iff, isSet_iff, storedConfig_get]

/-- A merged record gives what one of the two gives. -/
theorem isSet_merge {d : InputConfig} (h : s.setting.isSet c = true ∨ s.setting.isSet d = true) :
    s.setting.isSet (inputManagerMergeInputConfigs c d) = true := by
  rw [isSet_iff, overrides]
  by_cases hc : s.setting.isSet c = true
  · rw [if_pos hc]
    exact isSet_iff.mp hc
  · rw [if_neg hc]
    exact isSet_iff.mp (h.resolve_left hc)

theorem not_isSet_merge {d : InputConfig} (hc : s.setting.isSet c = false)
    (hd : s.setting.isSet d = false) :
    s.setting.isSet (inputManagerMergeInputConfigs c d) = false := by
  by_contra h
  rw [Bool.not_eq_false, isSet_iff, overrides, hc, if_neg Bool.false_ne_true, ← isSet_iff, hd] at h
  exact Bool.false_ne_true h

end GroupSetting

/-! ### Who decides -/

/-- The records, the oldest first, merged as the loop does it. -/
def mergedFor (identifier : Text) (cs : List InputConfig) : InputConfig :=
  cs.foldr (fun config totCfg => mergeForGroup identifier totCfg config) emptyInputConfig

/-- The oldest of the records `cs` that overrides what the newer ones say about a
setting; `next` is the record that comes after them. -/
def overrider (identifier : Text) (f : Setting InputConfig ℤ) :
    List InputConfig → InputConfig → Option InputConfig
  | [], _ => none
  | c :: cs, next =>
    if f.isSet c = true ∧ (c.identifier ≠ some identifier ∨
        (cs.headD next).identifier = some (ascii "*")) then some c
    else overrider identifier f cs next

section Merge

variable {identifier : Text} {s : GroupSetting} {c e : InputConfig}
  {cs older newer : List InputConfig}

theorem mergedFor_cons : mergedFor identifier (c :: cs) =
    mergeForGroup identifier (mergedFor identifier cs) c := rfl

theorem merge_identifier {d : InputConfig} (hc : c.identifier ≠ none) :
    (inputManagerMergeInputConfigs c d).identifier = c.identifier := if_neg hc

/-- The merge is addressed to `*` when the oldest record is. -/
theorem mergedFor_identifier (hid : ∀ c ∈ cs, c.identifier ≠ none) (hne : cs ≠ [])
    (hstar : identifier ≠ ascii "*") :
    (mergedFor identifier cs).identifier ≠ none ∧
      ((mergedFor identifier cs).identifier = some (ascii "*") ↔
        (cs.head hne).identifier = some (ascii "*")) := by
  cases cs with
  | nil => exact absurd rfl hne
  | cons c cs =>
    have hc := hid c List.mem_cons_self
    rw [mergedFor_cons, mergeForGroup]
    split
    · rw [merge_identifier hc]
      exact ⟨hc, Iff.rfl⟩
    · rename_i h
      push Not at h
      obtain ⟨hnone, hall, hexact⟩ := h
      rw [merge_identifier hnone, List.head_cons, hexact]
      exact ⟨hnone, iff_of_false hall fun h => hstar (Option.some.inj h)⟩

theorem not_isSet_mergedFor (h : ∀ c ∈ cs, s.setting.isSet c = false) :
    s.setting.isSet (mergedFor identifier cs) = false := by
  induction cs with
  | nil => cases s <;> rfl
  | cons c cs ih =>
    have hc := h c List.mem_cons_self
    have hcs := ih fun d hd => h d (List.mem_cons_of_mem _ hd)
    rw [mergedFor_cons, mergeForGroup]
    split
    · exact GroupSetting.not_isSet_merge hc hcs
    · exact GroupSetting.not_isSet_merge hcs hc

/-- **What the merge says about a setting** that the record `e` gives and no newer
one: the value of the oldest record that overrides, or that of `e`. -/
theorem mergedFor_get (hid : ∀ c ∈ older ++ e :: newer, c.identifier ≠ none)
    (hstar : identifier ≠ ascii "*") (hset : s.setting.isSet e = true)
    (hnewer : ∀ c ∈ newer, s.setting.isSet c = false) :
    s.setting.isSet (mergedFor identifier (older ++ e :: newer)) = true ∧
      s.setting.get (mergedFor identifier (older ++ e :: newer)) =
        (overrider identifier s.setting older e).elim (s.setting.get e) s.setting.get := by
  -- the records are merged from the end of the list, so that the first one is the last
  induction older with
  | nil =>
    have hrest : s.setting.isSet (mergedFor identifier newer) = false := not_isSet_mergedFor hnewer
    rw [List.nil_append, mergedFor_cons, mergeForGroup, overrider]
    split
    · rw [GroupSetting.overrides, if_pos hset]
      exact ⟨GroupSetting.isSet_merge (.inl hset), rfl⟩
    · rw [GroupSetting.overrides, hrest, if_neg Bool.false_ne_true]
      exact ⟨GroupSetting.isSet_merge (.inr hset), rfl⟩
  | cons c older ih =>
    have hid' : ∀ d ∈ older ++ e :: newer, d.identifier ≠ none := fun d hd =>
      hid d (List.mem_cons_of_mem _ hd)
    have hne : older ++ e :: newer ≠ [] := by simp
    have hhead : (older ++ e :: newer).head hne = older.headD e := by
      cases older with
      | nil => rfl
      | cons _ _ => rfl
    obtain ⟨hrest, hget⟩ := ih hid'
    obtain ⟨hnone, hall⟩ := mergedFor_identifier hid' hne hstar
    rw [hhead] at hall
    rw [List.cons_append, mergedFor_cons, mergeForGroup, overrider]
    have hover : ((mergedFor identifier (older ++ e :: newer)).identifier = none ∨
        (mergedFor identifier (older ++ e :: newer)).identifier = some (ascii "*") ∨
        c.identifier ≠ some identifier) ↔
          (c.identifier ≠ some identifier ∨ (older.headD e).identifier = some (ascii "*")) := by
      rw [hall]
      tauto
    by_cases hc : c.identifier ≠ some identifier ∨ (older.headD e).identifier = some (ascii "*")
    · rw [if_pos (hover.mpr hc), GroupSetting.overrides]
      refine ⟨GroupSetting.isSet_merge (.inr hrest), ?_⟩
      by_cases hcset : s.setting.isSet c = true
      · rw [if_pos hcset, if_pos ⟨hcset, hc⟩]
        rfl
      · rw [if_neg hcset, if_neg fun h => hcset h.1]
        exact hget
    · rw [if_neg fun h => hc (hover.mp h), GroupSetting.overrides, if_pos hrest,
        if_neg fun h => hc h.2]
      exact ⟨GroupSetting.isSet_merge (.inl hrest), hget⟩

end Merge

/-! ### Runs -/

section Runs

variable {evs : List GroupEvent} {group : KeyboardGroup} {identifier : Text} {s : GroupSetting}
  {cs : List InputConfig} {server : GroupServer}

/-- The loop merges the matching records. -/
theorem configure_eq : cgInputManagerConfigureKeyboardGroup cs.reverse group =
    applyKeyboardGroupConfig
      (mergedFor group.identifier (cs.filter (groupMatches group.identifier))) group := by
  rw [cgInputManagerConfigureKeyboardGroup, mergedFor, ← List.foldl_reverse, ← List.filter_reverse,
    List.foldl_filter]

theorem apply_apply {config : InputConfig} : applyKeyboardGroupConfig config
    (applyKeyboardGroupConfig config group) = applyKeyboardGroupConfig config group := by
  simp only [applyKeyboardGroupConfig]
  congr 1
  split <;> rfl

/-- A group keeps the settings it has until there is another command. -/
structure GroupInv (server : GroupServer) : Prop where
  configured : ∀ group ∈ server.groups,
    cgInputManagerConfigureKeyboardGroup server.input.inputConfig group = group

theorem configure_configure {inputConfig : List InputConfig} :
    cgInputManagerConfigureKeyboardGroup inputConfig
      (cgInputManagerConfigureKeyboardGroup inputConfig group) =
        cgInputManagerConfigureKeyboardGroup inputConfig group := apply_apply

theorem groupStep_inv (h : GroupInv server) (ev : GroupEvent) :
    GroupInv (groupStep server ev) := by
  constructor
  intro group hgroup
  cases ev with
  | input ev =>
    cases ev with
    | configure cmd =>
      obtain ⟨old, -, rfl⟩ := List.mem_map.mp hgroup
      exact configure_configure
    | newInput _ _ => exact h.configured group hgroup
    | deviceDestroy _ => exact h.configured group hgroup
    | outputs _ => exact h.configured group hgroup
  | newGroup identifier rate delay =>
    rcases List.mem_cons.mp hgroup with rfl | hgroup
    · exact configure_configure
    · exact h.configured group hgroup
  | groupDestroy i => exact h.configured group (List.mem_of_mem_eraseIdx hgroup)

theorem groupRun_inv : GroupInv (groupRun evs) := by
  induction evs using List.reverseRecOn with
  | nil => exact ⟨fun group hgroup => absurd hgroup List.not_mem_nil⟩
  | append_singleton evs ev ih =>
    rw [groupRun, List.foldl_concat]
    exact groupStep_inv ih ev

/-- The groups take no part in what happens to the input devices. -/
theorem groupRun_input : (groupRun evs).input = inputRun (inputEvents evs) := by
  induction evs using List.reverseRecOn with
  | nil => rfl
  | append_singleton evs ev ih =>
    rw [groupRun, List.foldl_concat, inputEvents, List.filterMap_append, inputRun,
      List.foldl_append]
    show (groupStep (groupRun evs) ev).input = List.foldl inputStep (inputRun (inputEvents evs)) _
    rw [← ih]
    cases ev with
    | input ev => cases ev <;> rfl
    | newGroup _ _ _ => rfl
    | groupDestroy _ => rfl

/-- The record is addressed to `*` or to `type:keyboard`. -/
def toAllKeyboards (config : InputConfig) : Bool :=
  config.identifier.any fun id =>
    decide (id = ascii "*") ||
      (decide (id.take 5 = ascii "type:") && decide (id.drop 5 = ascii "keyboard"))

theorem groupMatches_iff {c : InputConfig} : groupMatches identifier c = true ↔
    c.identifier = some identifier ∨ toAllKeyboards c = true := by
  cases hid : c.identifier with
  | none => simp [groupMatches, toAllKeyboards, hid]
  | some id => simp [groupMatches, toAllKeyboards, hid, or_assoc]

theorem identifier_ne_none {c : InputConfig} (h : groupMatches identifier c = true) :
    c.identifier ≠ none := by
  intro hnone
  simp [groupMatches, hnone] at h

theorem storedConfig_identifier (c : InputConfig) :
    (storedConfig c).identifier = c.identifier := by
  rw [storedConfig, merge_emptyInputConfig]

/-- What overrides is the same for the records stored. -/
theorem overrider_map (cs : List InputConfig) (e : InputConfig) :
    overrider identifier s.setting (cs.map storedConfig) (storedConfig e) =
      (overrider identifier s.setting cs e).map storedConfig := by
  induction cs with
  | nil => rfl
  | cons c cs ih =>
    have hhead : ((cs.map storedConfig).headD (storedConfig e)).identifier =
        (cs.headD e).identifier := by
      cases cs with
      | nil => exact storedConfig_identifier e
      | cons d _ => exact storedConfig_identifier d
    rw [List.map_cons, overrider, overrider, GroupSetting.storedConfig_isSet,
      storedConfig_identifier, hhead, ih]
    split
    · rfl
    · rfl

theorem filter_map_storedConfig (cs : List InputConfig) :
    (cs.map storedConfig).filter (groupMatches identifier) =
      (cs.filter (groupMatches identifier)).map storedConfig := by
  rw [List.filter_map]
  refine congrArg _ (List.filter_congr fun c _ => ?_)
  rw [Function.comp_apply, groupMatches, groupMatches, storedConfig_identifier]

/-- **Which command decides.**  After every run a keyboard group has the value
that the latest command `e` addressed to it alone gives, where the commands
addressed to all keyboards come before `e`, exactly when the oldest command that
overrides `e` says the same. -/
theorem group_setting_iff {pre post : List InputConfig} {e : InputConfig}
    (hgroup : group ∈ (groupRun evs).groups)
    (hcmds : inputCommands (inputEvents evs) = pre ++ e :: post)
    (hexact : e.identifier = some group.identifier) (hset : s.setting.isSet e = true)
    (hlatest : ∀ c ∈ post, c.identifier = some group.identifier → s.setting.isSet c = false)
    (hafter : ∀ c ∈ e :: post, toAllKeyboards c = true → s.setting.isSet c = false) :
    s.value group = s.setting.get e ↔
      ∀ c, overrider group.identifier s.setting
        (pre.filter (groupMatches group.identifier)) e = some c →
          s.setting.get c = s.setting.get e := by
  have hstar : group.identifier ≠ ascii "*" := by
    intro h
    have hall := hafter e List.mem_cons_self (by simp [toAllKeyboards, hexact, h])
    rw [hset] at hall
    exact absurd hall (by simp)
  have hmatch : groupMatches group.identifier e = true := groupMatches_iff.mpr (.inl hexact)
  have hconfig : (groupRun evs).input.inputConfig =
      ((pre ++ e :: post).map storedConfig).reverse := by
    rw [groupRun_input, inputRun_inv.inputConfig, hcmds, List.map_reverse]
  have hsplit : ((pre ++ e :: post).map storedConfig).filter (groupMatches group.identifier) =
      (pre.filter (groupMatches group.identifier)).map storedConfig ++ storedConfig e ::
        (post.filter (groupMatches group.identifier)).map storedConfig := by
    rw [filter_map_storedConfig, List.filter_append, List.filter_cons_of_pos hmatch,
      List.map_append, List.map_cons]
  have hid : ∀ c ∈ (pre.filter (groupMatches group.identifier)).map storedConfig ++
      storedConfig e :: (post.filter (groupMatches group.identifier)).map storedConfig,
      c.identifier ≠ none := by
    intro c hc
    rw [← hsplit] at hc
    exact identifier_ne_none (List.mem_filter.mp hc).2
  -- no later command that applies to the group gives the setting
  have hnewer : ∀ c ∈ (post.filter (groupMatches group.identifier)).map storedConfig,
      s.setting.isSet c = false := by
    intro c hc
    obtain ⟨d, hd, rfl⟩ := List.mem_map.mp hc
    obtain ⟨hd, hdm⟩ := List.mem_filter.mp hd
    rw [GroupSetting.storedConfig_isSet]
    rcases groupMatches_iff.mp hdm with hexact' | hall
    · exact hlatest d hd hexact'
    · exact hafter d (List.mem_cons_of_mem _ hd) hall
  obtain ⟨hisSet, hget⟩ := mergedFor_get hid hstar
    (by rw [GroupSetting.storedConfig_isSet, hset]) hnewer
  have hvalue := congrArg s.value (groupRun_inv.configured group hgroup)
  rw [hconfig, configure_eq, hsplit, GroupSetting.value_apply hisSet, hget, overrider_map,
    GroupSetting.storedConfig_get] at hvalue
  rw [← hvalue]
  cases overrider group.identifier s.setting (pre.filter (groupMatches group.identifier)) e with
  | none => simp
  | some c => simp [GroupSetting.storedConfig_get]

/-- A command that sets after how long keys repeat. -/
def repeatDelayCommand (identifier : String) (delay : ℤ) : InputCommand :=
  ⟨{ emptyInputConfig with identifier := some (ascii identifier), repeatDelay := delay }, nofun⟩

/-- `input * repeat_delay 300`, then `input 0:0:kb repeat_delay 500`. -/
def delayTwice : List GroupEvent :=
  [.newGroup (ascii "0:0:kb") 25 600,
    .input (.configure (repeatDelayCommand "*" 300)),
    .input (.configure (repeatDelayCommand "0:0:kb" 500))]

/-- The command addressed to all keyboards overrides the later one. -/
theorem group_setting_overridden : ¬ ∀ (evs : List GroupEvent) (group : KeyboardGroup)
    (s : GroupSetting) (pre post : List InputConfig) (e : InputConfig),
    group ∈ (groupRun evs).groups → inputCommands (inputEvents evs) = pre ++ e :: post →
    e.identifier = some group.identifier → s.setting.isSet e = true →
    (∀ c ∈ post, c.identifier = some group.identifier → s.setting.isSet c = false) →
    (∀ c ∈ e :: post, toAllKeyboards c = true → s.setting.isSet c = false) →
    s.value group = s.setting.get e := by
  intro h
  have hvalue := h delayTwice ⟨ascii "0:0:kb", 1, 25, 300⟩ .repeatDelay
    [(repeatDelayCommand "*" 300).config] [] (repeatDelayCommand "0:0:kb" 500).config
    (by decide +kernel) rfl rfl (by decide +kernel) (by simp) (by decide +kernel)
  exact absurd hvalue (by decide +kernel)

/-- The condition and the value after these commands. -/
theorem group_setting_delay : ∃ group ∈ (groupRun delayTwice).groups,
    (GroupSetting.repeatDelay.value group = 500 ↔
      ∀ c, overrider group.identifier GroupSetting.repeatDelay.setting
        ([(repeatDelayCommand "*" 300).config].filter (groupMatches group.identifier))
        (repeatDelayCommand "0:0:kb" 500).config = some c →
          GroupSetting.repeatDelay.setting.get c = 500) := by
  have hgroup : (⟨ascii "0:0:kb", 1, 25, 300⟩ : KeyboardGroup) ∈ (groupRun delayTwice).groups := by
    decide +kernel
  have hcmds : inputCommands (inputEvents delayTwice) = [(repeatDelayCommand "*" 300).config] ++
      (repeatDelayCommand "0:0:kb" 500).config :: [] := rfl
  have hset : GroupSetting.repeatDelay.setting.isSet (repeatDelayCommand "0:0:kb" 500).config =
      true := by decide
  have hafter : ∀ c ∈ [(repeatDelayCommand "0:0:kb" 500).config], toAllKeyboards c = true →
      GroupSetting.repeatDelay.setting.isSet c = false := by decide +kernel
  exact ⟨_, hgroup, group_setting_iff hgroup hcmds rfl hset (by simp) hafter⟩

end Runs

end Cagebreak
