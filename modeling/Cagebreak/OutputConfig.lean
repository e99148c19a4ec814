/-
The configuration of outputs.

An `output` command gives one setting of the output it names.  The server keeps
one record for each name, into which every command is merged, and merges all
records of a name again when it configures an output.  There are two merges,
written field by field:

* `mergeConfig` — of a command and the record of earlier ones;
* `mergeOutputConfigs` — of the records, when an output is configured.

`stored_config_iff` tells in which sequences of commands nothing is lost.
-/
import Cagebreak.Lib.CFloat
import Cagebreak.Lib.Override
import Cagebreak.Lib.Text

namespace Cagebreak

/-- `enum output_status`. -/
inductive OutputStatus
  | enable
  | disable
  | default
  deriving DecidableEq, Repr

/-- `enum output_role`. -/
inductive OutputRole
  | peripheral
  | permanent
  | default
  deriving DecidableEq, Repr

/-- The position and resolution of an output, as a `struct wlr_box`. -/
structure OutputPos where
  x : ℤ
  y : ℤ
  width : ℤ
  height : ℤ
  deriving DecidableEq, Repr

/-- `struct cg_output_config`. -/
structure OutputConfig where
  status : OutputStatus
  role : OutputRole
  pos : OutputPos
  outputName : Option Text
  refreshRate : CFloat
  scale : CFloat
  priority : ℤ
  angle : ℤ
  deriving DecidableEq, Repr

/-- `empty_output_config`. -/
def emptyOutputConfig : OutputConfig where
  status := .default
  role := .default
  pos := ⟨-1, -1, -1, -1⟩
  outputName := none
  refreshRate := .fin 0
  scale := .fin (-1)
  priority := -1
  angle := -1

/-- `merge_config`. -/
def mergeConfig (configNew configOld : OutputConfig) : OutputConfig :=
  { configNew with
    status := if configNew.status = .default then configOld.status else configNew.status
    pos := if configNew.pos.x = -1 then configOld.pos else configNew.pos
    refreshRate :=
      if configNew.refreshRate.eq (.fin 0) then configOld.refreshRate else configNew.refreshRate
    priority := if configNew.priority = -1 then configOld.priority else configNew.priority }

/-- `merge_output_configs`; `cfg1` has precedence over `cfg2`. -/
def mergeOutputConfigs (cfg1 cfg2 : OutputConfig) : OutputConfig :=
  let outCfg := emptyOutputConfig
  { status := if cfg1.status = outCfg.status then cfg2.status else cfg1.status
    role := if cfg1.role = outCfg.role then cfg2.role else cfg1.role
    pos := if cfg1.pos.x = outCfg.pos.x then cfg2.pos else cfg1.pos
    outputName := if cfg1.outputName = none then cfg2.outputName else cfg1.outputName
    refreshRate :=
      if cfg1.refreshRate.eq outCfg.refreshRate then cfg2.refreshRate else cfg1.refreshRate
    scale := if cfg1.scale.eq outCfg.scale then cfg2.scale else cfg1.scale
    priority := if cfg1.priority = outCfg.priority then cfg2.priority else cfg1.priority
    angle := if cfg1.angle = outCfg.angle then cfg2.angle else cfg1.angle }

/-- The first part of `keybinding_configure_output`: the records of the same
name leave `server->output_config`, and the new one comes first. -/
def storeConfig (outputConfig : List OutputConfig) (cfg : OutputConfig) : List OutputConfig :=
  outputConfig.foldl (fun config it =>
      if config.outputName = it.outputName then mergeConfig config it else config) cfg ::
    outputConfig.filter fun it => decide (it.outputName ≠ cfg.outputName)

/-- The first part of `output_configure`: all records of a name, merged. -/
def totalConfig (outputConfig : List OutputConfig) (name : Text) : OutputConfig :=
  outputConfig.foldl (fun totConfig config =>
    if config.outputName = some name then mergeOutputConfigs config totConfig else totConfig)
    emptyOutputConfig

/-! ### The settings -/

namespace OutputConfig

def statusSetting : Setting OutputConfig OutputStatus where
  get := status
  isSet c := decide (c.status ≠ .default)

def roleSetting : Setting OutputConfig OutputRole where
  get := role
  isSet c := decide (c.role ≠ .default)

/-- The position that is given; `x` is -1 when none is. -/
def position (c : OutputConfig) : Option OutputPos := if c.pos.x = -1 then none else some c.pos

def posSetting : Setting OutputConfig (Option OutputPos) where
  get := position
  isSet c := decide (c.pos.x ≠ -1)

def rateSetting : Setting OutputConfig CFloat where
  get := refreshRate
  isSet c := !c.refreshRate.eq (.fin 0)

def prioritySetting : Setting OutputConfig ℤ where
  get := priority
  isSet c := decide (c.priority ≠ -1)

def scaleSetting : Setting OutputConfig CFloat where
  get := scale
  isSet c := !c.scale.eq (.fin (-1))

def angleSetting : Setting OutputConfig ℤ where
  get := angle
  isSet c := decide (c.angle ≠ -1)

end OutputConfig

open OutputConfig

section Merges

variable {c d new old : OutputConfig} {name : Text} {cs cfgs : List OutputConfig}

theorem statusSetting_overrides : statusSetting.Overrides mergeConfig := fun new old => by
  by_cases h : new.status = .default <;> simp [statusSetting, mergeConfig, h]

theorem posSetting_overrides : posSetting.Overrides mergeConfig := fun new old => by
  by_cases h : new.pos.x = -1 <;> simp [posSetting, position, mergeConfig, h]

theorem rateSetting_overrides : rateSetting.Overrides mergeConfig := fun new old => by
  by_cases h : new.refreshRate.eq (.fin 0) = true <;> simp [rateSetting, mergeConfig, h]

theorem prioritySetting_overrides : prioritySetting.Overrides mergeConfig := fun new old => by
  by_cases h : new.priority = -1 <;> simp [prioritySetting, mergeConfig, h]

/-- The role, the scale and the angle of earlier commands are forgotten. -/
theorem roleSetting_replaces : roleSetting.Replaces mergeConfig := fun _ _ => rfl

theorem scaleSetting_replaces : scaleSetting.Replaces mergeConfig := fun _ _ => rfl

theorem angleSetting_replaces : angleSetting.Replaces mergeConfig := fun _ _ => rfl

@[simp] theorem mergeConfig_outputName : (mergeConfig new old).outputName = new.outputName := rfl

/-- `mergeOutputConfigs` has the newest explicit value win for every setting. -/
theorem roleSetting_overrides_outputs :
    roleSetting.Overrides mergeOutputConfigs := fun new old => by
  by_cases h : new.role = .default <;>
    simp [roleSetting, mergeOutputConfigs, emptyOutputConfig, h]

theorem statusSetting_overrides_outputs : statusSetting.Overrides mergeOutputConfigs :=
  fun new old => by
    by_cases h : new.status = .default <;>
      simp [statusSetting, mergeOutputConfigs, emptyOutputConfig, h]

theorem posSetting_overrides_outputs : posSetting.Overrides mergeOutputConfigs := fun new old => by
  by_cases h : new.pos.x = -1 <;>
    simp [posSetting, position, mergeOutputConfigs, emptyOutputConfig, h]

theorem rateSetting_overrides_outputs : rateSetting.Overrides mergeOutputConfigs :=
  fun new old => by
    by_cases h : new.refreshRate.eq (.fin 0) = true <;>
      simp [rateSetting, mergeOutputConfigs, emptyOutputConfig, h]

theorem prioritySetting_overrides_outputs : prioritySetting.Overrides mergeOutputConfigs :=
  fun new old => by
    by_cases h : new.priority = -1 <;>
      simp [prioritySetting, mergeOutputConfigs, emptyOutputConfig, h]

theorem scaleSetting_overrides_outputs : scaleSetting.Overrides mergeOutputConfigs :=
  fun new old => by
    by_cases h : new.scale.eq (.fin (-1)) = true <;>
      simp [scaleSetting, mergeOutputConfigs, emptyOutputConfig, h]

theorem angleSetting_overrides_outputs : angleSetting.Overrides mergeOutputConfigs :=
  fun new old => by
    by_cases h : new.angle = -1 <;> simp [angleSetting, mergeOutputConfigs, emptyOutputConfig, h]

/-- What a setting is when it is not given. -/
theorem statusSetting_isSet : statusSetting.isSet c = false ↔ statusSetting.get c = .default := by
  simp [statusSetting]

theorem roleSetting_isSet : roleSetting.isSet c = false ↔ roleSetting.get c = .default := by
  simp [roleSetting]

theorem posSetting_isSet : posSetting.isSet c = false ↔ posSetting.get c = none := by
  by_cases h : c.pos.x = -1 <;> simp [posSetting, position, h]

theorem rateSetting_isSet : rateSetting.isSet c = false ↔ rateSetting.get c = .fin 0 := by
  simp [rateSetting, CFloat.eq_fin]

theorem prioritySetting_isSet : prioritySetting.isSet c = false ↔ prioritySetting.get c = -1 := by
  simp [prioritySetting]

theorem scaleSetting_isSet : scaleSetting.isSet c = false ↔ scaleSetting.get c = .fin (-1) := by
  simp [scaleSetting, CFloat.eq_fin]

theorem angleSetting_isSet : angleSetting.isSet c = false ↔ angleSetting.get c = -1 := by
  simp [angleSetting]

/-- Two records agree on the status, the role, the position, the refresh rate,
the priority, the scale and the angle. -/
structure SameSettings (c d : OutputConfig) : Prop where
  status : c.status = d.status
  role : c.role = d.role
  position : c.position = d.position
  refreshRate : c.refreshRate = d.refreshRate
  priority : c.priority = d.priority
  scale : c.scale = d.scale
  angle : c.angle = d.angle

/-- The two merges agree unless the role, the scale or the angle is given by the
old record alone. -/
theorem sameSettings_merge_iff :
    SameSettings (mergeConfig new old) (mergeOutputConfigs new old) ↔
      (roleSetting.isSet new = true ∨ roleSetting.isSet old = false) ∧
      (scaleSetting.isSet new = true ∨ scaleSetting.isSet old = false) ∧
      (angleSetting.isSet new = true ∨ angleSetting.isSet old = false) := by
  have hrole := roleSetting_replaces.agrees_iff roleSetting_overrides_outputs
    (fun _ => roleSetting_isSet) new old
  have hscale := scaleSetting_replaces.agrees_iff scaleSetting_overrides_outputs
    (fun _ => scaleSetting_isSet) new old
  have hangle := angleSetting_replaces.agrees_iff angleSetting_overrides_outputs
    (fun _ => angleSetting_isSet) new old
  rw [← hrole, ← hscale, ← hangle]
  refine ⟨fun h => ⟨h.role, h.scale, h.angle⟩, fun h => ?_⟩
  exact ⟨statusSetting_overrides.agrees statusSetting_overrides_outputs new old, h.1,
    posSetting_overrides.agrees posSetting_overrides_outputs new old,
    rateSetting_overrides.agrees rateSetting_overrides_outputs new old,
    prioritySetting_overrides.agrees prioritySetting_overrides_outputs new old, h.2.1, h.2.2⟩

/-! ### Sequences of commands -/

/-- `server->output_config` after a sequence of commands. -/
def stored (cs : List OutputConfig) : List OutputConfig := cs.foldl storeConfig []

/-- The commands that name an output. -/
def naming (name : Text) (cs : List OutputConfig) : List OutputConfig :=
  cs.filter fun c => decide (c.outputName = some name)

/-- Only the records of the same name are merged. -/
theorem foldl_storeConfig : cfgs.foldl (fun config it =>
      if config.outputName = it.outputName then mergeConfig config it else config) c =
    (cfgs.filter fun it => decide (it.outputName = c.outputName)).foldl mergeConfig c := by
  induction cfgs generalizing c with
  | nil => rfl
  | cons d cfgs ih =>
    rw [List.foldl_cons]
    by_cases h : c.outputName = d.outputName
    · rw [if_pos h, List.filter_cons_of_pos (by simpa using h.symm), List.foldl_cons, ih,
        mergeConfig_outputName]
    · rw [if_neg h, List.filter_cons_of_neg (by simpa using Ne.symm h), ih]

theorem foldl_mergeConfig_outputName : (cfgs.foldl mergeConfig c).outputName = c.outputName := by
  induction cfgs generalizing c with
  | nil => rfl
  | cons d cfgs ih => rw [List.foldl_cons, ih, mergeConfig_outputName]

/-- A command concerns the records of its name only. -/
theorem naming_storeConfig : naming name (storeConfig cfgs c) =
    if c.outputName = some name then [(naming name cfgs).foldl mergeConfig c]
    else naming name cfgs := by
  have hhead : (cfgs.foldl (fun config it =>
      if config.outputName = it.outputName then mergeConfig config it else config) c).outputName =
        c.outputName := by
    rw [foldl_storeConfig, foldl_mergeConfig_outputName]
  rw [storeConfig, naming]
  by_cases h : c.outputName = some name
  · rw [List.filter_cons_of_pos (by simpa [hhead] using h), if_pos h, foldl_storeConfig, h,
      List.filter_filter]
    have hnone : (cfgs.filter fun d => decide (d.outputName = some name) &&
        decide (d.outputName ≠ some name)) = [] := by
      rw [List.filter_eq_nil_iff]
      intro d _
      simp
    rw [hnone]
    rfl
  · rw [List.filter_cons_of_neg (by simpa [hhead] using h), if_neg h, List.filter_filter, naming]
    refine List.filter_congr fun d _ => ?_
    by_cases hd : d.outputName = some name
    · simp [hd, Ne.symm h]
    · simp [hd]

/-- **The store holds one record for each name**, the commands for the name merged
in order. -/
theorem naming_stored :
    naming name (stored cs) = (Setting.mergeAll mergeConfig (naming name cs)).toList := by
  induction cs using List.reverseRecOn with
  | nil => rfl
  | append_singleton cs c ih =>
    rw [stored, List.foldl_concat, ← stored, naming_storeConfig, ih]
    by_cases h : c.outputName = some name
    · have hc : naming name (cs ++ [c]) = naming name cs ++ [c] := by simp [naming, h]
      rw [if_pos h, hc, Setting.mergeAll_concat]
      cases Setting.mergeAll mergeConfig (naming name cs) with
      | none => rfl
      | some d => rfl
    · have hc : naming name (cs ++ [c]) = naming name cs := by simp [naming, h]
      rw [if_neg h, hc]

/-- The settings of a record are those given last in a sequence of commands. -/
structure HoldsLastGiven (cs : List OutputConfig) (c : OutputConfig) : Prop where
  status : c.status = statusSetting.lastGiven .default cs
  role : c.role = roleSetting.lastGiven .default cs
  position : c.position = posSetting.lastGiven none cs
  refreshRate : c.refreshRate = rateSetting.lastGiven (.fin 0) cs
  priority : c.priority = prioritySetting.lastGiven (-1) cs
  scale : c.scale = scaleSetting.lastGiven (.fin (-1)) cs
  angle : c.angle = angleSetting.lastGiven (-1) cs

/-- If some command gives the setting, the last one does. -/
def GivenLast {α : Type} (f : Setting OutputConfig α) (cs : List OutputConfig) : Prop :=
  (∃ c ∈ cs, f.isSet c = true) → ∃ c, cs.getLast? = some c ∧ f.isSet c = true

theorem holdsLastGiven_iff (hd : Setting.mergeAll mergeConfig cs = some d) :
    HoldsLastGiven cs d ↔
      GivenLast roleSetting cs ∧ GivenLast scaleSetting cs ∧ GivenLast angleSetting cs := by
  have hrole := roleSetting_replaces.mergeAll_iff (fun _ => roleSetting_isSet) hd
  have hscale := scaleSetting_replaces.mergeAll_iff (fun _ => scaleSetting_isSet) hd
  have hangle := angleSetting_replaces.mergeAll_iff (fun _ => angleSetting_isSet) hd
  rw [GivenLast, GivenLast, GivenLast, ← hrole, ← hscale, ← hangle]
  refine ⟨fun h => ⟨h.role, h.scale, h.angle⟩, fun ⟨h1, h2, h3⟩ => ?_⟩
  exact ⟨statusSetting_overrides.get_mergeAll (fun _ => statusSetting_isSet.mp) hd, h1,
    posSetting_overrides.get_mergeAll (fun _ => posSetting_isSet.mp) hd,
    rateSetting_overrides.get_mergeAll (fun _ => rateSetting_isSet.mp) hd,
    prioritySetting_overrides.get_mergeAll (fun _ => prioritySetting_isSet.mp) hd, h2, h3⟩

/-- An output is configured with the record that is stored for its name. -/
theorem totalConfig_stored (hd : naming name cfgs = [d]) :
    SameSettings (totalConfig cfgs name) d := by
  have hfold : totalConfig cfgs name = (naming name cfgs).foldl
      (fun tot config => mergeOutputConfigs config tot) emptyOutputConfig := by
    rw [totalConfig, naming, List.foldl_filter]
    simp only [decide_eq_true_eq]
  rw [hfold, hd]
  have hempty : ∀ {α : Type} {f : Setting OutputConfig α}, f.Overrides mergeOutputConfigs →
      (f.isSet d = false ↔ f.get d = f.get emptyOutputConfig) →
      f.get (mergeOutputConfigs d emptyOutputConfig) = f.get d := by
    intro α f hf hset
    rw [hf]
    by_cases h : f.isSet d = true
    · rw [if_pos h]
    · rw [if_neg h]
      exact (hset.mp (by simpa using h)).symm
  exact ⟨hempty statusSetting_overrides_outputs statusSetting_isSet,
    hempty roleSetting_overrides_outputs roleSetting_isSet,
    hempty posSetting_overrides_outputs posSetting_isSet,
    hempty rateSetting_overrides_outputs rateSetting_isSet,
    hempty prioritySetting_overrides_outputs prioritySetting_isSet,
    hempty scaleSetting_overrides_outputs scaleSetting_isSet,
    hempty angleSetting_overrides_outputs angleSetting_isSet⟩

/-- **What the server knows of an output.**  For every sequence of commands and
every name there is at most one record, one if a command has named the output,
and an output of this name is configured with it.  The record holds what was
given last exactly when the last command of the name gives the role, the scale
and the angle, as far as any command has.  The two merges agree exactly when the
old record does not give one of these alone. -/
theorem stored_config_iff (cs : List OutputConfig) (name : Text) (new old : OutputConfig) :
    (naming name cs = [] → naming name (stored cs) = []) ∧
    (naming name cs ≠ [] → ∃ d, naming name (stored cs) = [d] ∧
      SameSettings (totalConfig (stored cs) name) d ∧
      (HoldsLastGiven (naming name cs) d ↔ GivenLast roleSetting (naming name cs) ∧
        GivenLast scaleSetting (naming name cs) ∧ GivenLast angleSetting (naming name cs))) ∧
    (SameSettings (mergeConfig new old) (mergeOutputConfigs new old) ↔
      (roleSetting.isSet new = true ∨ roleSetting.isSet old = false) ∧
      (scaleSetting.isSet new = true ∨ scaleSetting.isSet old = false) ∧
      (angleSetting.isSet new = true ∨ angleSetting.isSet old = false)) := by
  refine ⟨fun hnil => ?_, fun hne => ?_, sameSettings_merge_iff⟩
  · rw [naming_stored, hnil]
    rfl
  · obtain ⟨d, hd⟩ : ∃ d, Setting.mergeAll mergeConfig (naming name cs) = some d := by
      cases hcs : naming name cs with
      | nil => exact absurd hcs hne
      | cons c cs => exact ⟨_, rfl⟩
    have hstored : naming name (stored cs) = [d] := by
      rw [naming_stored, hd]
      rfl
    exact ⟨d, hstored, totalConfig_stored hstored, holdsLastGiven_iff hd⟩

/-- `output X scale 2`, then `output X prio 1`. -/
def scaleThenPrio : List OutputConfig :=
  [{ emptyOutputConfig with outputName := some (ascii "X"), scale := .fin 2 },
    { emptyOutputConfig with outputName := some (ascii "X"), priority := 1 }]

/-- The scale is forgotten. -/
theorem stored_config_scale_lost : ∃ d, naming (ascii "X") (stored scaleThenPrio) = [d] ∧
    d.scale = .fin (-1) ∧ ¬ HoldsLastGiven (naming (ascii "X") scaleThenPrio) d := by
  refine ⟨{ emptyOutputConfig with outputName := some (ascii "X"), priority := 1 }, by decide,
    rfl, fun h => ?_⟩
  exact absurd h.scale (by decide)

end Merges

end Cagebreak
