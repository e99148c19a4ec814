/-
Modes are referred to by indices.

The parser looks the name of a mode up and stores its index; `modes` and
`modecursors` only grow after that.

* `Indexed` — the indices in what the parser returns: `indexed_command`;
* `HasModes` — the two arrays, and the indices of the seat and of every
  keybinding on the heap;
* `step_hasModes` — every step keeps `HasModes`, and may define a mode.
-/
import Cagebreak.KeyEvents

namespace Cagebreak

namespace KeyServer

open Parse Reader

variable {L : Libraries} {moves : ℕ → Bool} {s t : KeyServer} {names modes : List Text} {n : ℕ}
  {action : KeybindingAction}

/-! ### Indices in commands -/

/-- The actions whose operand is the index of a mode. -/
def TakesMode (action : KeybindingAction) : Prop :=
  action = .switchMode ∨ action = .switchDefaultMode

instance (action : KeybindingAction) : Decidable (TakesMode action) := instDecidableOr

/-- What the parser stores: only `definekey` has a keybinding, and every index of a
mode is below `n`. -/
def Indexed (n : ℕ) : KeybindingAction → KeybindingParams → Prop
  | action, .kb mode _ _ inner data =>
    action = .definekey ∧ mode.toNat < n ∧ Indexed n inner data
  | action, data =>
    action ≠ .definekey ∧ (TakesMode action → ∃ m : UInt32, data = .u m ∧ m.toNat < n)

/-- The same of a keybinding on the heap. -/
def Operand (n : ℕ) (action : KeybindingAction) (data : KeyData) : Prop :=
  (action = .definekey → ∃ inner, data = .kb inner) ∧
    (TakesMode action → ∃ m : UInt32, data = .params (.u m) ∧ m.toNat < n)

/-- The actions that no branch but those for modes and keys has. -/
def Ordinary (action : KeybindingAction) : Prop := action ≠ .definekey ∧ ¬TakesMode action

instance (action : KeybindingAction) : Decidable (Ordinary action) := instDecidableAnd

/-- The action of a branch fits the branch. -/
def Fits : Branch → Prop
  | .plain action | .flag action _ | .split action | .cycle action _ | .cycleBack action
  | .line action | .resize action _ | .number action _ _ _ | .moveView action _ _ _ _ _
  | .move action _ _ _ | .merge action | .exchangeTowards action => Ordinary action
  | .mode action _ _ => TakesMode action
  | _ => True

instance (branch : Branch) : Decidable (Fits branch) := by
  unfold Fits
  split <;> infer_instance

theorem fits_branchOf {action : Text} {branch : Branch} (h : branchOf action = some branch) :
    Fits branch := by
  have hall : ∀ b ∈ branches, Fits b.2 := by decide
  unfold branchOf at h
  obtain ⟨b, hb, rfl⟩ := Option.map_eq_some_iff.mp h
  exact hall b (List.mem_of_find?_eq_some hb)

/-- A command of an ordinary action, with data that is no keybinding. -/
theorem indexed_ordinary {data : KeybindingParams} (ha : Ordinary action)
    (hd : ∀ mode modifiers key inner inner', data ≠ .kb mode modifiers key inner inner') :
    Indexed n action data := by
  unfold Indexed
  split
  · exact absurd rfl (hd _ _ _ _ _)
  · exact ⟨ha.1, fun h => absurd h ha.2⟩

/-- A reader of ordinary commands. -/
theorem yields_ordinary {data : KeybindingParams} (ha : Ordinary action)
    (hd : ∀ mode modifiers key inner inner', data ≠ .kb mode modifiers key inner inner') :
    Yields (pure (action, data)) fun r => Indexed n r.1 r.2 :=
  .pure (indexed_ordinary ha hd)

/-- The index that a name has been looked up with. -/
theorem getModeIndexFromName_lt {mode : Text} {i : ℕ}
    (h : getModeIndexFromName modes mode = some i) : i < modes.length := by
  unfold getModeIndexFromName at h
  obtain ⟨hi, -⟩ := List.findIdx?_eq_some_iff_getElem.mp h
  exact hi

theorem yields_parseKeybinding {mode : UInt16} {command : Reader Command}
    (hmode : mode.toNat < n) (hc : Yields command fun r => Indexed n r.1 r.2) :
    Yields (parseKeybinding L mode command) fun kb => Indexed n .definekey kb := by
  refine .bind_any fun key => .bind_any fun r => .bind hc fun r' h => .pure ?_
  exact ⟨rfl, hmode, h⟩

theorem yields_parseDefinekey {command : Reader Command}
    (hc : Yields command fun r => Indexed modes.length r.1 r.2) :
    Yields (parseDefinekey L modes command) fun kb => Indexed modes.length .definekey kb := by
  refine .bind_any fun modeStr => .bind_any fun mode => ?_
  cases h : getModeIndexFromName modes mode with
  | none => exact .fail
  | some i =>
    refine yields_parseKeybinding ?_ hc
    rw [Nat.toUInt16_eq, UInt16.toNat_ofNat']
    exact (Nat.mod_le _ _).trans_lt (getModeIndexFromName_lt h)

theorem yields_parseEscape (hn : 2 ≤ n) :
    Yields (parseEscape L) fun kb => Indexed n .definekey kb := by
  refine .bind_any fun key => .bind_any fun r => .pure ⟨rfl, ?_, ?_, fun _ => ⟨1, rfl, ?_⟩⟩
  · exact Nat.lt_of_lt_of_le Nat.zero_lt_two hn
  · decide
  · exact hn

theorem yields_parseMode {missing unknown : String} (ha : TakesMode action) :
    Yields (do
      let modeIdx ← parseMode modes missing unknown
      pure (action, KeybindingParams.u modeIdx.toUInt32)) fun r =>
        Indexed modes.length r.1 r.2 := by
  refine .bind (P := fun i => i < modes.length) (.bind_any fun mode => ?_) fun i hi => .pure ?_
  · cases h : getModeIndexFromName modes mode with
    | none => exact .fail
    | some i => exact .pure (getModeIndexFromName_lt h)
  · refine ⟨?_, fun _ => ⟨_, rfl, ?_⟩⟩
    · rintro rfl
      revert ha
      decide
    · rw [Nat.toUInt32_eq, UInt32.toNat_ofNat']
      exact (Nat.mod_le _ _).trans_lt hi

theorem yields_parseSplit (ha : Ordinary action) :
    Yields (parseSplit action) fun r => Indexed n r.1 r.2 := by
  refine .bind_any fun tok => ?_
  cases tok with
  | none => exact yields_ordinary ha nofun
  | some str =>
    refine .bind_any fun percentage => .bind_any fun range => ?_
    exact .ite .failSilently (.ite .failSilently (yields_ordinary ha nofun))

theorem yields_parseOnly : Yields parseOnly fun r => Indexed n r.1 r.2 := by
  refine .bind_any fun screen => ?_
  cases screen with
  | none => exact yields_ordinary (by decide) nofun
  | some screen =>
    exact .bind_any fun str => .bind_any fun workspace => yields_ordinary (by decide) nofun

theorem yields_parseMerge (ha : Ordinary action) :
    Yields (parseMerge action) fun r => Indexed n r.1 r.2 := by
  refine .bind_any fun tok => ?_
  cases tok with
  | none => exact yields_ordinary ha nofun
  | some str => exact .bind_any fun tile => yields_ordinary ha nofun

theorem yields_parseExchangeTowards (ha : Ordinary action) :
    Yields (parseExchangeTowards action) fun r => Indexed n r.1 r.2 := by
  refine .bind_any fun tok => ?_
  cases tok with
  | none => exact yields_ordinary ha nofun
  | some str =>
    refine .ite ?_ ?_
    · exact .bind_any fun tile => .bind_any fun follow => yields_ordinary ha nofun
    · exact .bind_any fun follow => yields_ordinary ha nofun

theorem yields_parseBranch {command : Reader Command} {branch : Branch}
    (hc : Yields command fun r => Indexed modes.length r.1 r.2) (hn : 2 ≤ modes.length)
    (hf : Fits branch) :
    Yields (parseBranch L modes command branch) fun r => Indexed modes.length r.1 r.2 := by
  cases branch with
  | bind =>
    have hone : (1 : UInt16).toNat < modes.length := hn
    exact .bind (yields_parseKeybinding hone hc) fun kb h => .pure h
  | definekey => exact .bind (yields_parseDefinekey hc) fun kb h => .pure h
  | escape => exact .bind (yields_parseEscape hn) fun kb h => .pure h
  | mode action missing unknown => exact yields_parseMode hf
  -- the other commands store no index of a mode
  | plain action => exact yields_ordinary hf nofun
  | flag action b => exact yields_ordinary hf nofun
  | split action => exact yields_parseSplit hf
  | cycle action what => exact .bind_any fun id => yields_ordinary hf nofun
  | cycleBack action => exact yields_ordinary hf nofun
  | only => exact yields_parseOnly
  | line action => exact .bind_any fun str => yields_ordinary hf nofun
  | resize action sign =>
    exact .bind_any fun pixels => .bind_any fun tile => yields_ordinary hf nofun
  | number action missing what first =>
    exact .bind_any fun str => .bind_any fun m => yields_ordinary hf nofun
  | moveView action missing what missing' what' first =>
    refine .bind_any fun viewStr => .bind_any fun viewId => .bind_any fun str => ?_
    exact .bind_any fun m => .bind_any fun follow => yields_ordinary hf nofun
  | move action missing what first =>
    refine .bind_any fun str => .bind_any fun m => .bind_any fun follow => ?_
    exact yields_ordinary hf nofun
  | movetotile =>
    refine .bind_any fun str => .bind_any fun tile => .bind_any fun follow => ?_
    exact yields_ordinary (by decide) nofun
  | merge action => exact yields_parseMerge hf
  | exchangeTowards action => exact yields_parseExchangeTowards hf
  | exchange =>
    refine .bind_any fun str1 => .bind_any fun tile1 => .bind_any fun str2 => ?_
    refine .bind_any fun tile2 => .bind_any fun follow => ?_
    exact yields_ordinary (by decide) nofun
  | switchvt =>
    refine .bind_any fun ntty => .bind_any fun tty => .bind_any fun range => ?_
    exact .bind_any fun _ => yields_ordinary (by decide) nofun
  | setmodecursor =>
    exact .bind_any fun mode => .bind_any fun cursor => yields_ordinary (by decide) nofun
  | background => exact .bind_any fun color => yields_ordinary (by decide) nofun
  | cursor => exact .bind_any fun i => yields_ordinary (by decide) nofun
  | definemode => exact .bind_any fun mode => yields_ordinary (by decide) nofun
  | workspaces => exact .bind_any fun nws => yields_ordinary (by decide) nofun
  | output => exact .bind_any fun cfg => yields_ordinary (by decide) nofun
  | input => exact .bind_any fun cfg => yields_ordinary (by decide) nofun
  | configureMessage => exact .bind_any fun cfg => yields_ordinary (by decide) nofun

/-- Every index that the parser returns is the index of a mode. -/
theorem indexed_command (hn : 2 ≤ modes.length) (room : ℕ) :
    Yields (command L modes room) fun r => Indexed modes.length r.1 r.2 := by
  induction room with
  | zero => exact .bind_any fun _ => .fail
  | succ room ih =>
    refine .bind_any fun actionStr => .bind_any fun action => ?_
    cases hbranch : branchOf action with
    | none => exact .fail
    | some branch => exact yields_parseBranch ih hn (fits_branchOf hbranch)

/-! ### Keybindings on the heap -/

/-- The mode of a keybinding and the operand of its action are modes. -/
def Keybinding.Indexed (n : ℕ) (kb : Keybinding) : Prop :=
  kb.mode.toNat < n ∧ Operand n kb.action kb.data

/-- The same of all keybindings on the heap. -/
def Memory.Indexed (n : ℕ) (memory : Memory) : Prop :=
  ∀ k kb, memory.heap k = some kb → kb.Indexed n

theorem Operand.mono {data : KeyData} {m : ℕ} (h : Operand n action data) (hm : n ≤ m) :
    Operand m action data :=
  ⟨h.1, fun ha => by
    obtain ⟨i, hi, hlt⟩ := h.2 ha
    exact ⟨i, hi, hlt.trans_le hm⟩⟩

theorem Memory.Indexed.mono {memory : Memory} {m : ℕ} (h : memory.Indexed n) (hm : n ≤ m) :
    memory.Indexed m :=
  fun k kb hk => ⟨(h k kb hk).1.trans_le hm, (h k kb hk).2.mono hm⟩

theorem Memory.Indexed.alloc {memory : Memory} {kb : Keybinding} (h : memory.Indexed n)
    (hkb : kb.Indexed n) : (memory.alloc kb).Indexed n := by
  intro k kb' hk
  by_cases hne : k = memory.next
  · subst hne
    rw [memory.alloc_heap_self] at hk
    cases hk
    exact hkb
  · rw [memory.alloc_heap_of_ne kb hne] at hk
    exact h k kb' hk

/-- The keybindings that are allocated for a command are indexed as the parser has
left them. -/
theorem indexed_store {params : KeybindingParams} {memory : Memory}
    (hp : KeyServer.Indexed n action params) (h : memory.Indexed n) :
    Operand n action (store params memory).1 ∧ (store params memory).2.Indexed n := by
  induction params generalizing action memory with
  | kb mode modifiers key inner data ih =>
    obtain ⟨rfl, hmode, hdata⟩ := hp
    obtain ⟨hop, hmem⟩ := ih hdata h
    exact ⟨⟨fun _ => ⟨_, rfl⟩, fun ha => absurd ha (by decide)⟩, hmem.alloc ⟨hmode, hop⟩⟩
  | u m =>
    refine ⟨⟨fun ha => absurd ha hp.1, fun ha => ?_⟩, h⟩
    obtain ⟨m', hm, hlt⟩ := hp.2 ha
    cases hm
    exact ⟨m, rfl, hlt⟩
  | _ =>
    refine ⟨⟨fun ha => absurd ha hp.1, fun ha => ?_⟩, h⟩
    obtain ⟨m', hm, -⟩ := hp.2 ha
    cases hm

/-! ### The arrays of modes -/

/-- The modes are `names`, and every index is one of theirs. -/
structure HasModes (names : List Text) (s : KeyServer) : Prop where
  modes : s.modes = names.map some ++ [none]
  modecursors : s.modecursors.length = s.modes.length
  two : 2 ≤ names.length
  mode : s.mode.toNat < names.length
  defaultMode : s.defaultMode.toNat < names.length
  keybindings : s.memory.Indexed names.length

theorem modeNames_append : modeNames (names.map some ++ [none]) = .ok names := by
  induction names with
  | nil => rfl
  | cons name names ih => rw [List.map_cons, List.cons_append, modeNames, ih, Exec.ok_bind]

theorem HasModes.modeNames (h : HasModes names s) : modeNames s.modes = .ok names := by
  rw [h.modes, modeNames_append]

theorem HasModes.length_modecursors (h : HasModes names s) :
    s.modecursors.length = names.length + 1 := by
  rw [h.modecursors, h.modes, List.length_append, List.length_map, List.length_singleton]

/-- An index of a mode is an index of `modecursors`. -/
theorem HasModes.getElem?_modecursors (h : HasModes names s) (hn : n < names.length) :
    ∃ cursor, s.modecursors[n]? = some cursor := by
  refine ⟨_, List.getElem?_eq_getElem ?_⟩
  rw [h.length_modecursors]
  omega

/-- What a group repeats. -/
def KeyboardGroup.repeated (group : KeyboardGroup) : Option EntryPointer × Option ℕ :=
  (group.repeatKeybinding, group.armedBy)

/-- The keybindings, and what the groups repeat, are the same. -/
structure SameKeys (s t : KeyServer) : Prop where
  memory : t.memory = s.memory
  list : t.list = s.list
  groups : ∀ g, (t.groups g).map KeyboardGroup.repeated = (s.groups g).map KeyboardGroup.repeated

theorem SameKeys.of_eq (hm : t.memory = s.memory) (hl : t.list = s.list)
    (hg : t.groups = s.groups) : SameKeys s t :=
  ⟨hm, hl, fun g => by rw [hg]⟩

theorem SameKeys.refl (s : KeyServer) : SameKeys s s := .of_eq rfl rfl rfl

theorem SameKeys.trans {u : KeyServer} (h : SameKeys s t) (h' : SameKeys t u) : SameKeys s u :=
  ⟨h'.memory.trans h.memory, h'.list.trans h.list, fun g => (h'.groups g).trans (h.groups g)⟩

/-- A group has repeated the same before. -/
theorem SameKeys.group (h : SameKeys s t) {g : ℕ} {group : KeyboardGroup}
    (hg : t.groups g = some group) : ∃ group', s.groups g = some group' ∧
      group'.repeatKeybinding = group.repeatKeybinding ∧ group'.armedBy = group.armedBy := by
  have heq := h.groups g
  rw [hg, Option.map_some, eq_comm, Option.map_eq_some_iff] at heq
  obtain ⟨group', hg', hr⟩ := heq
  exact ⟨group', hg', congrArg Prod.fst hr, congrArg Prod.snd hr⟩

theorem SameKeys.isSome (h : SameKeys s t) (g : ℕ) :
    (t.groups g).isSome = (s.groups g).isSome := by
  rw [← Option.isSome_map, h.groups g, Option.isSome_map]

theorem keybindingDefinemode_spec (h : HasModes names s) (mode : Text) :
    Exec.Gives (keybindingDefinemode mode s) fun t =>
      HasModes (names ++ [mode]) t ∧ SameKeys s t := by
  have hlength : s.modes.length = names.length + 1 := by
    rw [h.modes, List.length_append, List.length_map, List.length_singleton]
  unfold keybindingDefinemode
  rw [h.modeNames, Exec.ok_bind]
  refine Exec.Gives.ok ⟨⟨?_, ?_, ?_, ?_, ?_, ?_⟩, .of_eq rfl rfl rfl⟩
  · show ((reallocArray s.modes (names.length + 1 + 1)).set (names.length + 1) none).set
      names.length (some mode) = _
    have hrealloc : reallocArray s.modes (names.length + 1 + 1) =
        names.map some ++ [none, none] := by
      rw [reallocArray, List.take_of_length_le (by omega), hlength, h.modes]
      simp
    rw [hrealloc, List.set_append_right _ _ (by simp), List.set_append_right _ _ (by simp)]
    simp
  · simp [reallocArray, h.modecursors, hlength]
  · rw [List.length_append]
    exact h.two.trans (Nat.le_add_right _ _)
  · rw [List.length_append]
    exact h.mode.trans_le (Nat.le_add_right _ _)
  · rw [List.length_append]
    exact h.defaultMode.trans_le (Nat.le_add_right _ _)
  · rw [List.length_append]
    exact h.keybindings.mono (Nat.le_add_right _ _)

theorem setModeCursor_spec (mode cursor : Text) {cursors : List (Option Text)}
    (h : names.length ≤ cursors.length) :
    Exec.Gives (setModeCursor mode cursor (names.map some ++ [none]) cursors) fun cursors' =>
      cursors'.length = cursors.length := by
  induction names generalizing cursors with
  | nil => exact Exec.Gives.ok rfl
  | cons name names ih =>
    cases cursors with
    | nil => cases h
    | cons c cursors =>
      refine Exec.Gives.bind (ih (Nat.le_of_succ_le_succ h)) fun cursors' h' => Exec.Gives.ok ?_
      rw [List.length_cons, List.length_cons, h']

/-- The cursor that is shown has no part in `HasModes`. -/
theorem HasModes.image (h : HasModes names s) (image : CursorImage) :
    HasModes names { s with image } :=
  ⟨h.modes, h.modecursors, h.two, h.mode, h.defaultMode, h.keybindings⟩

/-- An index that the parser has stored stays below the number of modes when it is
cut to the 16 bits of `seat->mode`. -/
theorem toUInt16_lt {m : UInt32} (hm : m.toNat < n) : m.toUInt16.toNat < n := by
  rw [UInt32.toNat_toUInt16]
  exact (Nat.mod_le _ _).trans_lt hm

theorem switchMode_spec {m : UInt32} (h : HasModes names s) (hm : m.toNat < names.length) :
    Exec.Gives (switchMode m s) fun t => HasModes names t ∧ SameKeys s t := by
  unfold switchMode
  rw [h.modeNames, Exec.ok_bind]
  refine Exec.Gives.bind (P := fun t => HasModes names t ∧ SameKeys s t) ?_ fun t ht => ?_
  · refine Exec.Gives.ite (fun _ => ?_) fun _ => Exec.Gives.ok ⟨h, .refl s⟩
    obtain ⟨cursor, hcursor⟩ := h.getElem?_modecursors hm
    refine Exec.Gives.nonNull hcursor ?_
    cases cursor with
    | none => exact Exec.Gives.ok ⟨h, .refl s⟩
    | some name =>
      refine Exec.Gives.ok ?_
      split
      · exact ⟨h.image _, .of_eq rfl rfl rfl⟩
      · exact ⟨h, .refl s⟩
  · obtain ⟨ht, hs⟩ := ht
    refine Exec.Gives.ok ⟨⟨ht.modes, ht.modecursors, ht.two, ?_, ht.defaultMode, ht.keybindings⟩,
      hs.trans (.of_eq rfl rfl rfl)⟩
    exact toUInt16_lt hm

theorem switchDefaultMode_spec {m : UInt32} (h : HasModes names s) (hm : m.toNat < names.length) :
    Exec.Gives (switchDefaultMode m s) fun t => HasModes names t ∧ SameKeys s t := by
  unfold switchDefaultMode
  rw [h.modeNames, Exec.ok_bind]
  refine Exec.Gives.bind (P := fun t => HasModes names t ∧ SameKeys s t) ?_ fun t ht => ?_
  · refine Exec.Gives.ite (fun _ => ?_) fun _ => Exec.Gives.ok ⟨h, .refl s⟩
    obtain ⟨cursor, hcursor⟩ := h.getElem?_modecursors hm
    exact Exec.Gives.nonNull hcursor (Exec.Gives.ok ⟨h.image _, .of_eq rfl rfl rfl⟩)
  · obtain ⟨ht, hs⟩ := ht
    refine Exec.Gives.ok ⟨⟨ht.modes, ht.modecursors, ht.two, ?_, ?_, ht.keybindings⟩,
      hs.trans (.of_eq rfl rfl rfl)⟩
    · exact toUInt16_lt hm
    · exact toUInt16_lt hm

theorem setCursor_spec (h : HasModes names s) (enabled : ℤ) :
    HasModes names (s.setCursor enabled) ∧ SameKeys s (s.setCursor enabled) := by
  unfold setCursor
  split
  · exact ⟨⟨h.modes, h.modecursors, h.two, h.mode, h.defaultMode, h.keybindings⟩,
      .of_eq rfl rfl rfl⟩
  · exact ⟨⟨h.modes, h.modecursors, h.two, h.mode, h.defaultMode, h.keybindings⟩,
      .of_eq rfl rfl rfl⟩

theorem keybindingConfigureInput_spec (h : HasModes names s) (cfg : InputConfig) :
    HasModes names (keybindingConfigureInput cfg s) ∧
      SameKeys s (keybindingConfigureInput cfg s) := by
  refine ⟨⟨h.modes, h.modecursors, h.two, h.mode, h.defaultMode, h.keybindings⟩, rfl, rfl, ?_⟩
  intro g
  show ((s.groups g).map _).map _ = _
  rw [Option.map_map]
  rfl

theorem leaveMode_spec (h : HasModes names s) :
    HasModes names s.leaveMode ∧ SameKeys s s.leaveMode := by
  unfold leaveMode
  split
  · exact ⟨⟨h.modes, h.modecursors, h.two, h.defaultMode, h.defaultMode, h.keybindings⟩,
      .of_eq rfl rfl rfl⟩
  · exact ⟨h, .refl s⟩

/-- An action other than `definekey` returns, may define a mode, and leaves the
keybindings alone. -/
theorem runAction_spec {data : KeyData} (h : HasModes names s)
    (ho : Operand names.length action data) (ha : action ≠ .definekey) :
    Exec.Gives (runAction moves action data s) fun t =>
      (∃ more, HasModes (names ++ more) t) ∧ SameKeys s t := by
  have hsame : HasModes (names ++ []) s := by
    rw [List.append_nil]
    exact h
  unfold runAction
  split
  · exact absurd rfl ha
  · obtain ⟨m, hm, hlt⟩ := ho.2 (.inl rfl)
    cases hm
    exact (switchMode_spec h hlt).mono fun t ht => ⟨⟨[], by simpa using ht.1⟩, ht.2⟩
  · obtain ⟨m, hm, hlt⟩ := ho.2 (.inr rfl)
    cases hm
    exact (switchDefaultMode_spec h hlt).mono fun t ht => ⟨⟨[], by simpa using ht.1⟩, ht.2⟩
  · next mode =>
    exact (keybindingDefinemode_spec h mode).mono fun t ht => ⟨⟨[mode], ht.1⟩, ht.2⟩
  · next mode cursor =>
    have hle : names.length ≤ s.modecursors.length := by
      rw [h.length_modecursors]
      exact Nat.le_succ _
    have hspec := setModeCursor_spec mode cursor hle
    rw [← h.modes] at hspec
    refine Exec.Gives.bind hspec fun cursors hc => ?_
    refine Exec.Gives.ok ⟨⟨[], ?_⟩, .of_eq rfl rfl rfl⟩
    exact ⟨hsame.modes, hc.trans h.modecursors, hsame.two, hsame.mode, hsame.defaultMode,
      hsame.keybindings⟩
  · next enabled =>
    exact Exec.Gives.ok ⟨⟨[], by simpa using (setCursor_spec h enabled).1⟩,
      (setCursor_spec h enabled).2⟩
  · next cfg =>
    exact Exec.Gives.ok ⟨⟨[], by simpa using (keybindingConfigureInput_spec h cfg).1⟩,
      (keybindingConfigureInput_spec h cfg).2⟩
  · exact Exec.Gives.ok ⟨⟨[], hsame⟩, .refl s⟩

/-! ### Steps -/

/-- The modes are `names` and perhaps others after them. -/
def Grown (names : List Text) (t : KeyServer) : Prop := ∃ more, HasModes (names ++ more) t

theorem HasModes.grown (h : HasModes names s) : Grown names s := ⟨[], by simpa using h⟩

/-- Keybindings that are freed, and entries of the array, have no part in
`HasModes`. -/
theorem HasModes.of_heap (h : HasModes names s)
    (hheap : ∀ k kb, t.memory.heap k = some kb → s.memory.heap k = some kb)
    (ht : t.modes = s.modes ∧ t.modecursors = s.modecursors ∧ t.mode = s.mode ∧
      t.defaultMode = s.defaultMode) : HasModes names t := by
  obtain ⟨hmodes, hcursors, hmode, hdefault⟩ := ht
  refine ⟨hmodes.trans h.modes, ?_, h.two, ?_, ?_,
    fun k kb hk => h.keybindings k kb (hheap k kb hk)⟩
  · rw [hcursors, hmodes, h.modecursors]
  · rw [hmode]
    exact h.mode
  · rw [hdefault]
    exact h.defaultMode

theorem keybindingDefinekey_hasModes (h : HasModes names s) (k : ℕ) :
    Exec.Ensures (keybindingDefinekey moves k s) (HasModes names) := by
  intro t ht
  obtain ⟨u, hu, ht⟩ := Exec.bind_eq_ok.mp ht
  obtain ⟨_, -, ht⟩ := Exec.bind_eq_ok.mp ht
  cases ht
  obtain ⟨kb, -, ⟨-, rfl⟩ | ⟨i, found, ks, -, -, -, rfl⟩⟩ := keybindingListPush_cases hu
  · exact h.of_heap (fun _ _ hk => hk) ⟨rfl, rfl, rfl, rfl⟩
  · exact h.of_heap (fun _ _ hk => (Ownership.eq_of_without hk).2) ⟨rfl, rfl, rfl, rfl⟩

theorem runAction_hasModes {data : KeyData} (h : HasModes names s)
    (ho : Operand names.length action data) :
    Exec.Ensures (runAction moves action data s) (Grown names) := by
  by_cases ha : action = .definekey
  · subst ha
    obtain ⟨inner, rfl⟩ := ho.1 rfl
    exact (keybindingDefinekey_hasModes h inner).mono fun t ht => ht.grown
  · exact (runAction_spec h ho ha).ensures.mono fun t ht => ht.1

theorem parseRcLine_hasModes (h : HasModes names s) (line : Text) (errno : Errno) :
    Exec.Ensures (parseRcLine L moves line errno s) (Grown names) := by
  intro t ht
  obtain rfl | ⟨names', action, params, hnames, hresult, ht⟩ := parseRcLine_cases ht
  · exact h.grown
  · rw [h.modeNames] at hnames
    cases hnames
    have hindexed := (indexed_command (L := L) h.two _).of_result hresult
    obtain ⟨hop, hmem⟩ := indexed_store hindexed h.keybindings
    have hstored : HasModes names { s with memory := (store params s.memory).2 } :=
      ⟨h.modes, h.modecursors, h.two, h.mode, h.defaultMode, hmem⟩
    exact runAction_hasModes hstored hop t ht

/-- What a keyboard group repeats has no part in `HasModes`. -/
theorem HasModes.groups (h : HasModes names s) (groups : ℕ → Option KeyboardGroup) :
    HasModes names { s with groups } :=
  h.of_heap (fun _ _ hk => hk) ⟨rfl, rfl, rfl, rfl⟩

theorem HasModes.armKeyRepeat (h : HasModes names s) (g : ℕ) (group : KeyboardGroup) (i k : ℕ) :
    HasModes names (s.armKeyRepeat g group i k) := by
  unfold KeyServer.armKeyRepeat
  split
  · exact h.groups _
  · exact h

theorem handleSym_hasModes {g : ℕ} {pressed : Bool} {modifiers : UInt32}
    (st : KeyServer × Bool) (sym : UInt32) (h : Grown names st.1) :
    Exec.Ensures (handleSym moves g pressed modifiers st sym) fun st' => Grown names st'.1 := by
  intro st' hst'
  obtain ⟨more, hmodes⟩ := h
  obtain ⟨-, -, handled, hcommand⟩ | rfl | ⟨group, -, hdisarm⟩ := handleSym_cases hst'
  · obtain ⟨group, -, ⟨-, ht⟩ | ⟨-, ht⟩ | ⟨i, k, kb, -, ⟨-, -, hkb⟩, ht⟩⟩ :=
      handleCommandKeyBindings_cases hcommand
    · rw [ht]
      exact ⟨more, hmodes⟩
    · rw [ht]
      exact ⟨more, (leaveMode_spec hmodes).1⟩
    · obtain ⟨-, hop⟩ := hmodes.keybindings k kb hkb
      obtain ⟨more', h'⟩ :=
        runAction_hasModes ((leaveMode_spec hmodes).1.armKeyRepeat g group i k) hop _ ht
      exact ⟨more ++ more', by rwa [← List.append_assoc]⟩
  · exact ⟨more, hmodes⟩
  · rw [hdisarm]
    exact ⟨more, hmodes.groups _⟩

theorem handleKeyEvent_hasModes (h : HasModes names s) (g : ℕ) (pressed : Bool)
    (syms : List UInt32) (modifiers : UInt32) :
    Exec.Ensures (handleKeyEvent moves g pressed syms modifiers s) (Grown names) := by
  refine Exec.Ensures.bind (P := fun st => Grown names st.1) ?_ fun st hst => Exec.Ensures.ok hst
  exact Exec.Ensures.foldlM (fun st sym _ hst => handleSym_hasModes st sym hst) h.grown

theorem handleKeyboardRepeat_hasModes (h : HasModes names s) (g : ℕ) (group : KeyboardGroup) :
    Exec.Ensures (handleKeyboardRepeat moves g group s) (Grown names) := by
  intro t ht
  obtain ⟨time, rfl | ⟨p, k, kb, ⟨-, -, -, hkb⟩, ht⟩⟩ := handleKeyboardRepeat_cases ht
  · exact (h.groups _).grown
  · exact runAction_hasModes (h.groups _) (h.keybindings k kb hkb).2 t ht

theorem initial_hasModes (renderer : Bool) :
    HasModes [ascii "top", ascii "root", ascii "resize"] (initial renderer) :=
  ⟨rfl, rfl, by decide, Nat.zero_lt_succ _, Nat.zero_lt_succ _, fun _ _ hk => nomatch hk⟩

/-- Every step keeps the modes and their indices, and may define a mode. -/
theorem step_hasModes (h : HasModes names s) (e : Event) :
    Exec.Ensures (step L moves s e) (Grown names) := by
  cases e with
  | line line errno => exact parseRcLine_hasModes h line errno
  | key g pressed syms modifiers =>
    exact Exec.Ensures.ifSome (fun _ => h.grown) fun _ _ =>
      handleKeyEvent_hasModes h g pressed syms modifiers
  | repeatTimer g =>
    refine Exec.Ensures.ifSome (fun _ => h.grown) fun group _ => ?_
    exact Exec.Ensures.ite (fun _ => handleKeyboardRepeat_hasModes h g group) fun _ =>
      Exec.Ensures.ok h.grown
  | newKeyboard identifier rate delay =>
    have ht : HasModes names (s.cgKeyboardGroupAdd identifier rate delay) :=
      h.of_heap (fun _ _ hk => hk) ⟨rfl, rfl, rfl, rfl⟩
    exact Exec.Ensures.ok ht.grown
  | lastKeyboard g => exact Exec.Ensures.ok (h.groups _).grown
  | pointers n =>
    have ht : HasModes names { s with numPointers := n } :=
      h.of_heap (fun _ _ hk => hk) ⟨rfl, rfl, rfl, rfl⟩
    exact Exec.Ensures.ok ht.grown
  | requestSetCursor focused =>
    refine Exec.Ensures.ite (fun _ => Exec.Ensures.ok h.grown) fun _ => ?_
    refine Exec.Ensures.nonNull fun cursor _ => Exec.Ensures.ok ?_
    split
    · exact (h.image _).grown
    · exact h.grown

/-- Every run keeps them. -/
theorem steps_hasModes {ok : KeyServer → Event → Prop} (h : HasModes names s)
    (ht : Exec.Steps (step L moves) ok s t) : Grown names t := by
  refine ht.invariant h.grown fun u e hu _ => ?_
  obtain ⟨more, hu⟩ := hu
  refine (step_hasModes hu e).mono fun v hv => ?_
  obtain ⟨more', hv⟩ := hv
  exact ⟨more ++ more', by rwa [← List.append_assoc]⟩

/-- Keysyms of letters, and no names of other events. -/
def letters : Libraries where
  xkbKeysymFromName
    | [c] => c.toUInt32
    | _ => 0
  libevdevEventCodeFromName _ := -1
  libevdevEventCodeGetName _ := none

end KeyServer

end Cagebreak
