/-
Settings that are given and overridden.

A configuration record gives some of its settings and leaves the others unset.
`lastGiven` is what a sequence of records says about a setting; a merge of two
records `Overrides` a setting when the new record has precedence where it gives
the setting, and then merging one record after the other yields what was given
last.  A merge that picks each value with `override` is associative, and a record of
unset values is its identity.
-/
import Mathlib.Data.List.Induction
import Mathlib.Tactic.Common

/-- One setting of a record: its value, and if the record gives it. -/
structure Setting (C α : Type) where
  get : C → α
  isSet : C → Bool

namespace Setting

variable {C α : Type} {f : Setting C α} {merge : C → C → C} {cs : List C} {c : C} {a : α}

/-- The value given last in a sequence of records, or `a` if there is none. -/
def lastGiven (f : Setting C α) (a : α) (cs : List C) : α :=
  (cs.reverse.find? f.isSet).elim a f.get

@[simp] theorem lastGiven_nil : f.lastGiven a [] = a := rfl

theorem lastGiven_concat :
    f.lastGiven a (cs ++ [c]) = if f.isSet c then f.get c else f.lastGiven a cs := by
  rw [lastGiven, List.reverse_concat, List.find?_cons]
  cases f.isSet c with
  | true => rfl
  | false => rfl

/-- What was given before the first record is the value to start from. -/
theorem lastGiven_cons :
    f.lastGiven a (c :: cs) = f.lastGiven (if f.isSet c then f.get c else a) cs := by
  rw [lastGiven, List.reverse_cons, List.find?_append, lastGiven]
  cases cs.reverse.find? f.isSet with
  | some d => rfl
  | none =>
    show (List.find? f.isSet [c]).elim a f.get = _
    rw [List.find?_singleton]
    cases f.isSet c with
    | true => rfl
    | false => rfl

theorem lastGiven_lastGiven : f.lastGiven (f.lastGiven a cs) cs = f.lastGiven a cs := by
  rw [lastGiven, lastGiven]
  cases cs.reverse.find? f.isSet with
  | some d => rfl
  | none => rfl

/-- A record that is put before the others decides nothing they decide. -/
theorem lastGiven_cons_lastGiven :
    f.lastGiven (f.lastGiven a cs) (c :: cs) = f.lastGiven a (c :: cs) := by
  rw [lastGiven_cons, lastGiven_cons]
  by_cases hc : f.isSet c = true
  · rw [if_pos hc, if_pos hc]
  · rw [if_neg hc, if_neg hc, lastGiven_lastGiven]

/-- Records may be replaced by records that give the same. -/
theorem lastGiven_map {g : C → C} (hset : ∀ c, f.isSet (g c) = f.isSet c)
    (hget : ∀ c, f.isSet c = true → f.get (g c) = f.get c) :
    f.lastGiven a (cs.map g) = f.lastGiven a cs := by
  induction cs using List.reverseRecOn with
  | nil => rfl
  | append_singleton cs c ih =>
    rw [List.map_append, List.map_singleton, lastGiven_concat, lastGiven_concat, hset, ih]
    by_cases hc : f.isSet c = true
    · rw [if_pos hc, if_pos hc, hget c hc]
    · rw [if_neg hc, if_neg hc]

theorem lastGiven_of_notSet (h : ∀ c ∈ cs, f.isSet c = false) : f.lastGiven a cs = a := by
  have hnone : cs.reverse.find? f.isSet = none := by
    rw [List.find?_eq_none]
    intro c hc
    rw [h c (List.mem_reverse.mp hc)]
    exact Bool.false_ne_true
  rw [lastGiven, hnone]
  rfl

/-- Some record gives the setting, and its value is found. -/
theorem exists_lastGiven (h : ∃ c ∈ cs, f.isSet c = true) :
    ∃ c ∈ cs, f.isSet c = true ∧ f.lastGiven a cs = f.get c := by
  cases hfind : cs.reverse.find? f.isSet with
  | some d =>
    refine ⟨d, List.mem_reverse.mp (List.mem_of_find?_eq_some hfind), List.find?_some hfind, ?_⟩
    rw [lastGiven, hfind]
    rfl
  | none =>
    obtain ⟨c, hc, hset⟩ := h
    exact absurd hset (List.find?_eq_none.mp hfind c (List.mem_reverse.mpr hc))

/-- The new record of a merge has precedence where it gives the setting. -/
def Overrides (f : Setting C α) (merge : C → C → C) : Prop :=
  ∀ new old, f.get (merge new old) = if f.isSet new then f.get new else f.get old

/-- The new record of a merge decides the setting, given or not. -/
def Replaces (f : Setting C α) (merge : C → C → C) : Prop :=
  ∀ new old, f.get (merge new old) = f.get new

/-- Merging every record into the result of the earlier ones. -/
def mergeAll (merge : C → C → C) : List C → Option C
  | [] => none
  | c :: cs => some (cs.foldl (fun old new => merge new old) c)

theorem mergeAll_concat : mergeAll merge (cs ++ [c]) =
    some ((mergeAll merge cs).elim c (merge c)) := by
  cases cs with
  | nil => rfl
  | cons d cs =>
    rw [List.cons_append, mergeAll, List.foldl_append]
    rfl

/-- **Newest explicit value wins.** -/
theorem Overrides.get_mergeAll (h : f.Overrides merge) (hset : ∀ c, f.isSet c = false → f.get c = a)
    {d : C} (hd : mergeAll merge cs = some d) : f.get d = f.lastGiven a cs := by
  induction cs using List.reverseRecOn generalizing d with
  | nil => cases hd
  | append_singleton cs c ih =>
    rw [mergeAll_concat] at hd
    obtain rfl := Option.some.inj hd
    rw [lastGiven_concat]
    cases hcs : Setting.mergeAll merge cs with
    | none =>
      have hnil : cs = [] := by
        cases cs with
        | nil => rfl
        | cons d cs => cases hcs
      subst hnil
      show f.get c = _
      by_cases hc : f.isSet c = true
      · rw [if_pos hc]
      · rw [if_neg hc, lastGiven_nil]
        exact hset c (by simpa using hc)
    | some e =>
      show f.get (merge c e) = _
      rw [h, ih hcs]

/-- A merge that replaces keeps the value of the last record only. -/
theorem Replaces.get_mergeAll (h : f.Replaces merge) {d : C} (hd : mergeAll merge cs = some d) :
    ∃ c, cs.getLast? = some c ∧ f.get d = f.get c := by
  induction cs using List.reverseRecOn with
  | nil => cases hd
  | append_singleton cs c ih =>
    rw [mergeAll_concat] at hd
    obtain rfl := Option.some.inj hd
    refine ⟨c, List.getLast?_concat, ?_⟩
    cases Setting.mergeAll merge cs with
    | none => rfl
    | some e => exact h c e

/-- Two merges under which new records have precedence agree. -/
theorem Overrides.agrees {merge' : C → C → C} (h : f.Overrides merge) (h' : f.Overrides merge')
    (new old : C) : f.get (merge new old) = f.get (merge' new old) := by
  rw [h, h']

/-- A merge that replaces agrees with one that overrides unless the old record
alone gives the setting. -/
theorem Replaces.agrees_iff {merge' : C → C → C} (h : f.Replaces merge) (h' : f.Overrides merge')
    (hset : ∀ c, f.isSet c = false ↔ f.get c = a) (new old : C) :
    f.get (merge new old) = f.get (merge' new old) ↔
      (f.isSet new = true ∨ f.isSet old = false) := by
  rw [h, h']
  by_cases hnew : f.isSet new = true
  · simp [hnew]
  · have hget := (hset new).mp (by simpa using hnew)
    rw [if_neg hnew, hget, hset old]
    simp [hnew, eq_comm]

/-- After a merge that replaces, a setting has the value given last exactly
when it was never given or the last record gives it. -/
theorem Replaces.mergeAll_iff (h : f.Replaces merge) (hset : ∀ c, f.isSet c = false ↔ f.get c = a)
    {d : C} (hd : mergeAll merge cs = some d) : f.get d = f.lastGiven a cs ↔
      ((∃ c ∈ cs, f.isSet c = true) → ∃ c, cs.getLast? = some c ∧ f.isSet c = true) := by
  obtain ⟨c, hc, hget⟩ := h.get_mergeAll hd
  obtain ⟨cs, rfl⟩ := List.getLast?_eq_some_iff.mp hc
  rw [hget, lastGiven_concat]
  by_cases hcset : f.isSet c = true
  · rw [if_pos hcset]
    exact ⟨fun _ _ => ⟨c, hc, hcset⟩, fun _ => rfl⟩
  · rw [if_neg hcset, (hset c).mp (by simpa using hcset)]
    constructor
    · rintro hlast ⟨b, hb, hbset⟩
      -- an earlier record gives a value, which is not that of an unset one
      have hb' : b ∈ cs := by
        obtain hb | hb := List.mem_append.mp hb
        · exact hb
        · rw [List.mem_singleton.mp hb] at hbset
          exact absurd hbset hcset
      obtain ⟨e, -, heset, heq⟩ := exists_lastGiven (a := a) ⟨b, hb', hbset⟩
      rw [heq] at hlast
      rw [(hset e).mpr hlast.symm] at heset
      exact absurd heset Bool.false_ne_true
    · intro himp
      by_cases hex : ∃ b ∈ cs, f.isSet b = true
      · obtain ⟨b, hb, hbset⟩ := hex
        obtain ⟨e, he, heset⟩ := himp ⟨b, List.mem_append_left _ hb, hbset⟩
        rw [hc] at he
        obtain rfl := Option.some.inj he
        exact absurd heset hcset
      · refine (lastGiven_of_notSet fun b hb => ?_).symm
        simpa using fun hbset => hex ⟨b, hb, hbset⟩

/-! ### Values that override -/

section Over

variable {unset : α → Bool} {b e : α}

/-- The first value, or the second one if the first is unset. -/
def override (unset : α → Bool) (a b : α) : α := if unset a then b else a

theorem override_assoc :
    override unset (override unset a b) e = override unset a (override unset b e) := by
  by_cases h : unset a = true
  · simp [override, h]
  · simp [override, h]

theorem override_right (he : unset a = true → e = a) : override unset a e = a := by
  rw [override]
  split
  · next h => exact he h
  · rfl

/-- A setting that is given by a value other than those for an unset one. -/
def ofUnset (get : C → α) (unset : α → Bool) : Setting C α where
  get := get
  isSet c := !unset (get c)

theorem ofUnset_overrides {get : C → α}
    (h : ∀ new old, get (merge new old) = override unset (get new) (get old)) :
    (ofUnset get unset).Overrides merge := by
  intro new old
  show get (merge new old) = _
  rw [h, override]
  cases hnew : unset (get new) with
  | true => simp [ofUnset, hnew]
  | false => simp [ofUnset, hnew]

end Over

end Setting
