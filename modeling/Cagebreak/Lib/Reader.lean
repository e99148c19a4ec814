/-
Readers of a C string that share `errno`.

A reader takes tokens from `saveptr` and converts them.  A conversion that is
out of range leaves `ERANGE` in `errno`, where it stays for whatever string is
read next, until a reader clears it.  A reader that fails may leave an error
text.

* `Blind` — a reader that does what it does whatever `errno` is, with the rules
  that follow its text;
* `Differs` — the texts of which a reader makes something else when `ERANGE` is
  left over, with the rules for readers that refuse everything then;
* `Explains` — a reader that leaves a text whenever it fails, with its rules.
-/
import Cagebreak.Lib.Strto

/-- `errno`, as far as a reader tells its values apart. -/
inductive Errno
  | clear
  | erange
  deriving DecidableEq, Repr

/-- What a reader works on. -/
structure Input where
  saveptr : Text
  errno : Errno

/-- A reader fails with the text it leaves in `*errstr`, if it leaves one. -/
abbrev Reader := EStateM (Option Text) Input

namespace Reader

open Strto

variable {α β : Type} {p : Reader α} {f : α → Reader β} {s : Input} {t : Text} {e : Errno}

/-- `strtok_r(NULL, delim, saveptr)`. -/
def token (delim : Text) : Reader (Option Text) := fun s =>
  .ok (strtok delim s.saveptr).1 { s with saveptr := (strtok delim s.saveptr).2 }

/-- What is left after the last token. -/
def rest : Reader Text := fun s => .ok s.saveptr s

/-- The value of a conversion, which may set `errno`. -/
def convert (c : Converted α) : Reader α := fun s =>
  .ok c.value { s with errno := if c.range then .erange else s.errno }

/-- `errno == ERANGE`. -/
def isErange : Reader Bool := fun s => .ok (decide (s.errno = .erange)) s

/-- `errno = 0`. -/
def clearErrno : Reader Unit := fun s => .ok () { s with errno := .clear }

/-- Failure with an error text. -/
def fail (errstr : Text) : Reader α := fun s => .error (some errstr) s

/-- Failure under a condition. -/
def failIf (c : Prop) [Decidable c] (errstr : Text) : Reader Unit :=
  if c then fail errstr else pure ()

/-- Failure that assigns no error text. -/
def failSilently : Reader α := fun s => .error none s

/-- The token, or failure. -/
def require (token : Option Text) (errstr : Text) : Reader Text :=
  match token with
  | some tok => pure tok
  | none => fail errstr

/-! ### What a reader makes of its input -/

/-- The value and the input that is left, when the reader does not fail. -/
def run (p : Reader α) (s : Input) : Option (α × Input) :=
  match p s with
  | .ok a s => some (a, s)
  | .error _ _ => none

/-- The value, when the reader does not fail. -/
def result (p : Reader α) (t : Text) (e : Errno) : Option α := (p.run ⟨t, e⟩).map Prod.fst

/-- `errno` after the reader. -/
def errnoAfter (p : Reader α) (t : Text) (e : Errno) : Errno :=
  match p ⟨t, e⟩ with
  | .ok _ s => s.errno
  | .error _ s => s.errno

theorem run_bind : (p >>= f).run s = (p.run s).bind fun r => (f r.1).run r.2 := by
  show (match EStateM.bind p f s with
    | .ok a s => some (a, s)
    | .error _ _ => none) = _
  unfold run EStateM.bind
  cases p s <;> rfl

/-- A reader that returns after another one has returned. -/
theorem run_bind_eq_some {r : β × Input} :
    (p >>= f).run s = some r ↔ ∃ q, p.run s = some q ∧ (f q.1).run q.2 = some r := by
  rw [run_bind, Option.bind_eq_some_iff]

theorem result_eq_some {a : α} : p.result t e = some a ↔ ∃ u, p.run ⟨t, e⟩ = some (a, u) := by
  unfold result
  rw [Option.map_eq_some_iff]
  constructor
  · rintro ⟨r, hr, rfl⟩
    exact ⟨r.2, hr⟩
  · rintro ⟨u, hu⟩
    exact ⟨(a, u), hu, rfl⟩

theorem run_token (delim : Text) :
    (token delim).run s =
      some ((strtok delim s.saveptr).1, { s with saveptr := (strtok delim s.saveptr).2 }) := rfl

theorem run_convert (c : Converted α) :
    (convert c).run s = some (c.value, { s with errno := if c.range then .erange else s.errno }) :=
  rfl

theorem run_isErange : isErange.run s = some (decide (s.errno = .erange), s) := rfl

/-- A conversion and a look at `errno`, when `ERANGE` is left over. -/
theorem run_checked_erange (c : Converted α) (g : α → Bool → Reader β) :
    (do let a ← convert c; let range ← isErange; g a range).run ⟨t, .erange⟩ =
      (g c.value true).run ⟨t, .erange⟩ := by
  simp only [run_bind, run_convert, run_isErange, Option.bind_some, ite_self, decide_true]

/-- A conversion and a look at `errno`, when nothing is. -/
theorem run_checked_clear (c : Converted α) (g : α → Bool → Reader β) :
    (do let a ← convert c; let range ← isErange; g a range).run ⟨t, .clear⟩ =
      (g c.value c.range).run ⟨t, if c.range then .erange else .clear⟩ := by
  obtain ⟨a, u, range⟩ := c
  cases range <;> rfl

theorem run_failIf {c : Prop} [Decidable c] (errstr : Text) :
    (failIf c errstr).run s = if c then none else some ((), s) := by
  unfold failIf
  split <;> rfl

/-- What is checked holds when the reader goes on. -/
theorem run_failIf_eq_some {c : Prop} [Decidable c] {errstr : Text} {r : Unit × Input} :
    (failIf c errstr).run s = some r ↔ ¬c ∧ r = ((), s) := by
  rw [run_failIf]
  split
  · next h => simp [h]
  · next h => simp [h, eq_comm]

@[simp] theorem run_require (tok errstr : Text) :
    (require (some tok) errstr).run s = some (tok, s) := rfl

theorem run_require_eq_some {tok : Option Text} {errstr : Text} {r : Text × Input} :
    (require tok errstr).run s = some r ↔ tok = some r.1 ∧ r.2 = s := by
  cases tok with
  | none => exact iff_of_false (fun h => nomatch h) fun h => nomatch h.1
  | some tok =>
    show some (tok, s) = some r ↔ _
    rw [Option.some_inj, Option.some_inj, Prod.ext_iff, eq_comm (a := s)]

theorem run_ite {c : Prop} [Decidable c] {q : Reader α} :
    (if c then p else q).run s = if c then p.run s else q.run s :=
  apply_ite (fun p : Reader α => p.run s) c p q

/-! ### What a reader returns -/

/-- Every value that the reader returns satisfies `Q`. -/
def Yields (p : Reader α) (Q : α → Prop) : Prop := ∀ s r, p.run s = some r → Q r.1

namespace Yields

variable {P Q : α → Prop} {R : β → Prop}

theorem pure {a : α} (h : Q a) : Yields (Pure.pure a) Q := by
  rintro s r ⟨⟩
  exact h

theorem fail {errstr : Text} : Yields (Reader.fail errstr) Q := by
  rintro s r ⟨⟩

theorem failSilently : Yields Reader.failSilently Q := by
  rintro s r ⟨⟩

theorem bind (hp : Yields p P) (hf : ∀ a, P a → Yields (f a) R) : Yields (p >>= f) R := by
  intro s r hr
  rw [run_bind] at hr
  obtain ⟨q, hq, hr⟩ := Option.bind_eq_some_iff.mp hr
  exact hf q.1 (hp s q hq) q.2 r hr

/-- Sequencing after a reader about which nothing needs to be known. -/
theorem bind_any (hf : ∀ a, Yields (f a) R) : Yields (p >>= f) R :=
  bind (P := fun _ => True) (fun _ _ _ => trivial) fun a _ => hf a

theorem ite {c : Prop} [Decidable c] {q : Reader α} (hp : Yields p Q) (hq : Yields q Q) :
    Yields (if c then p else q) Q := by
  split
  · exact hp
  · exact hq

theorem of_result {a : α} (hp : Yields p Q) (ha : p.result t e = some a) : Q a := by
  obtain ⟨r, hr, rfl⟩ := Option.map_eq_some_iff.mp ha
  exact hp _ r hr

end Yields

/-! ### Readers that do not look at `errno` -/

/-- The value and the text that are left. -/
def outcome (p : Reader α) (t : Text) (e : Errno) : Option (α × Text) :=
  (p.run ⟨t, e⟩).map fun r => (r.1, r.2.saveptr)

/-- The reader does the same whatever `errno` is. -/
def Blind (p : Reader α) : Prop := ∀ t e e', p.outcome t e = p.outcome t e'

namespace Blind

theorem pure (a : α) : Blind (pure a : Reader α) := fun _ _ _ => rfl

theorem fail (errstr : Text) : Blind (Reader.fail errstr : Reader α) := fun _ _ _ => rfl

theorem failIf (c : Prop) [Decidable c] (errstr : Text) : Blind (Reader.failIf c errstr) := by
  intro t e e'
  unfold outcome
  rw [run_failIf, run_failIf]
  split <;> rfl

theorem token (delim : Text) : Blind (token delim) := fun _ _ _ => rfl

theorem rest : Blind rest := fun _ _ _ => rfl

theorem convert (c : Converted α) : Blind (convert c) := fun _ _ _ => rfl

theorem require (token : Option Text) (errstr : Text) : Blind (require token errstr) := by
  cases token with
  | none => exact fail errstr
  | some tok => exact pure tok

theorem ite {c : Prop} [Decidable c] {q : Reader α} (hp : Blind p) (hq : Blind q) :
    Blind (if c then p else q) := by
  split
  · exact hp
  · exact hq

/-- What follows does not see the `errno` from before. -/
theorem clearErrno_bind {f : Unit → Reader β} : Blind (Reader.clearErrno >>= f) :=
  fun _ _ _ => rfl

theorem bind (hp : Blind p) (hf : ∀ a, Blind (f a)) : Blind (p >>= f) := by
  intro t e e'
  have h := hp t e e'
  unfold outcome at h ⊢
  rw [run_bind, run_bind]
  cases h1 : p.run ⟨t, e⟩ with
  | none =>
    rw [h1, Option.map_none, eq_comm, Option.map_eq_none_iff] at h
    rw [h]
  | some r =>
    rw [h1, Option.map_some, eq_comm, Option.map_eq_some_iff] at h
    obtain ⟨r', h2, hr⟩ := h
    obtain ⟨hval, htext⟩ := Prod.mk.inj hr
    rw [h2, Option.bind_some, Option.bind_some, hval]
    obtain ⟨_, u, _⟩ := r
    obtain ⟨_, u', _⟩ := r'
    dsimp only at htext
    subst htext
    exact hf _ _ _ _

end Blind

/-! ### Readers that do -/

/-- The reader gives another result of this text when `ERANGE` is left over. -/
def Differs (p : Reader α) (t : Text) : Prop := p.result t .erange ≠ p.result t .clear

/-- The next token and what follows it have the property. -/
def Next (delim : Text) (P : Text → Text → Prop) (t : Text) : Prop :=
  match strtok delim t with
  | (some tok, u) => P tok u
  | (none, _) => False

theorem result_eq_map_outcome : p.result t e = (p.outcome t e).map Prod.fst := by
  unfold result outcome
  rw [Option.map_map]
  rfl

theorem Blind.not_differs (hp : Blind p) : ¬Differs p t := by
  intro h
  rw [Differs, result_eq_map_outcome, result_eq_map_outcome, hp t .erange .clear] at h
  exact h rfl

theorem result_eq_iff {e' : Errno} : p.result t e = p.result t e' ↔ e = e' ∨ ¬Differs p t := by
  unfold Differs
  rw [not_not]
  cases e <;> cases e' <;> simp [eq_comm]

theorem result_map (g : α → β) :
    (p >>= fun a => pure (g a)).result t e = (p.result t e).map g := by
  unfold result
  rw [run_bind]
  cases p.run ⟨t, e⟩ <;> rfl

/-- What becomes of the value does not matter, as long as it can be told. -/
theorem differs_map {g : α → β} (hg : Function.Injective g) :
    Differs (p >>= fun a => pure (g a)) t ↔ Differs p t := by
  unfold Differs
  rw [result_map, result_map, Ne, (Option.map_injective hg).eq_iff]

/-- A reader that needs a token to depend on `errno`. -/
theorem differs_next {delim : Text} {f : Option Text → Reader β} {P : Text → Text → Prop}
    (hnone : Blind (f none)) (hsome : ∀ tok u, Differs (f (some tok)) u ↔ P tok u) :
    Differs (token delim >>= f) t ↔ Next delim P t := by
  show Differs (f (strtok delim t).1) (strtok delim t).2 ↔ _
  rw [Next]
  cases strtok delim t with
  | mk tok u =>
    cases tok with
    | none => exact iff_of_false hnone.not_differs not_false
    | some tok => exact hsome tok u

/-- A reader with a required token. -/
theorem differs_require {delim errstr : Text} {f : Text → Reader β} {P : Text → Text → Prop}
    (hf : ∀ tok u, Differs (f tok) u ↔ P tok u) :
    Differs (do let tok ← token delim; let tok ← require tok errstr; f tok) t ↔
      Next delim P t :=
  differs_next (fun _ _ _ => rfl) hf

/-- The reader accepts nothing when `ERANGE` is left over. -/
def Refuses (p : Reader α) : Prop := ∀ t, p.run ⟨t, .erange⟩ = none

theorem Refuses.bind (hp : Refuses p) : Refuses (p >>= f) := by
  intro t
  rw [run_bind, hp t]
  rfl

/-- The reader accepts the text. -/
def Accepts (p : Reader α) (t : Text) : Prop := ∃ r, p.run ⟨t, .clear⟩ = some r

theorem Refuses.differs_iff (hp : Refuses p) : Differs p t ↔ Accepts p t := by
  unfold Differs result Accepts
  rw [hp t, Option.map_none, ne_comm, Ne, Option.map_eq_none_iff, ← Ne,
    Option.ne_none_iff_exists']

/-! ### Readers that fail with a text -/

/-- The reader fails here and leaves no text. -/
def Silent (p : Reader α) (s : Input) : Prop := ∃ u, p s = .error none u

/-- The reader leaves a text whenever it fails. -/
def Explains (p : Reader α) : Prop := ∀ s, ¬Silent p s

theorem silent_bind :
    Silent (p >>= f) s ↔ Silent p s ∨ ∃ r, p.run s = some r ∧ Silent (f r.1) r.2 := by
  show (∃ u, EStateM.bind p f s = .error none u) ↔ _
  unfold Silent run EStateM.bind
  cases p s with
  | ok a s' => simp
  | error err s' => simp

theorem silent_ite {c : Prop} [Decidable c] {q : Reader α} :
    Silent (if c then p else q) s ↔ if c then Silent p s else Silent q s := by
  split
  · rfl
  · rfl

theorem silent_failSilently : Silent (failSilently : Reader α) s := ⟨s, rfl⟩

namespace Explains

theorem pure (a : α) : Explains (pure a : Reader α) := fun _ ⟨_, h⟩ => nomatch h

theorem fail (errstr : Text) : Explains (Reader.fail errstr : Reader α) := fun _ ⟨_, h⟩ => nomatch h

theorem token (delim : Text) : Explains (token delim) := fun _ ⟨_, h⟩ => nomatch h

theorem rest : Explains rest := fun _ ⟨_, h⟩ => nomatch h

theorem convert (c : Converted α) : Explains (convert c) := fun _ ⟨_, h⟩ => nomatch h

theorem isErange : Explains isErange := fun _ ⟨_, h⟩ => nomatch h

theorem clearErrno : Explains clearErrno := fun _ ⟨_, h⟩ => nomatch h

theorem ite {c : Prop} [Decidable c] {q : Reader α} (hp : Explains p) (hq : Explains q) :
    Explains (if c then p else q) := by
  split
  · exact hp
  · exact hq

theorem failIf (c : Prop) [Decidable c] (errstr : Text) : Explains (Reader.failIf c errstr) :=
  ite (fail errstr) (pure ())

theorem require (token : Option Text) (errstr : Text) : Explains (require token errstr) := by
  cases token with
  | none => exact fail errstr
  | some tok => exact pure tok

theorem bind (hp : Explains p) (hf : ∀ a, Explains (f a)) : Explains (p >>= f) := by
  intro s h
  obtain h | ⟨r, -, h⟩ := silent_bind.mp h
  · exact hp s h
  · exact hf r.1 r.2 h

/-- After a reader that leaves a text, only what follows can fail without one. -/
theorem silent_bind_iff (hp : Explains p) :
    Silent (p >>= f) s ↔ ∃ r, p.run s = some r ∧ Silent (f r.1) r.2 := by
  rw [silent_bind, or_iff_right (hp s)]

end Explains

/-- A reader that takes a token first. -/
theorem silent_next {delim : Text} {f : Option Text → Reader β} {P : Text → Text → Prop}
    (hnone : Explains (f none)) (hsome : ∀ tok u, Silent (f (some tok)) ⟨u, e⟩ ↔ P tok u) :
    Silent (token delim >>= f) ⟨t, e⟩ ↔ Next delim P t := by
  show Silent (f (strtok delim t).1) ⟨(strtok delim t).2, e⟩ ↔ _
  rw [Next]
  cases strtok delim t with
  | mk tok u =>
    cases tok with
    | none => exact iff_of_false (hnone _) not_false
    | some tok => exact hsome tok u

/-- A reader with a required token. -/
theorem silent_require {delim errstr : Text} {f : Text → Reader β} {P : Text → Text → Prop}
    (hf : ∀ tok u, Silent (f tok) ⟨u, e⟩ ↔ P tok u) :
    Silent (do let tok ← token delim; let tok ← require tok errstr; f tok) ⟨t, e⟩ ↔
      Next delim P t :=
  silent_next (fun _ ⟨_, h⟩ => nomatch h) hf

end Reader
