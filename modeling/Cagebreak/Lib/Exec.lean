/-
Executions of a program that may go wrong.

`Exec α` is a computation that returns a value or stops with a `Fault`:

* `undefined` — the program followed a pointer it may not follow;
* `diverges` — a loop used up more iterations than there are objects to visit.

`Ensures m Q` is partial correctness ("if `m` returns, its result satisfies
`Q`"), with the usual rules for sequencing, branching and loops; `Ends m Q` says
in addition that `m` does not diverge, and `Gives m Q` that it returns;
`Exactly c m Q` says that it returns when `c` holds, and is undefined otherwise.  `Steps`
lists what a step function can reach under a condition on the steps taken, and
`Steps.invariant` is the induction over such runs.
-/
import Mathlib.Data.List.Basic
import Mathlib.Tactic.Common

/-- Why a computation stopped. -/
inductive Fault
  | undefined
  | diverges
  deriving DecidableEq, Repr

/-- A computation that returns a value or stops with a fault. -/
abbrev Exec (α : Type) := Except Fault α

namespace Exec

variable {α β σ ε : Type}

instance [DecidableEq α] : DecidableEq (Exec α)
  | .ok a, .ok b => decidable_of_iff (a = b) (by simp)
  | .error a, .error b => decidable_of_iff (a = b) (by simp)
  | .ok _, .error _ => isFalse (by simp)
  | .error _, .ok _ => isFalse (by simp)

/-- Following a pointer is defined only when its target is still allocated. -/
def deref (b : Bool) : Exec Unit := if b then .ok () else .error .undefined

/-- Reading a pointer that may be `NULL`. -/
def nonNull : Option α → Exec α
  | some a => .ok a
  | none => .error .undefined

/-- Continue with the value of an option, or return `b` when there is none. -/
def ifSome (o : Option α) (b : β) (f : α → Exec β) : Exec β :=
  match o with
  | none => .ok b
  | some a => f a

theorem bind_eq_ok {m : Exec α} {f : α → Exec β} {b : β} :
    m >>= f = .ok b ↔ ∃ a, m = .ok a ∧ f a = .ok b := by
  cases m with
  | error e => simp [bind, Except.bind]
  | ok a => simp [bind, Except.bind]

@[simp] theorem ok_bind (a : α) (f : α → Exec β) : (Except.ok a : Exec α) >>= f = f a := rfl

@[simp] theorem error_bind (e : Fault) (f : α → Exec β) :
    (Except.error e : Exec α) >>= f = .error e := rfl

@[simp] theorem deref_eq_ok {b : Bool} : deref b = .ok () ↔ b = true := by
  cases b <;> simp [deref]

@[simp] theorem nonNull_eq_ok {o : Option α} {a : α} : nonNull o = .ok a ↔ o = some a := by
  cases o <;> simp [nonNull]

@[simp] theorem ifSome_none {b : β} {f : α → Exec β} : ifSome none b f = .ok b := rfl

@[simp] theorem ifSome_some {a : α} {b : β} {f : α → Exec β} : ifSome (some a) b f = f a := rfl

/-! ### Partial correctness -/

/-- If `m` returns, its result satisfies `Q`. -/
def Ensures (m : Exec α) (Q : α → Prop) : Prop := ∀ a, m = .ok a → Q a

theorem Ensures.ok {a : α} {Q : α → Prop} (h : Q a) : Ensures (.ok a) Q := by
  rintro _ ⟨⟩
  exact h

theorem Ensures.pure {a : α} {Q : α → Prop} (h : Q a) : Ensures (Pure.pure a) Q :=
  Ensures.ok h

theorem Ensures.error {e : Fault} {Q : α → Prop} : Ensures (.error e) Q := by
  rintro _ ⟨⟩

theorem Ensures.mono {m : Exec α} {P Q : α → Prop} (h : Ensures m P) (hpq : ∀ a, P a → Q a) :
    Ensures m Q :=
  fun a ha => hpq a (h a ha)

theorem Ensures.and {m : Exec α} {P Q : α → Prop} (hp : Ensures m P) (hq : Ensures m Q) :
    Ensures m fun a => P a ∧ Q a :=
  fun a ha => ⟨hp a ha, hq a ha⟩

theorem Ensures.bind {m : Exec α} {f : α → Exec β} {P : α → Prop} {Q : β → Prop}
    (hm : Ensures m P) (hf : ∀ a, P a → Ensures (f a) Q) : Ensures (m >>= f) Q := by
  intro b hb
  obtain ⟨a, ha, hab⟩ := bind_eq_ok.mp hb
  exact hf a (hm a ha) b hab

/-- Sequencing after a computation about which nothing needs to be known. -/
theorem Ensures.bind_any {m : Exec α} {f : α → Exec β} {Q : β → Prop}
    (hf : ∀ a, m = .ok a → Ensures (f a) Q) : Ensures (m >>= f) Q :=
  Ensures.bind (P := fun a => m = .ok a) (fun _ ha => ha) hf

theorem Ensures.deref {b : Bool} {f : Unit → Exec β} {Q : β → Prop}
    (hf : b = true → Ensures (f ()) Q) : Ensures (deref b >>= f) Q :=
  Ensures.bind_any fun _ h => hf (deref_eq_ok.mp h)

theorem Ensures.nonNull {o : Option α} {f : α → Exec β} {Q : β → Prop}
    (hf : ∀ a, o = some a → Ensures (f a) Q) : Ensures (nonNull o >>= f) Q :=
  Ensures.bind_any fun a h => hf a (nonNull_eq_ok.mp h)

theorem Ensures.ite {c : Prop} [Decidable c] {m n : Exec α} {Q : α → Prop}
    (hm : c → Ensures m Q) (hn : ¬ c → Ensures n Q) : Ensures (if c then m else n) Q := by
  by_cases h : c
  · rw [if_pos h]
    exact hm h
  · rw [if_neg h]
    exact hn h

theorem Ensures.ifSome {o : Option α} {b : β} {f : α → Exec β} {Q : β → Prop}
    (hn : o = none → Q b) (hs : ∀ a, o = some a → Ensures (f a) Q) :
    Ensures (ifSome o b f) Q := by
  cases o with
  | none => exact Ensures.ok (hn rfl)
  | some a => exact hs a rfl

/-- A loop over a list keeps what each of its iterations keeps. -/
theorem Ensures.foldlM {f : β → α → Exec β} {I : β → Prop} {l : List α}
    (hf : ∀ b, ∀ a ∈ l, I b → Ensures (f b a) I) {b : β} (hb : I b) :
    Ensures (l.foldlM f b) I := by
  induction l generalizing b with
  | nil => exact Ensures.ok hb
  | cons a l ih =>
    rw [List.foldlM_cons]
    exact Ensures.bind (hf b a List.mem_cons_self hb) fun b' hb' =>
      ih (fun b a ha => hf b a (List.mem_cons_of_mem _ ha)) hb'

/-- A loop over the numbers below `n`, with what holds before each iteration. -/
theorem Ensures.foldlM_range {f : β → ℕ → Exec β} {I : ℕ → β → Prop} {n : ℕ}
    (hf : ∀ i b, i < n → I i b → Ensures (f b i) (I (i + 1))) {b : β} (hb : I 0 b) :
    Ensures ((List.range n).foldlM f b) (I n) := by
  induction n with
  | zero => exact Ensures.ok hb
  | succ n ih =>
    rw [List.range_succ, List.foldlM_append]
    refine Ensures.bind (ih fun i b hi => hf i b (Nat.lt_succ_of_lt hi)) fun b' hb' => ?_
    exact Ensures.bind (hf n b' (Nat.lt_succ_self n) hb') fun b'' hb'' => Ensures.ok hb''

/-! ### Programs that end -/

/-- `m` does not diverge, and if it returns, its result satisfies `Q`. -/
def Ends (m : Exec α) (Q : α → Prop) : Prop := m ≠ .error .diverges ∧ Ensures m Q

theorem Ends.ok {a : α} {Q : α → Prop} (h : Q a) : Ends (.ok a) Q :=
  ⟨by simp, Ensures.ok h⟩

theorem Ends.mono {m : Exec α} {P Q : α → Prop} (h : Ends m P) (hpq : ∀ a, P a → Q a) :
    Ends m Q :=
  ⟨h.1, h.2.mono hpq⟩

theorem Ends.and {m : Exec α} {P Q : α → Prop} (hp : Ends m P) (hq : Ensures m Q) :
    Ends m fun a => P a ∧ Q a :=
  ⟨hp.1, hp.2.and hq⟩

theorem Ends.bind {m : Exec α} {f : α → Exec β} {P : α → Prop} {Q : β → Prop}
    (hm : Ends m P) (hf : ∀ a, P a → Ends (f a) Q) : Ends (m >>= f) Q := by
  refine ⟨fun h => ?_, hm.2.bind fun a ha => (hf a ha).2⟩
  cases hma : m with
  | error e =>
    rw [hma, error_bind] at h
    rw [Except.error.inj h] at hma
    exact hm.1 hma
  | ok a =>
    rw [hma, ok_bind] at h
    exact (hf a (hm.2 a hma)).1 h

theorem Ends.deref {b : Bool} {f : Unit → Exec β} {Q : β → Prop}
    (hf : b = true → Ends (f ()) Q) : Ends (deref b >>= f) Q := by
  refine Ends.bind (P := fun _ => b = true) ⟨?_, fun _ h => deref_eq_ok.mp h⟩ fun _ => hf
  cases b <;> simp [Exec.deref]

theorem Ends.nonNull {o : Option α} {f : α → Exec β} {Q : β → Prop}
    (hf : ∀ a, o = some a → Ends (f a) Q) : Ends (nonNull o >>= f) Q := by
  refine Ends.bind (P := fun a => o = some a) ⟨?_, fun a h => nonNull_eq_ok.mp h⟩ hf
  cases o <;> simp [Exec.nonNull]

theorem Ends.ite {c : Prop} [Decidable c] {m n : Exec α} {Q : α → Prop}
    (hm : c → Ends m Q) (hn : ¬ c → Ends n Q) : Ends (if c then m else n) Q := by
  by_cases h : c
  · rw [if_pos h]
    exact hm h
  · rw [if_neg h]
    exact hn h

theorem Ends.ifSome {o : Option α} {b : β} {f : α → Exec β} {Q : β → Prop}
    (hn : o = none → Q b) (hs : ∀ a, o = some a → Ends (f a) Q) : Ends (ifSome o b f) Q := by
  cases o with
  | none => exact Ends.ok (hn rfl)
  | some a => exact hs a rfl

/-! ### Programs that return -/

/-- `m` returns, and its result satisfies `Q`. -/
def Gives (m : Exec α) (Q : α → Prop) : Prop := ∃ a, m = .ok a ∧ Q a

theorem Gives.ok {a : α} {Q : α → Prop} (h : Q a) : Gives (.ok a) Q := ⟨a, rfl, h⟩

theorem Gives.mono {m : Exec α} {P Q : α → Prop} (h : Gives m P) (hpq : ∀ a, P a → Q a) :
    Gives m Q := by
  obtain ⟨a, ha, hp⟩ := h
  exact ⟨a, ha, hpq a hp⟩

theorem Gives.bind {m : Exec α} {f : α → Exec β} {P : α → Prop} {Q : β → Prop}
    (hm : Gives m P) (hf : ∀ a, P a → Gives (f a) Q) : Gives (m >>= f) Q := by
  obtain ⟨a, rfl, hp⟩ := hm
  exact hf a hp

theorem Gives.deref {b : Bool} {f : Unit → Exec β} {Q : β → Prop} (hb : b = true)
    (hf : Gives (f ()) Q) : Gives (deref b >>= f) Q := by
  subst hb
  exact hf

theorem Gives.nonNull {o : Option α} {f : α → Exec β} {Q : β → Prop} {a : α} (ho : o = some a)
    (hf : Gives (f a) Q) : Gives (nonNull o >>= f) Q := by
  subst ho
  exact hf

theorem Gives.ite {c : Prop} [Decidable c] {m n : Exec α} {Q : α → Prop}
    (hm : c → Gives m Q) (hn : ¬ c → Gives n Q) : Gives (if c then m else n) Q := by
  by_cases h : c
  · rw [if_pos h]
    exact hm h
  · rw [if_neg h]
    exact hn h

/-- A loop that collects one result for each element. -/
theorem Gives.mapM {f : α → Exec β} {Q : α → β → Prop} {l : List α}
    (hf : ∀ a ∈ l, Gives (f a) (Q a)) : Gives (l.mapM f) (List.Forall₂ Q l) := by
  induction l with
  | nil => exact Gives.ok .nil
  | cons a l ih =>
    rw [List.mapM_cons]
    refine Gives.bind (hf a List.mem_cons_self) fun b hb => ?_
    refine Gives.bind (ih fun c hc => hf c (List.mem_cons_of_mem _ hc)) fun bs hbs => ?_
    exact Gives.ok (.cons hb hbs)

/-- A conjunction over a list, each part of which is decided. -/
theorem Gives.allM {p : α → Exec Bool} {P : α → Prop} {l : List α}
    (h : ∀ a ∈ l, Gives (p a) fun b => b = true ↔ P a) :
    Gives (l.allM p) fun b => b = true ↔ ∀ a ∈ l, P a := by
  induction l with
  | nil => exact Gives.ok (by simp)
  | cons a l ih =>
    rw [List.allM]
    refine Gives.bind (h a List.mem_cons_self) fun b hb => ?_
    cases b with
    | true =>
      refine (ih fun c hc => h c (List.mem_cons_of_mem _ hc)).mono fun c hc => ?_
      rw [hc, List.forall_mem_cons]
      exact ⟨fun hl => ⟨hb.mp rfl, hl⟩, And.right⟩
    | false =>
      refine Gives.ok ?_
      rw [List.forall_mem_cons]
      exact ⟨by simp, fun hl => hb.mpr hl.1⟩

theorem Gives.and {m : Exec α} {P Q : α → Prop} (hp : Gives m P) (hq : Ensures m Q) :
    Gives m fun a => P a ∧ Q a := by
  obtain ⟨a, ha, h⟩ := hp
  exact ⟨a, ha, h, hq a ha⟩

theorem Gives.ifSome {o : Option α} {b : β} {f : α → Exec β} {Q : β → Prop}
    (hn : o = none → Q b) (hs : ∀ a, o = some a → Gives (f a) Q) : Gives (ifSome o b f) Q := by
  cases o with
  | none => exact Gives.ok (hn rfl)
  | some a => exact hs a rfl

/-- What such a program is known to give holds of its result. -/
theorem Gives.foldlM {f : β → α → Exec β} {I : β → Prop} {l : List α}
    (hf : ∀ b a, a ∈ l → I b → Gives (f b a) I) {b : β} (hb : I b) : Gives (l.foldlM f b) I := by
  induction l generalizing b with
  | nil => exact Gives.ok hb
  | cons a l ih =>
    rw [List.foldlM_cons]
    exact (hf b a List.mem_cons_self hb).bind fun b' hb' =>
      ih (fun b a ha => hf b a (List.mem_cons_of_mem _ ha)) hb'

theorem Gives.ensures {m : Exec α} {Q : α → Prop} (h : Gives m Q) : Ensures m Q := by
  obtain ⟨a, rfl, ha⟩ := h
  exact Ensures.ok ha

/-! ### When programs return -/

/-- `m` returns a result that satisfies `Q` if `c` holds, and is undefined if not. -/
def Exactly (c : Prop) (m : Exec α) (Q : α → Prop) : Prop :=
  c ∧ Gives m Q ∨ ¬ c ∧ m = .error .undefined

theorem Exactly.of_gives {m : Exec α} {Q : α → Prop} (h : Gives m Q) : Exactly True m Q :=
  .inl ⟨trivial, h⟩

theorem Exactly.ok {a : α} {Q : α → Prop} (h : Q a) : Exactly True (.ok a) Q :=
  .of_gives (.ok h)

theorem Exactly.gives {c : Prop} {m : Exec α} {Q : α → Prop} (h : Exactly c m Q) (hc : c) :
    Gives m Q :=
  h.elim And.right fun hn => absurd hc hn.1

theorem Exactly.ends {c : Prop} {m : Exec α} {Q : α → Prop} (h : Exactly c m Q) :
    Ends m fun a => c ∧ Q a := by
  rcases h with ⟨hc, a, rfl, ha⟩ | ⟨-, rfl⟩
  · exact Ends.ok ⟨hc, ha⟩
  · exact ⟨by simp, Ensures.error⟩

theorem Exactly.mono {c : Prop} {m : Exec α} {P Q : α → Prop} (h : Exactly c m P)
    (hpq : ∀ a, P a → Q a) : Exactly c m Q :=
  h.imp_left fun ⟨hc, hg⟩ => ⟨hc, hg.mono hpq⟩

theorem Exactly.and {c : Prop} {m : Exec α} {P Q : α → Prop} (hp : Exactly c m P)
    (hq : Ensures m Q) : Exactly c m fun a => P a ∧ Q a :=
  hp.imp_left fun ⟨hc, hg⟩ => ⟨hc, hg.and hq⟩

theorem Exactly.congr {c c' : Prop} {m : Exec α} {Q : α → Prop} (h : Exactly c m Q)
    (hc : c' ↔ c) : Exactly c' m Q := by
  rwa [propext hc]

theorem Exactly.bind {c e : Prop} {m : Exec α} {f : α → Exec β} {P : α → Prop} {Q : β → Prop}
    (hm : Exactly c m P) (hf : ∀ a, P a → Exactly e (f a) Q) : Exactly (c ∧ e) (m >>= f) Q := by
  rcases hm with ⟨hc, a, rfl, ha⟩ | ⟨hc, rfl⟩
  · rw [ok_bind]
    exact (hf a ha).congr (and_iff_right hc)
  · exact .inr ⟨fun h => hc h.1, rfl⟩

theorem Exactly.deref {b : Bool} {c : Prop} {f : Unit → Exec β} {Q : β → Prop}
    (hf : Exactly c (f ()) Q) : Exactly (b = true ∧ c) (deref b >>= f) Q := by
  cases b with
  | true => exact hf.congr (by simp)
  | false => exact .inr ⟨by simp, rfl⟩

theorem Exactly.ite {c : Prop} [Decidable c] {d : Prop} {m n : Exec α} {Q : α → Prop}
    (hm : c → Exactly d m Q) (hn : ¬ c → Gives n Q) :
    Exactly (c → d) (if c then m else n) Q := by
  by_cases h : c
  · rw [if_pos h]
    exact (hm h).congr (by simp [h])
  · rw [if_neg h]
    exact (Exactly.of_gives (hn h)).congr (by simp [h])

theorem Exactly.ifSome {c : α → Prop} {o : Option α} {b : β} {f : α → Exec β} {Q : β → Prop}
    (hn : o = none → Q b) (hs : ∀ a, o = some a → Exactly (c a) (f a) Q) :
    Exactly (∀ a, o = some a → c a) (ifSome o b f) Q := by
  cases o with
  | none => exact (Exactly.ok (hn rfl)).congr (by simp)
  | some a => exact (hs a rfl).congr (by simp)

/-- Each iteration of a loop satisfies `ok` in the state it begins in. -/
def Along (f : β → α → Exec β) (ok : β → α → Prop) : β → List α → Prop
  | _, [] => True
  | b, a :: l => ok b a ∧ ∀ b', f b a = .ok b' → Along f ok b' l

/-- A loop keeps what each admitted iteration keeps. -/
theorem Ensures.along {f : β → α → Exec β} {ok : β → α → Prop} {I : β → Prop} {l : List α}
    (hf : ∀ b a, I b → ok b a → Ensures (f b a) I) {b : β} (hb : I b) (hok : Along f ok b l) :
    Ensures (l.foldlM f b) I := by
  induction l generalizing b with
  | nil => exact Ensures.ok hb
  | cons a l ih =>
    rw [List.foldlM_cons]
    refine Ensures.bind_any fun b' hb' => ?_
    exact ih (hf b a hb hok.1 b' hb') (hok.2 b' hb')

theorem Gives.along {f : β → α → Exec β} {ok : β → α → Prop} {I : β → Prop} {l : List α}
    (hf : ∀ b a, I b → ok b a → Gives (f b a) I) {b : β} (hb : I b) (hok : Along f ok b l) :
    Gives (l.foldlM f b) I := by
  induction l generalizing b with
  | nil => exact Gives.ok hb
  | cons a l ih =>
    rw [List.foldlM_cons]
    obtain ⟨b', hb', hI⟩ := hf b a hb hok.1
    rw [hb', ok_bind]
    exact ih hI (hok.2 b' hb')

/-! ### Searching lists -/

/-- What a search with a total test answers. -/
theorem findM?_of_total {p : α → Exec Bool} {q : α → Bool} {l : List α}
    (hp : ∀ a ∈ l, p a = .ok (q a)) : l.findM? p = .ok (l.find? q) := by
  induction l with
  | nil => rfl
  | cons a l ih =>
    rw [List.findM?, hp a List.mem_cons_self, List.find?_cons]
    cases q a with
    | true => rfl
    | false => exact ih fun b hb => hp b (List.mem_cons_of_mem _ hb)

/-- Elements that do not satisfy the test are passed over. -/
theorem findM?_append {p : α → Exec Bool} {l l' : List α} (h : ∀ a ∈ l, p a = .ok false) :
    (l ++ l').findM? p = l'.findM? p := by
  induction l with
  | nil => rfl
  | cons a l ih =>
    rw [List.cons_append, List.findM?, h a List.mem_cons_self]
    exact ih fun b hb => h b (List.mem_cons_of_mem _ hb)

theorem findM?_skip {p : α → Exec Bool} {l l' : List α} {a : α} (ha : p a = .ok false) :
    (l ++ a :: l').findM? p = (l ++ l').findM? p := by
  induction l with
  | nil =>
    rw [List.nil_append, List.findM?, ha]
    rfl
  | cons b l ih =>
    rw [List.cons_append, List.cons_append, List.findM?, List.findM?]
    refine congrArg (p b >>= ·) (funext fun r => ?_)
    cases r with
    | true => rfl
    | false => exact ih

/-- A search passes over all elements, or stops at the first one at which the test
does not fail. -/
theorem findM?_cases (p : α → Exec Bool) (l : List α) :
    (∀ a ∈ l, p a = .ok false) ∨ ∃ l₁ a l₂, l = l₁ ++ a :: l₂ ∧ (∀ b ∈ l₁, p b = .ok false) ∧
      p a ≠ .ok false := by
  induction l with
  | nil => exact .inl nofun
  | cons a l ih =>
    by_cases ha : p a = .ok false
    · rcases ih with hall | ⟨l₁, b, l₂, rfl, hpre, hb⟩
      · exact .inl (List.forall_mem_cons.mpr ⟨ha, hall⟩)
      · exact .inr ⟨a :: l₁, b, l₂, rfl, List.forall_mem_cons.mpr ⟨ha, hpre⟩, hb⟩
    · exact .inr ⟨[], a, l, rfl, nofun, ha⟩

/-- A search whose tests all return also returns, with an answer one of them has
given. -/
theorem findSomeM?_of_total {f : α → Exec (Option β)} {l : List α} {Q : β → Prop}
    (hf : ∀ a ∈ l, ∃ found, f a = .ok found ∧ ∀ b, found = some b → Q b) :
    ∃ found, l.findSomeM? f = .ok found ∧ ∀ b, found = some b → Q b := by
  induction l with
  | nil => exact ⟨none, rfl, by simp⟩
  | cons a l ih =>
    obtain ⟨found, ha, hQ⟩ := hf a List.mem_cons_self
    rw [List.findSomeM?, ha, ok_bind]
    cases found with
    | none => exact ih fun b hb => hf b (List.mem_cons_of_mem _ hb)
    | some b => exact ⟨some b, rfl, hQ⟩

/-- A search without an answer has asked every element. -/
theorem eq_none_of_findSomeM? {f : α → Exec (Option β)} {l : List α}
    (h : l.findSomeM? f = .ok none) : ∀ a ∈ l, f a = .ok none := by
  induction l with
  | nil => exact fun a ha => absurd ha List.not_mem_nil
  | cons a l ih =>
    rw [List.findSomeM?] at h
    obtain ⟨found, hfound, h⟩ := bind_eq_ok.mp h
    cases found with
    | some b => exact nomatch h
    | none =>
      intro c hc
      obtain rfl | hc := List.mem_cons.mp hc
      · exact hfound
      · exact ih h c hc

/-! ### Runs -/

/-- `Steps step ok s t`: `t` is reached from `s` by steps that return, each of
which satisfies `ok` in the state it is taken in. -/
inductive Steps (step : σ → ε → Exec σ) (ok : σ → ε → Prop) (s : σ) : σ → Prop
  | refl : Steps step ok s s
  | tail {t u : σ} {e : ε} : Steps step ok s t → ok t e → step t e = .ok u → Steps step ok s u

/-- **The invariant rule.**  What holds at the start and is kept by every
admitted step holds in every state reached. -/
theorem Steps.invariant {step : σ → ε → Exec σ} {ok : σ → ε → Prop} {I : σ → Prop} {s t : σ}
    (h : Steps step ok s t) (h0 : I s)
    (hstep : ∀ t e, I t → ok t e → Ensures (step t e) I) : I t := by
  induction h with
  | refl => exact h0
  | tail _ hok hs ih => exact hstep _ _ ih hok _ hs

theorem Steps.trans {step : σ → ε → Exec σ} {ok : σ → ε → Prop} {s t u : σ}
    (h : Steps step ok s t) (h' : Steps step ok t u) : Steps step ok s u := by
  induction h' with
  | refl => exact h
  | tail _ hok hs ih => exact ih.tail hok hs

/-- Admitting more steps reaches more states. -/
theorem Steps.mono {step : σ → ε → Exec σ} {ok ok' : σ → ε → Prop} {s t : σ}
    (h : Steps step ok s t) (hok : ∀ s e, ok s e → ok' s e) : Steps step ok' s t := by
  induction h with
  | refl => exact .refl
  | tail _ he hs ih => exact ih.tail (hok _ _ he) hs

/-- The state after a list of steps. -/
def run (step : σ → ε → Exec σ) (s : σ) (es : List ε) : Exec σ := es.foldlM step s

/-- The last step of a list of steps. -/
theorem step_of_run {step : σ → ε → Exec σ} {es : List ε} {e : ε} {s t u : σ}
    (h : run step s es = .ok t) (h' : run step s (es ++ [e]) = .ok u) : step t e = .ok u := by
  rw [run, List.foldlM_append] at h'
  obtain ⟨t', ht', h'⟩ := bind_eq_ok.mp h'
  rw [run, ht'] at h
  cases h
  rw [List.foldlM_cons] at h'
  obtain ⟨u', hu', h'⟩ := bind_eq_ok.mp h'
  cases h'
  exact hu'

theorem Steps.of_run {step : σ → ε → Exec σ} {ok : σ → ε → Prop} {es : List ε} {s t : σ}
    (h : run step s es = .ok t) (hok : ∀ e ∈ es, ∀ s, ok s e) : Steps step ok s t := by
  suffices H : ∀ s', Steps step ok s s' → run step s' es = .ok t → Steps step ok s t from
    H s .refl h
  clear h
  induction es with
  | nil =>
    rintro s' hs' ⟨⟩
    exact hs'
  | cons e es ih =>
    intro s' hs' h
    rw [run, List.foldlM_cons] at h
    obtain ⟨u, hu, h⟩ := bind_eq_ok.mp h
    exact ih (fun e he => hok e (List.mem_cons_of_mem _ he)) u
      (hs'.tail (hok e List.mem_cons_self _) hu) h

/-- The computation returns, and its result passes the test. -/
def returns (m : Exec α) (p : α → Bool) : Bool :=
  match m with
  | .ok a => p a
  | .error _ => false

theorem exists_of_returns {m : Exec α} {p : α → Bool} (h : returns m p = true) :
    ∃ a, m = .ok a ∧ p a = true := by
  cases m with
  | ok a => exact ⟨a, rfl, h⟩
  | error e => simp [returns] at h

end Exec
