/-
Text as a C program sees it: the bytes of a string up to the terminating one.
-/
import Mathlib.Data.List.Basic

/-- The bytes of a C string, without the terminating one. -/
abbrev Text := List UInt8

/-- The bytes of a literal. -/
def ascii (s : String) : Text := s.toList.map fun c => c.toNat.toUInt8

/-- What holds of all characters is decided along the text, not over all bytes. -/
instance (p : UInt8 → Prop) [DecidablePred p] (s : Text) : Decidable (∀ c ∈ s, p c) :=
  List.decidableBAll p s
