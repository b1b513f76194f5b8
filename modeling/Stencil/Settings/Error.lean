import Stencil.Validation.Checker

/-!
# Load errors

Settings cannot be loaded from a value that does not stand for a mapping, and then its first faulty
element is named. If it stands for one, the mapping may be rejected with all its issues, or its
validated form may lack a key that settings need.
-/

namespace Stencil.Settings

/-- Why settings could not be loaded from a value. -/
inductive LoadError where
  | noElements (kind : Value.Kind)
  | elementNotSequence (index : Nat)
  | elementLength (index length : Nat)
  | notKey (kind : Value.Kind)
  | rejected (rejection : Rejection)
  | missing (name : String)
  deriving DecidableEq

namespace LoadError

/-- Sorts of load errors that a caller can tell apart without their wording: a value of a kind that
cannot stand in its place, an element of a wrong length, settings that are refused, and a key that
is not there. -/
inductive Kind where
  | wrongKind
  | wrongLength
  | rejected
  | missing
  deriving DecidableEq

/-- Sort of a load error. -/
def kind : LoadError → Kind
  | noElements _ => .wrongKind
  | elementNotSequence _ => .wrongKind
  | elementLength _ _ => .wrongLength
  | notKey _ => .wrongKind
  | rejected _ => .rejected
  | missing _ => .missing

/-- Wording of a load error. That of a rejection is the checker's. -/
def message (C : Checker) : LoadError → String
  | noElements kind => s!"'{kind.name}' object is not iterable"
  | elementNotSequence i => s!"cannot convert dictionary update sequence element #{i} to a sequence"
  | elementLength i n => s!"dictionary update sequence element #{i} has length {n}; 2 is required"
  | notKey kind => s!"unhashable type: '{kind.name}'"
  | rejected r => C.message r
  | missing name => s!"'{name}'"

end LoadError

end Stencil.Settings
