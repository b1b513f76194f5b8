import Stencil.Text.TextUnit

/-!
# Fragments

A fragment is a text handled as if it were one unit, whatever its length. It is a pair when its
length is two, its first code point exists when it is not empty, and it is a surrogate or not only
when it is a single code point. The units of the joined text need not be the fragments
(`join_map_ofUnit` is the case where they are units).
-/

namespace Stencil

/-- Text handled as one unit. -/
structure Fragment where
  text : Text
  deriving DecidableEq

namespace Fragment

/-- Why a fragment has no first code point, or is no single one. -/
inductive Fault where
  | empty
  | notSingle (length : Nat)
  deriving DecidableEq

/-- Wording of a fault. -/
def Fault.message : Fault → String
  | empty => "string index out of range"
  | notSingle n => s!"ord() expected a character, but string of length {n} found"

/-- First code point. -/
def first (f : Fragment) : Except Fault CodePoint :=
  match f.text with
  | [] => .error .empty
  | c :: _ => .ok c

/-- The code point of a fragment of length one. -/
def single (f : Fragment) : Except Fault CodePoint :=
  match f.text with
  | [c] => .ok c
  | t => .error (.notSingle t.length)

/-- Fragments of length two. -/
def isPair (f : Fragment) : Bool := f.text.length == 2

/-- Fragment of a unit. -/
def ofUnit (u : TextUnit) : Fragment := ⟨u.toText⟩

/-- Text of fragments in a row. -/
def join (fs : List Fragment) : Text := fs.flatMap text

theorem first_eq_error_iff {f : Fragment} {e : Fault} :
    f.first = .error e ↔ f.text = [] ∧ e = .empty := by
  rcases f with ⟨_ | ⟨c, t⟩⟩ <;> simp [first, eq_comm]

theorem single_eq_ok_iff {f : Fragment} {c : CodePoint} : f.single = .ok c ↔ f.text = [c] := by
  rcases f with ⟨_ | ⟨d, _ | ⟨e, t⟩⟩⟩ <;> simp [single]

@[simp] theorem first_ofUnit (u : TextUnit) : (ofUnit u).first = .ok u.first := by
  cases u <;> rfl

@[simp] theorem isPair_ofUnit (u : TextUnit) : (ofUnit u).isPair = u.isPair := by
  cases u <;> rfl

/-- Fragments made of units are joined as the units are. -/
theorem join_map_ofUnit (us : List TextUnit) : join (us.map ofUnit) = Text.ofUnits us := by
  simp [join, Text.ofUnits, List.flatMap_map, ofUnit]

end Fragment

end Stencil
