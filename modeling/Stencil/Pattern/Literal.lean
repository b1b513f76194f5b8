import Stencil.Pattern.Basic

/-!
# Literal text in a pattern

Any text can be written by a pattern: an escape before each control character makes it stand for
itself. `ofUnits_flatMap_literal` says that the directives of escaped units write exactly those
units.
-/

namespace Stencil

namespace TextUnit

/-- Units that stand for this one in a pattern: a control character with an escape before it, and
any other unit alone. -/
def literal (u : TextUnit) : List TextUnit :=
  match Control.ofUnit? u with
  | some _ => [Control.escape.unit, u]
  | none => [u]

@[simp] theorem literal_unit (k : Control) : literal k.unit = [Control.escape.unit, k.unit] := by
  simp [literal]

theorem literal_of_not_control {u : TextUnit} (h : Control.ofUnit? u = none) :
    u.literal = [u] := by
  simp [literal, h]

end TextUnit

/-- Pattern text that writes `t`. -/
def Text.escaped (t : Text) : Text := Text.ofUnits (t.units.flatMap TextUnit.literal)

@[simp] theorem Text.escaped_nil : Text.escaped [] = [] := by
  simp [escaped]

/-- Escaped units give one directive each, which writes the unit. -/
theorem Pattern.ofUnits_literal_append (u : TextUnit) (rest : List TextUnit) :
    ofUnits (u.literal ++ rest) = .write u :: ofUnits rest := by
  cases h : Control.ofUnit? u with
  | some k =>
    obtain rfl := Control.ofUnit?_eq_some_iff.1 h
    rw [TextUnit.literal_unit]
    exact ofUnits_escape_cons k.unit rest
  | none =>
    -- An escape is a control, so a unit that is none stands for itself.
    have plain : u ≠ Control.escape.unit := by
      rintro rfl
      simp at h
    rw [TextUnit.literal_of_not_control h]
    exact (ofUnits_cons plain rest).trans (by rw [Directive.ofUnit_of_not_control h])

theorem Pattern.ofUnits_flatMap_literal (us : List TextUnit) :
    ofUnits (us.flatMap TextUnit.literal) = us.map .write := by
  induction us with
  | nil => exact ofUnits_nil
  | cons u us ih => rw [List.flatMap_cons, ofUnits_literal_append, ih, List.map_cons]

end Stencil
