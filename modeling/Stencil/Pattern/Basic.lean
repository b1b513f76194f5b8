import Stencil.Pattern.Control

/-!
# Patterns

A pattern is a list of directives. `Pattern.ofUnits` reads them from the units of a text: an
escape takes the unit after it, whatever that unit is, and every other unit gives one directive
(`ofUnits_escape_cons`, `ofUnits_cons`). An escape with nothing after it is unfinished, which
happens at the end only (`eq_nil_of_unfinished`).
-/

namespace Stencil

/-- One instruction of a pattern: write a unit, write a marker for an unfinished escape, copy or
drop the next message unit, drop the rest of the message. -/
inductive Directive where
  | write (u : TextUnit)
  | unfinished
  | copy
  | drop
  | dropRest
  deriving DecidableEq

namespace Directive

/-- Directive of a unit that stands on its own. -/
def ofUnit (u : TextUnit) : Directive :=
  match Control.ofUnit? u with
  | some .dropRest => dropRest
  | some .drop => drop
  | some .escape => unfinished
  | some .copy => copy
  | none => write u

/-- Directives that write a unit of the pattern. -/
def isWrite : Directive → Bool
  | write _ => true
  | _ => false

/-- Directives that take one unit from the front of the message. -/
def takesUnit : Directive → Bool
  | copy => true
  | drop => true
  | _ => false

@[simp] theorem ofUnit_escape : ofUnit Control.escape.unit = unfinished := by
  simp [ofUnit]

@[simp] theorem ofUnit_copy : ofUnit Control.copy.unit = copy := by
  simp [ofUnit]

@[simp] theorem ofUnit_drop : ofUnit Control.drop.unit = drop := by
  simp [ofUnit]

@[simp] theorem ofUnit_dropRest : ofUnit Control.dropRest.unit = dropRest := by
  simp [ofUnit]

/-- A unit that is no control character stands for itself. -/
theorem ofUnit_of_not_control {u : TextUnit} (h : Control.ofUnit? u = none) :
    ofUnit u = write u := by
  simp [ofUnit, h]

theorem ofUnit_eq_unfinished_iff {u : TextUnit} :
    ofUnit u = unfinished ↔ u = Control.escape.unit := by
  rw [← Control.ofUnit?_eq_some_iff, ofUnit]
  split <;> simp_all

end Directive

/-- List of directives. -/
abbrev Pattern := List Directive

namespace Pattern

/-- Directives of a list of units. -/
def ofUnits : List TextUnit → Pattern
  | [] => []
  | [u] => [.ofUnit u]
  | u :: v :: rest =>
    if u = Control.escape.unit then .write v :: ofUnits rest
    else .ofUnit u :: ofUnits (v :: rest)

/-- Directives of a text. -/
def ofText (t : Text) : Pattern := ofUnits t.units

/-! ## Equations -/

@[simp] theorem ofUnits_nil : ofUnits [] = [] := by
  rw [ofUnits]

@[simp] theorem ofUnits_singleton (u : TextUnit) : ofUnits [u] = [.ofUnit u] := by
  rw [ofUnits]

/-- An escape takes the unit after it, whatever that unit is. -/
@[simp] theorem ofUnits_escape_cons (v : TextUnit) (rest : List TextUnit) :
    ofUnits (Control.escape.unit :: v :: rest) = .write v :: ofUnits rest := by
  rw [ofUnits, if_pos rfl]

/-- Every other unit gives one directive. -/
theorem ofUnits_cons {u : TextUnit} (h : u ≠ Control.escape.unit) (rest : List TextUnit) :
    ofUnits (u :: rest) = .ofUnit u :: ofUnits rest := by
  cases rest with
  | nil => rw [ofUnits_singleton, ofUnits_nil]
  | cons v rest => rw [ofUnits, if_neg h]

/-- An unfinished escape is the last directive. -/
theorem eq_nil_of_unfinished {us : List TextUnit} {before after : Pattern}
    (h : ofUnits us = before ++ .unfinished :: after) : after = [] := by
  fun_induction ofUnits us generalizing before with
  | case1 => simp at h
  | case2 u => cases before <;> simp_all
  | case3 v rest ih =>
    -- An escape with a unit after it writes that unit, so the unfinished one comes later.
    cases before with
    | nil => simp at h
    | cons d before => exact ih (List.cons.inj h).2
  | case4 u v rest hu ih =>
    -- Only an escape can be unfinished, and this unit is none.
    cases before with
    | nil => exact absurd (Directive.ofUnit_eq_unfinished_iff.1 (List.cons.inj h).1) hu
    | cons d before => exact ih (List.cons.inj h).2

end Pattern

end Stencil
