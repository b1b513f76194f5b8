import Stencil.Formatting.Run

/-!
# Formatting a message by a pattern

The units of the message are run through the directives of the pattern. An empty message is the
result whatever the pattern is; an empty pattern gives the message back, which the run would do as
well (`formatBy_eq_output`). A missing message stays missing, and a missing pattern changes
nothing.
-/

namespace Stencil

namespace Text

/-- Run of the directives of `pattern` over the units of `message`. -/
def runBy (message pattern : Text) : Run := (Pattern.ofText pattern).run message.units

/-- Message formatted by a pattern. -/
def formatBy (message pattern : Text) : Text :=
  if message = [] ∨ pattern = [] then message else (message.runBy pattern).output

/-- Message formatted by a pattern, where either may be missing. -/
def formatBy? : Option Text → Option Text → Option Text
  | none, _ => none
  | some message, none => some message
  | some message, some pattern => some (message.formatBy pattern)

@[simp] theorem nil_formatBy (pattern : Text) : formatBy [] pattern = [] := by
  simp [formatBy]

@[simp] theorem formatBy_nil (message : Text) : formatBy message [] = message := by
  simp [formatBy]

/-- A message that is not empty becomes the output of its run. -/
theorem formatBy_eq_output {message : Text} (h : message ≠ []) (pattern : Text) :
    message.formatBy pattern = (message.runBy pattern).output := by
  by_cases empty : pattern = []
  · -- A run without directives leaves every unit over.
    subst empty
    rw [formatBy_nil, runBy, Pattern.ofText, units_nil, Pattern.ofUnits_nil, Run.output,
      Pattern.entries_run_nil, ofUnits_units]
  · rw [formatBy, if_neg (not_or.2 ⟨h, empty⟩)]

/-- Results for the first `k` units of the pattern, for each `k` up to all of them. -/
def formatByPrefixes (message : Option Text) (pattern : Text) : List (Option Text) :=
  (List.range (pattern.units.length + 1)).map fun k =>
    formatBy? message (some (ofUnits (pattern.units.take k)))

end Text

end Stencil
