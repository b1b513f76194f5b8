import Stencil.Pattern.Summary
import Stencil.Proofs.Formatting.Composition
import Stencil.Proofs.Text.Expansion

/-!
# Formatting of expanded texts

No operation looks inside a unit, so a map of units that keeps the marker goes through a run
(`Pattern.entries_run_map`). The expansion of supplementary code points is such a map, and it
leaves the controls alone: formatting, summary and escape of expanded texts are the expanded ones
of the texts (`formatBy_expanded`, `summary_expanded`, `escaped_expanded`).
-/

namespace Stencil

section Map

variable (f : TextUnit → TextUnit)

namespace Directive

/-- Directive with its unit mapped. -/
def map : Directive → Directive
  | write u => write (f u)
  | d => d

theorem written?_map (hf : f .marker = .marker) (d : Directive) (front : Option TextUnit) :
    (d.map f).written? (front.map f) = (d.written? front).map f := by
  cases d with
  | write u => rfl
  | unfinished => exact congrArg some hf.symm
  | copy =>
      cases front with
      | none =>
          -- The marker that a starved copy writes comes from neither queue.
          exact congrArg some hf.symm
      | some u => rfl
  | drop => rfl
  | dropRest => rfl

theorem perform_queue_map (d : Directive) (queue : List TextUnit) :
    ((d.map f).perform (queue.map f)).2 = (d.perform queue).2.map f := by
  cases d with
  | write u => rfl
  | unfinished => rfl
  | copy => cases queue <;> rfl
  | drop => cases queue <;> rfl
  | dropRest => rfl

end Directive

namespace Pattern

/-- Mapped units go through a run unseen. -/
theorem entries_run_map (hf : f .marker = .marker) (p : Pattern) (queue : List TextUnit) :
    (run (p.map (Directive.map f)) (queue.map f)).entries = (p.run queue).entries.map f := by
  induction p generalizing queue with
  | nil => rfl
  | cons d p ih =>
      rw [List.map_cons, entries_cons, entries_cons, Directive.perform_queue_map,
        List.head?_map, Directive.written?_map f hf, ih, List.map_append]
      cases d.written? queue.head? <;> rfl

theorem summary_map (p : Pattern) : summary (p.map (Directive.map f)) = p.summary := by
  induction p with
  | nil => rfl
  | cons d p ih =>
      have first : summary [d.map f] = summary [d] := by
        cases d <;> rfl
      calc
        summary ((d :: p).map (Directive.map f))
            = (summary [d.map f]).append (summary (p.map (Directive.map f))) :=
          summary_append [d.map f] _
        _ = (summary [d]).append (summary p) := by rw [first, ih]
        _ = summary (d :: p) := (summary_append [d] p).symm

end Pattern

end Map

/-! ## The expansion -/

namespace Pattern

theorem ofUnit_expanded (u : TextUnit) :
    Directive.ofUnit u.expanded = (Directive.ofUnit u).map TextUnit.expanded := by
  rw [Directive.ofUnit, Directive.ofUnit, TextUnit.ofUnit?_expanded]
  cases Control.ofUnit? u with
  | none => rfl
  | some k => cases k <;> rfl

/-- Expanded units have the directives of the units, with what is written expanded. -/
theorem ofUnits_map_expanded (us : List TextUnit) :
    ofUnits (us.map TextUnit.expanded) = (ofUnits us).map (Directive.map TextUnit.expanded) := by
  fun_induction ofUnits us with
  | case1 => exact ofUnits_nil
  | case2 u => rw [List.map_singleton, ofUnits_singleton, ofUnit_expanded, List.map_singleton]
  | case3 v rest ih =>
      -- The escape stays an escape, and `v` is written, be it a control or not.
      rw [List.map_cons, List.map_cons, TextUnit.expanded_unit, ofUnits_escape_cons, ih]
      rfl
  | case4 u v rest hu ih =>
      have plain : u.expanded ≠ Control.escape.unit := by
        intro h
        exact hu (TextUnit.eq_single_of_expanded h)
      rw [List.map_cons, ofUnits_cons plain, ih, ofUnit_expanded, List.map_cons]

theorem ofText_expanded (t : Text) :
    ofText t.expanded = (ofText t).map (Directive.map TextUnit.expanded) := by
  rw [ofText, Text.units_expanded, ofUnits_map_expanded, ofText]

end Pattern

namespace Text

theorem formatBy_expanded (message pattern : Text) :
    message.expanded.formatBy pattern.expanded = (message.formatBy pattern).expanded := by
  by_cases h : message = []
  · subst h
    exact nil_formatBy _
  · have h' : message.expanded ≠ [] := mt expanded_eq_nil_iff.1 h
    rw [formatBy_eq_output h', formatBy_eq_output h, runBy, runBy, Pattern.ofText_expanded,
      units_expanded, Run.output, Pattern.entries_run_map _ TextUnit.expanded_marker,
      ofUnits_map_expanded, ← Run.output]

theorem summary_expanded (t : Text) : t.expanded.summary = t.summary := by
  rw [summary, Pattern.ofText_expanded, Pattern.summary_map, ← summary]

/-- Supplementary code points may be replaced by their surrogate pairs before an operation or after
it: in a message and a pattern that may be missing, in a pattern that is summed up, in a text that
is escaped, and in a text that is taken apart into units. -/
theorem operations_expanded :
    (∀ message pattern : Option Text,
        formatBy? (message.map expanded) (pattern.map expanded) =
          (formatBy? message pattern).map expanded) ∧
      (∀ pattern : Option Text, summaryOf (pattern.map expanded) = summaryOf pattern) ∧
      (∀ t : Text, t.expanded.escaped = t.escaped.expanded) ∧
      ∀ t : Text,
        t.expanded.units.map TextUnit.toText = t.units.map fun u => u.toText.expanded := by
  refine ⟨?_, ?_, escaped_expanded, ?_⟩
  · intro message pattern
    cases message with
    | none => rfl
    | some message =>
        cases pattern with
        | none => rfl
        | some pattern => exact congrArg some (formatBy_expanded message pattern)
  · intro pattern
    cases pattern with
    | none => rfl
    | some pattern => exact summary_expanded pattern
  · intro t
    rw [units_expanded, List.map_map]
    apply List.map_congr_left
    intro u _
    exact TextUnit.toText_expanded u

end Text

end Stencil
