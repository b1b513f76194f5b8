import Stencil.Formatting.Basic
import Stencil.Proofs.Formatting.Queue
import Stencil.Proofs.Pattern.Reading
import Stencil.Proofs.Text.Canonical

/-!
# Patterns in a row

A formatting by two patterns in a row is the first one, with the second applied to what the first
leaves over (`formatBy_append`). The two patterns are joined as texts: surrogates that meet
between them become one unit, and what is left over is read again as a message. Neither changes
the result, since a run writes the same text for a pattern read by code points
(`formatBy_eq_ofCodePoints`).
-/

namespace Stencil

namespace Pattern

/-! ## A pattern read by code points -/

theorem waiting_spread (p : Pattern) (queue : List TextUnit) :
    p.spread.waiting queue = p.waiting queue := by
  have rest : Directive.dropRest ∈ p.spread ↔ Directive.dropRest ∈ p := mem_spread rfl
  have asked : p.spread.countP Directive.takesUnit = p.countP Directive.takesUnit :=
    countP_spread (fun _ => rfl) p
  simp only [waiting, rest, asked]

theorem waiting_spreadOne (d : Directive) (queue : List TextUnit) :
    (spreadOne d).waiting queue = waiting [d] queue := by
  rw [← waiting_spread [d], spread_cons, spread_nil, List.append_nil]

/-- The code points of a unit, written one by one, are the unit. -/
theorem ofUnits_written_spreadOne (d : Directive) (queue : List TextUnit) :
    Text.ofUnits (run (spreadOne d) queue).written =
      Text.ofUnits (d.written? queue.head?).toList := by
  cases d with
  | write u => cases u <;> rfl
  | unfinished => rfl
  | copy => cases queue <;> rfl
  | drop => cases queue <;> rfl
  | dropRest => rfl

theorem ofUnits_written_spread (p : Pattern) (queue : List TextUnit) :
    Text.ofUnits (p.spread.run queue).written = Text.ofUnits (p.run queue).written := by
  induction p generalizing queue with
  | nil => rfl
  | cons d p ih =>
      rw [spread_cons, written_append, written_cons, Text.ofUnits_append, Text.ofUnits_append,
        ofUnits_written_spreadOne, waiting_spreadOne, perform_queue, ih]

/-- A pattern writes the same text when its pairs are written in halves. -/
theorem output_spread (p : Pattern) (queue : List TextUnit) :
    (p.spread.run queue).output = (p.run queue).output := by
  rw [Run.output, Run.output, Run.entries, Run.entries, Text.ofUnits_append, Text.ofUnits_append,
    ofUnits_written_spread, leftover_run, leftover_run, waiting_spread]

/-! ## The text of a run -/

theorem output_cons (d : Directive) (p : Pattern) (queue : List TextUnit) :
    (run (d :: p) queue).output =
      Text.ofUnits (d.written? queue.head?).toList ++ (run p (d.perform queue).2).output := by
  rw [Run.output, entries_cons, Text.ofUnits_append, ← Run.output]

theorem output_write (u : TextUnit) (p : Pattern) (queue : List TextUnit) :
    (run (.write u :: p) queue).output = u.toText ++ (p.run queue).output := by
  rw [output_cons]
  exact congrArg (· ++ _) (List.append_nil _)

theorem output_unfinished (p : Pattern) (queue : List TextUnit) :
    (run (.unfinished :: p) queue).output = TextUnit.marker.toText ++ (p.run queue).output := by
  rw [output_cons]
  rfl

theorem output_copy (u : TextUnit) (p : Pattern) (queue : List TextUnit) :
    (run (.copy :: p) (u :: queue)).output = u.toText ++ (p.run queue).output := by
  rw [output_cons]
  exact congrArg (· ++ _) (List.append_nil _)

theorem output_copy_nil (p : Pattern) :
    (run (.copy :: p) []).output = TextUnit.marker.toText ++ (p.run []).output := by
  rw [output_cons]
  rfl

theorem output_drop (p : Pattern) (queue : List TextUnit) :
    (run (.drop :: p) queue).output = (p.run queue.tail).output := by
  rw [output_cons, perform_queue, waiting_of_not_mem (by decide)]
  exact congrArg (fun rest => (p.run rest).output) List.drop_one

theorem output_dropRest (p : Pattern) (queue : List TextUnit) :
    (run (.dropRest :: p) queue).output = (p.run []).output := by
  rw [output_cons]
  rfl

/-- The second of two patterns goes on where the first stopped. -/
theorem output_append (p q : Pattern) (queue : List TextUnit) :
    ((p ++ q).run queue).output =
      Text.ofUnits (p.run queue).written ++ (q.run (p.waiting queue)).output := by
  rw [Run.output, entries_append, Text.ofUnits_append, ← Run.output]

end Pattern

namespace Text

variable (message pattern : Text)

theorem formatBy_eq_ofCodePoints {message : Text} (h : message ≠ []) (pattern : Text) :
    message.formatBy pattern = ((Pattern.ofCodePoints pattern).run message.units).output := by
  rw [formatBy_eq_output h, runBy, ← Pattern.spread_ofText, Pattern.output_spread]

/-- Text that a pattern leaves over of a message, told by its summary. -/
def remainder : Text :=
  if pattern.summary.dropsRest then [] else ofUnits (message.units.drop pattern.summary.consumed)

/-- Text that a pattern writes when there is no message unit to copy. -/
def starved : Text := ofUnits ((Pattern.ofText pattern).filterMap (Directive.written? none))

/-- A formatting by `first` can be resumed by `second`: the remainder stands at the end of what
`first` gives, and in its place `second` puts what it gives for the remainder as its message, or
for no message at all when nothing remains. -/
def Resumes (first second : Text) : Prop :=
  ∃ head, message.formatBy first = head ++ message.remainder first ∧
    message.formatBy (first ++ second) =
      head ++ if message.remainder first = [] then second.starved
        else (message.remainder first).formatBy second

theorem remainder_eq_waiting :
    message.remainder pattern = ofUnits ((Pattern.ofText pattern).waiting message.units) := by
  rw [remainder, summary_consumed, Pattern.waiting]
  by_cases h : .dropRest ∈ Pattern.ofText pattern
  · rw [if_pos (summary_dropsRest.2 h), if_pos h, ofUnits_nil]
  · rw [if_neg (mt summary_dropsRest.1 h), if_neg h]

/-- The units of the remainder are those that wait. -/
theorem units_remainder :
    (message.remainder pattern).units = (Pattern.ofText pattern).waiting message.units := by
  rw [remainder_eq_waiting, Pattern.waiting]
  split
  · simp
  · exact units_ofUnits_drop message _

/-- A remainder is formatted as the units that wait, and an empty one starves the pattern. -/
theorem output_run_remainder (first second : Text) :
    ((Pattern.ofText second).run (message.remainder first).units).output =
      if message.remainder first = [] then second.starved
      else (message.remainder first).formatBy second := by
  by_cases h : message.remainder first = []
  · rw [if_pos h, h, units_nil, Run.output, Pattern.entries_run_empty, starved]
  · rw [if_neg h, formatBy_eq_output h, runBy]

/-- A pattern whose escapes are all finished can be resumed by any text. -/
theorem resumes {message first : Text} (h : message ≠ [])
    (finished : .unfinished ∉ Pattern.ofText first) (second : Text) :
    message.Resumes first second := by
  refine ⟨ofUnits ((Pattern.ofText first).run message.units).written, ?_, ?_⟩
  · rw [formatBy_eq_output h, remainder_eq_waiting, runBy, Run.output, Run.entries,
      ofUnits_append, Pattern.leftover_run]
  · -- Only by code points is the whole read as one pattern after the other.
    rw [← output_run_remainder, units_remainder, formatBy_eq_ofCodePoints h,
      Pattern.ofCodePoints_append finished, Pattern.output_append, ← Pattern.spread_ofText,
      ← Pattern.spread_ofText, Pattern.ofUnits_written_spread, Pattern.waiting_spread,
      Pattern.output_spread]

/-- Formatting by two patterns in a row is formatting by the first, with the second applied to the
remainder. When the first ends in an unfinished escape, this holds with the first unit of the
second moved over to it. -/
theorem formatBy_append {message : Text} (h : message ≠ []) (first second : Text) :
    (first.summary.unfinished = false → message.Resumes first second) ∧
      (first.summary.unfinished = true → ∀ u us, second.units = u :: us →
        (first ++ u.toText) ++ ofUnits us = first ++ second ∧
          (first ++ u.toText).summary.unfinished = false ∧
            message.Resumes (first ++ u.toText) (ofUnits us)) := by
  constructor
  · intro finished
    exact resumes h (by simp [← summary_unfinished, finished]) second
  · intro unfinished u us split
    have finished : .unfinished ∉ Pattern.ofText (first ++ u.toText) :=
      Pattern.unfinished_not_mem_append (summary_unfinished.1 unfinished) u
    have joined : u.toText ++ ofUnits us = second := by
      rw [← ofUnits_cons, ← split, ofUnits_units]
    refine ⟨by rw [List.append_assoc, joined], ?_, resumes h finished (ofUnits us)⟩
    exact Bool.eq_false_iff.2 (mt summary_unfinished.1 finished)

/-- The halves of a pair come from the two patterns, and an escape at the end of the first takes a
pair from the second. -/
theorem formatBy_append_surrogates :
    let high : CodePoint := ⟨0xD83D, by decide⟩
    let low : CodePoint := ⟨0xDE48, by decide⟩
    let pair : TextUnit := .pair high low (by decide)
    let message : Text := ['A', 'B'].map .ofChar
    let copyHigh : Text := [.ofChar '_', high]
    let lowCopies : Text := [low, .ofChar '_', .ofChar '_']
    let escape : Text := [.ofChar '\\']
    let pairDrop : Text := [high, low, .ofChar '#']
    message ≠ [] ∧
      (copyHigh.summary.unfinished = false ∧ message.Resumes copyHigh lowCopies) ∧
      escape.summary.unfinished = true ∧ pairDrop.units = [pair, .single (.ofChar '#')] ∧
        message.Resumes (escape ++ pair.toText) (ofUnits [.single (.ofChar '#')]) := by
  intro high low pair message copyHigh lowCopies escape pairDrop
  have nonempty : message ≠ [] := List.cons_ne_nil _ _
  have finished : copyHigh.summary.unfinished = false := by decide +kernel
  have unfinished : escape.summary.unfinished = true := by decide +kernel
  have split : pairDrop.units = [pair, .single (.ofChar '#')] := by decide +kernel
  have joined := (formatBy_append nonempty copyHigh lowCopies).1 finished
  obtain ⟨-, -, moved⟩ := (formatBy_append nonempty escape pairDrop).2 unfinished _ _ split
  exact ⟨nonempty, ⟨finished, joined⟩, unfinished, split, moved⟩

end Text

end Stencil
