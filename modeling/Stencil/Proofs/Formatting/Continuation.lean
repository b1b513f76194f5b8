import Stencil.Proofs.Formatting.Composition
import Stencil.Proofs.Pattern.Clearing

/-!
# Messages in a row

A message that goes on behind the units that a pattern asks for has the same result, followed by
what came behind, or the same result alone if the pattern drops the rest in time
(`append_formatBy`). The last unit of a message may become another one when the message goes on;
this is harmless as long as the unit is not asked for, and the two parts are told apart exactly
there (`Text.Settles`).
-/

namespace Stencil

namespace Pattern

variable {front : List TextUnit}

/-- Units behind those that are asked for come out behind the result. -/
theorem output_append_queue {p : Pattern} (kept : .dropRest ∉ p)
    (all : p.countP Directive.takesUnit = front.length) (back : List TextUnit) :
    (p.run (front ++ back)).output =
      Text.ofUnits (p.run front).written ++ Text.ofUnits back := by
  rw [Run.output, Run.entries, written_append_queue (Nat.le_of_eq all), leftover_run,
    waiting_of_not_mem kept, all, List.drop_left, Text.ofUnits_append]

/-- Units behind those that are asked for are not seen if the rest is dropped before another one
is asked for. -/
theorem output_append_queue_of_dropRest (p q : Pattern)
    (all : p.countP Directive.takesUnit = front.length) (back : List TextUnit) :
    (run (p ++ .dropRest :: q) (front ++ back)).output =
      (run (p ++ .dropRest :: q) front).output := by
  -- Behind the drop, all that is known of the queue is that it is empty.
  rw [output_append, output_append, written_append_queue (Nat.le_of_eq all), output_dropRest,
    output_dropRest]

end Pattern

namespace Text

variable {message more pattern : Text}

/-- Both messages start with the settled units. What the first has behind them is `rest`, and the
second has `rest` and the text that goes on. -/
theorem Settles.exists_units {n : Nat} (h : message.Settles more n) :
    ∃ front rest, front.length = n ∧ message.units = front ++ units rest ∧
      (message ++ more).units = front ++ units (rest ++ more) := by
  refine ⟨message.units.take n, ofUnits (message.units.drop n), ?_, ?_, h.units_append⟩
  · exact List.length_take_of_le h.le_length
  · rw [units_ofUnits_drop, List.take_append_drop]

/-- A pattern that drops no rest leaves over what comes behind the units that it asks for. -/
theorem formatBy_append_of_settles (h : message ≠ [])
    (kept : .dropRest ∉ Pattern.ofText pattern)
    (settles : message.Settles more ((Pattern.ofText pattern).countP Directive.takesUnit)) :
    (message ++ more).formatBy pattern = message.formatBy pattern ++ more := by
  obtain ⟨front, rest, length, units, units'⟩ := settles.exists_units
  rw [formatBy_eq_output (List.append_ne_nil_of_left_ne_nil h more), formatBy_eq_output h, runBy,
    runBy, units, units', Pattern.output_append_queue kept length.symm,
    Pattern.output_append_queue kept length.symm, ofUnits_units, ofUnits_units, List.append_assoc]

/-- A pattern that drops the rest does not see what comes behind the units that it asked for until
then. -/
theorem formatBy_append_of_dropRest (h : message ≠ []) {p q : Pattern}
    (reads : Pattern.ofText pattern = p ++ .dropRest :: q)
    (settles : message.Settles more (p.countP Directive.takesUnit)) :
    (message ++ more).formatBy pattern = message.formatBy pattern := by
  obtain ⟨front, rest, length, units, units'⟩ := settles.exists_units
  rw [formatBy_eq_output (List.append_ne_nil_of_left_ne_nil h more), formatBy_eq_output h, runBy,
    runBy, units, units', reads, Pattern.output_append_queue_of_dropRest p q length.symm,
    Pattern.output_append_queue_of_dropRest p q length.symm]

/-- A message that goes on behind its settled units is formatted as before. What comes behind
follows the result of a pattern that drops no rest, where all units that the pattern asks for have
to be settled. If some `!` acts in the pattern, there is a first one; what comes behind then leaves
no trace, and only the units that are asked for in front of that `!` have to be settled. -/
theorem append_formatBy (h : message ≠ []) (more pattern : Text) :
    (pattern.summary.dropsRest = false → message.Settles more pattern.summary.consumed →
        (message ++ more).formatBy pattern = message.formatBy pattern ++ more) ∧
      (pattern.summary.dropsRest = true ↔ ∃! before, pattern.BeforeDropRest before) ∧
      ∀ before, pattern.BeforeDropRest before → message.Settles more before.summary.consumed →
        (message ++ more).formatBy pattern = message.formatBy pattern := by
  refine ⟨?_, summary_dropsRest_iff_existsUnique, ?_⟩
  · intro kept settles
    rw [summary_consumed] at settles
    exact formatBy_append_of_settles h (summary_dropsRest_eq_false.1 kept) settles
  · intro before first settles
    rw [summary_consumed] at settles
    obtain ⟨after, reads⟩ := first.ofText
    exact formatBy_append_of_dropRest h reads settles

/-- A high surrogate at the end of a message becomes half of a pair when the message goes on. That
is seen neither behind one copy, nor behind a drop of the rest that follows one copy, although the
second pattern goes on with a copy that starves and another drop of the rest. -/
theorem append_formatBy_surrogates :
    let high : CodePoint := ⟨0xD83D, by decide⟩
    let low : CodePoint := ⟨0xDE48, by decide⟩
    let message : Text := [.ofChar 'A', high]
    let more : Text := [low, .ofChar 'B']
    let copy : Text := ['x', '_'].map .ofChar
    let clear : Text := ['_', '!', '_', '\\', '!', '!'].map .ofChar
    message ≠ [] ∧
      (copy.summary.dropsRest = false ∧ message.Settles more copy.summary.consumed ∧
        (message ++ more).formatBy copy = [.ofChar 'x', .ofChar 'A', high, low, .ofChar 'B']) ∧
      clear.BeforeDropRest [.ofChar '_'] ∧
        (message ++ more).formatBy clear = ['A', '?', '!'].map .ofChar := by
  intro high low message more copy clear
  have nonempty : message ≠ [] := List.cons_ne_nil _ _
  have kept : copy.summary.dropsRest = false := by decide +kernel
  have settles : message.Settles more copy.summary.consumed := by decide +kernel
  have first : clear.BeforeDropRest [.ofChar '_'] :=
    ⟨⟨_, rfl⟩, by decide +kernel, by decide +kernel⟩
  have settles' : message.Settles more (summary [.ofChar '_']).consumed := by decide +kernel
  obtain ⟨goesOn, -, -⟩ := append_formatBy nonempty more copy
  obtain ⟨-, -, unseen⟩ := append_formatBy nonempty more clear
  refine ⟨nonempty, ⟨kept, settles, ?_⟩, first, ?_⟩
  · rw [goesOn kept settles]
    decide +kernel
  · rw [unseen _ first settles']
    decide +kernel

end Text

end Stencil
