import Stencil.Proofs.Formatting.Literal

/-!
# Patterns with the same results

Two patterns are equivalent when no message tells them apart (`Text.Equivalent`). Behind a pattern
whose escapes are finished, one text may stand for another if the two give the same result for every
queue of units that may wait there (`Text.Exchangeable`). Drops and literal text change places
in this way, a drop of the rest takes the place of the drops around it, and whatever stands behind a
drop of the rest can be written out in front of it (`Text.equivalent_rewritings`).
-/

namespace Stencil

namespace Text

/-- Patterns that give the same result for every message, missing and empty ones included. -/
def Equivalent (p q : Text) : Prop :=
  ∀ message : Option Text, formatBy? message (some p) = formatBy? message (some q)

/-- Result of a pattern for units that wait. -/
def resultFor (p : Text) (queue : List TextUnit) : Text :=
  ((Pattern.ofCodePoints p).run queue).output

variable (p : Text) (queue : List TextUnit)

/-! ## Results for a queue -/

theorem resultFor_nil : resultFor [] queue = ofUnits queue := by
  rw [resultFor, Pattern.ofCodePoints, List.map_nil, Pattern.ofUnits_nil]
  rfl

theorem resultFor_escaped_append (t : Text) :
    resultFor (t.escaped ++ p) queue = t ++ p.resultFor queue :=
  Pattern.output_escaped_append t p queue

/-- A control other than the escape gives its own directive, whatever follows it. -/
theorem resultFor_control {k : Control} (hk : k ≠ .escape) :
    resultFor ([k.codePoint] ++ p) queue =
      (Pattern.run (.ofUnit k.unit :: Pattern.ofCodePoints p) queue).output := by
  have plain : k.unit ≠ Control.escape.unit := mt Control.unit_inj.1 hk
  rw [resultFor, Pattern.ofCodePoints, List.singleton_append, List.map_cons]
  exact congrArg (fun q => (Pattern.run q queue).output) (Pattern.ofUnits_cons plain _)

theorem resultFor_drop :
    resultFor ([Control.drop.codePoint] ++ p) queue = p.resultFor queue.tail := by
  rw [resultFor_control p queue (by decide), Directive.ofUnit_drop, Pattern.output_drop, resultFor]

theorem resultFor_dropRest :
    resultFor ([Control.dropRest.codePoint] ++ p) queue = p.resultFor [] := by
  rw [resultFor_control p queue (by decide), Directive.ofUnit_dropRest, Pattern.output_dropRest,
    resultFor]

theorem resultFor_copy_nil :
    resultFor ([Control.copy.codePoint] ++ p) [] = TextUnit.marker.toText ++ p.resultFor [] := by
  rw [resultFor_control p [] (by decide), Directive.ofUnit_copy, Pattern.output_copy_nil, resultFor]

/-- A marker that stands in a pattern is written. -/
theorem resultFor_marker :
    resultFor (TextUnit.marker.toText ++ p) queue =
      TextUnit.marker.toText ++ p.resultFor queue := by
  have escaped : TextUnit.marker.toText.escaped = TextUnit.marker.toText := by decide +kernel
  have written := resultFor_escaped_append p queue TextUnit.marker.toText
  rwa [escaped] at written

/-- With no unit waiting, the result is what the pattern writes when every copy starves. -/
theorem resultFor_empty : p.resultFor [] = p.starved := by
  rw [resultFor, ← Pattern.spread_ofText, Pattern.output_spread, Run.output,
    Pattern.entries_run_empty, starved]

/-! ## What may be exchanged -/

/-- Texts that give the same result for every queue. -/
def Exchangeable (p q : Text) : Prop := ∀ queue, p.resultFor queue = q.resultFor queue

/-- What gives the same result for every queue may be exchanged behind finished escapes. -/
theorem Exchangeable.equivalent_append {before p q : Text} (same : Exchangeable p q)
    (finished : .unfinished ∉ Pattern.ofText before) : Equivalent (before ++ p) (before ++ q) := by
  rintro (_ | message)
  · rfl
  · apply congrArg some
    by_cases h : message = []
    · subst h
      rw [nil_formatBy, nil_formatBy]
    · rw [formatBy_eq_ofCodePoints h, formatBy_eq_ofCodePoints h,
        Pattern.ofCodePoints_append finished, Pattern.ofCodePoints_append finished,
        Pattern.output_append, Pattern.output_append]
      exact congrArg _ (same _)

section Exchange

variable (t after : Text)

theorem exchangeable_escaped_drop :
    Exchangeable (t.escaped ++ ([Control.drop.codePoint] ++ after))
      ([Control.drop.codePoint] ++ (t.escaped ++ after)) := by
  intro queue
  rw [resultFor_escaped_append, resultFor_drop, resultFor_drop, resultFor_escaped_append]

theorem exchangeable_escaped_dropRest :
    Exchangeable (t.escaped ++ ([Control.dropRest.codePoint] ++ after))
      ([Control.dropRest.codePoint] ++ (t.escaped ++ after)) := by
  intro queue
  rw [resultFor_escaped_append, resultFor_dropRest, resultFor_dropRest, resultFor_escaped_append]

theorem exchangeable_drop_dropRest :
    Exchangeable ([Control.drop.codePoint] ++ ([Control.dropRest.codePoint] ++ after))
      ([Control.dropRest.codePoint] ++ after) := by
  intro queue
  rw [resultFor_drop, resultFor_dropRest, resultFor_dropRest]

theorem exchangeable_dropRest_drop :
    Exchangeable ([Control.dropRest.codePoint] ++ ([Control.drop.codePoint] ++ after))
      ([Control.dropRest.codePoint] ++ after) := by
  intro queue
  rw [resultFor_dropRest, resultFor_drop, resultFor_dropRest, List.tail_nil]

theorem exchangeable_dropRest_dropRest :
    Exchangeable ([Control.dropRest.codePoint] ++ ([Control.dropRest.codePoint] ++ after))
      ([Control.dropRest.codePoint] ++ after) := by
  intro queue
  rw [resultFor_dropRest, resultFor_dropRest, resultFor_dropRest]

/-- A copy behind a drop of the rest writes a marker. -/
theorem exchangeable_dropRest_copy :
    Exchangeable ([Control.dropRest.codePoint] ++ ([Control.copy.codePoint] ++ after))
      ([Control.dropRest.codePoint] ++ (TextUnit.marker.toText ++ after)) := by
  intro queue
  rw [resultFor_dropRest, resultFor_dropRest, resultFor_copy_nil, resultFor_marker]

/-- Behind a drop of the rest stands nothing but the text that it writes. -/
theorem exchangeable_dropRest_starved :
    Exchangeable ([Control.dropRest.codePoint] ++ after)
      (after.starved.escaped ++ [Control.dropRest.codePoint]) := by
  intro queue
  -- On the right, the drop of the rest is the last to act, and leaves nothing over.
  have cleared : resultFor [Control.dropRest.codePoint] queue = [] := by
    have alone := resultFor_dropRest [] queue
    rwa [List.append_nil, resultFor_nil] at alone
  rw [resultFor_dropRest, resultFor_empty, resultFor_escaped_append, cleared, List.append_nil]

end Exchange

/-- Behind a pattern whose escapes are finished: a drop and a drop of the rest may be moved over
escaped text; a drop or another drop of the rest beside a drop of the rest may be left out; a copy
behind it may be replaced by a marker. So all that stands behind a drop of the rest may be replaced
by the text that it writes with no message, escaped and put in front. -/
theorem equivalent_rewritings {before : Text} (finished : before.summary.unfinished = false)
    (after t : Text) :
    let drop : Text := [Control.drop.codePoint]
    let clear : Text := [Control.dropRest.codePoint]
    let copy : Text := [Control.copy.codePoint]
    Equivalent (before ++ t.escaped ++ drop ++ after) (before ++ drop ++ t.escaped ++ after) ∧
      Equivalent (before ++ t.escaped ++ clear ++ after) (before ++ clear ++ t.escaped ++ after) ∧
      (Equivalent (before ++ drop ++ clear ++ after) (before ++ clear ++ after) ∧
        Equivalent (before ++ clear ++ drop ++ after) (before ++ clear ++ after) ∧
        Equivalent (before ++ clear ++ clear ++ after) (before ++ clear ++ after)) ∧
      Equivalent (before ++ clear ++ copy ++ after)
        (before ++ clear ++ [.ofChar '?'] ++ after) ∧
      Equivalent (before ++ clear ++ after) (before ++ after.starved.escaped ++ clear) := by
  intro drop clear copy
  rw [summary_unfinished_eq_false] at finished
  -- What is exchanged stands behind `before` as one text.
  simp only [List.append_assoc]
  refine ⟨?_, ?_, ⟨?_, ?_, ?_⟩, ?_, ?_⟩
  · exact (exchangeable_escaped_drop t after).equivalent_append finished
  · exact (exchangeable_escaped_dropRest t after).equivalent_append finished
  · exact (exchangeable_drop_dropRest after).equivalent_append finished
  · exact (exchangeable_dropRest_drop after).equivalent_append finished
  · exact (exchangeable_dropRest_dropRest after).equivalent_append finished
  · exact (exchangeable_dropRest_copy after).equivalent_append finished
  · exact (exchangeable_dropRest_starved after).equivalent_append finished

/-- Halves of pairs at every edge: the text starts with the low half of the one that ends the front
pattern, and ends with the high half of the one that starts the back pattern. -/
theorem equivalent_rewritings_halves :
    let high : CodePoint := ⟨0xD83D, by decide⟩
    let low : CodePoint := ⟨0xDE48, by decide⟩
    let before : Text := [.ofChar '_', high]
    let t : Text := [low, .ofChar '#', high]
    let after : Text := [low, .ofChar '_', .ofChar '\\']
    before.summary.unfinished = false ∧
      Equivalent (before ++ t.escaped ++ [.ofChar '#'] ++ after)
        (before ++ [.ofChar '#'] ++ t.escaped ++ after) ∧
      Equivalent (before ++ [.ofChar '!'] ++ after)
        (before ++ [low, .ofChar '?', .ofChar '?'] ++ [.ofChar '!']) := by
  intro high low before t after
  have finished : before.summary.unfinished = false := by decide +kernel
  have written : after.starved.escaped = [low, .ofChar '?', .ofChar '?'] := by decide +kernel
  obtain ⟨moved, -, -, -, cleared⟩ := equivalent_rewritings finished after t
  rw [written] at cleared
  exact ⟨finished, moved, cleared⟩

end Text

end Stencil
