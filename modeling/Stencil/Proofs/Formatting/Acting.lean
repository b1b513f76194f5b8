import Stencil.Proofs.Formatting.Composition
import Stencil.Proofs.Pattern.Parity

/-!
# Controls that act

Whether a control acts in a pattern or stands for itself is settled by the escapes directly in front
of it, an even number of them or an odd one. The summary of the pattern counts by that rule, and so
does a run go: what is done to the message is done by the active controls, in their order, and the
others are written (`summary_and_runs_by_parity`).
-/

namespace Stencil

namespace Effect

/-- Effects that write a unit of the pattern. -/
def isWrote : Effect → Bool
  | wrote _ => true
  | _ => false

end Effect

namespace Run

/-- What a run does other than writing units of the pattern, in order. -/
def acted (r : Run) : List Effect := r.effects.filter fun e => !e.isWrote

/-- Copies that found nothing are no writings. -/
theorem starvation_eq_count_acted (r : Run) : r.starvation = r.acted.count .starved := by
  rw [acted, List.count_filter rfl, starvation]

end Run

namespace Pattern

theorem acted_append (p q : Pattern) (queue : List TextUnit) :
    (run (p ++ q) queue).acted = (p.run queue).acted ++ (q.run (p.waiting queue)).acted := by
  rw [Run.acted, run_append, List.filter_append, leftover_run]
  rfl

/-- Code points that are written one by one make no difference to what is done otherwise. -/
theorem acted_spread (p : Pattern) (queue : List TextUnit) :
    (p.spread.run queue).acted = (p.run queue).acted := by
  have one : ∀ d queue, (run (spreadOne d) queue).acted = (run [d] queue).acted := by
    intro d queue
    cases d with
    | write u => cases u <;> rfl
    | unfinished => rfl
    | copy => rfl
    | drop => rfl
    | dropRest => rfl
  induction p generalizing queue with
  | nil => rfl
  | cons d p ih =>
      rw [spread_cons, acted_append, one, waiting_spreadOne, ih, ← acted_append,
        List.singleton_append]

end Pattern

namespace Text

theorem acted_runBy (message pattern : Text) :
    (message.runBy pattern).acted = ((Pattern.byParity pattern).run message.units).acted := by
  rw [runBy, ← Pattern.acted_spread, Pattern.spread_ofText, Pattern.ofCodePoints_eq_byParity]

/-- The controls with an even number of escapes directly in front of them act, and the others are
written. The summary counts them so: copies and drops, whether the rest is dropped, and as literals
the units that are no controls together with the controls that do not act; an escape is unfinished
when an odd number of them stands at the end. A run of the pattern performs the directives that are
found by this rule at each place, whatever the message is. -/
theorem summary_and_runs_by_parity (pattern : Text) :
    let s := pattern.summary
    (s.copies = pattern.places.countP (Place.Acts · .copy) ∧
      s.drops = pattern.places.countP (Place.Acts · .drop) ∧
      (s.dropsRest = true ↔ ∃ q ∈ pattern.places, q.Acts .dropRest) ∧
      s.literals =
        pattern.units.countP (Control.ofUnit? · = none) +
          pattern.places.countP (Place.Inert ·) ∧
      (s.unfinished = true ↔ Odd pattern.escapesAtEnd)) ∧
    (Pattern.ofText pattern).spread = Pattern.byParity pattern ∧
    ∀ message : Text,
      (message.runBy pattern).acted = ((Pattern.byParity pattern).run message.units).acted ∧
        (message ≠ [] →
          message.formatBy pattern = ((Pattern.byParity pattern).run message.units).output) := by
  intro s
  refine ⟨⟨summary_copies pattern, summary_drops pattern, ?_, ?_, ?_⟩, ?_, ?_⟩
  · exact summary_dropsRest.trans dropRest_mem_ofText
  · have literals := countP_isWrite_ofUnits pattern.units
    rwa [ofUnits_units] at literals
  · exact summary_unfinished.trans unfinished_mem_ofText
  · rw [Pattern.spread_ofText, Pattern.ofCodePoints_eq_byParity]
  · intro message
    refine ⟨acted_runBy message pattern, ?_⟩
    intro h
    rw [formatBy_eq_ofCodePoints h, Pattern.ofCodePoints_eq_byParity]

/-- Two escapes in front of a copy, three in front of a drop, and one at the end: the copy acts, the
drop is written, and the last escape is unfinished. -/
theorem summary_and_runs_by_parity_nested :
    let high : CodePoint := ⟨0xD83D, by decide⟩
    let low : CodePoint := ⟨0xDE48, by decide⟩
    let message : Text := [high, low, .ofChar 'A', .ofChar 'B']
    let pattern : Text := ['\\', '\\', '_', '\\', '\\', '\\', '#', '_', '\\'].map .ofChar
    message ≠ [] ∧ pattern.summary.copies = 2 ∧
      message.formatBy pattern =
        [.ofChar '\\', high, low, .ofChar '\\', .ofChar '#', .ofChar 'A', .ofChar '?',
          .ofChar 'B'] := by
  intro high low message pattern
  have nonempty : message ≠ [] := List.cons_ne_nil _ _
  obtain ⟨⟨copies, -⟩, -, runs⟩ := summary_and_runs_by_parity pattern
  refine ⟨nonempty, ?_, ?_⟩
  · rw [copies]
    decide +kernel
  · rw [(runs message).2 nonempty]
    decide +kernel

end Text

end Stencil
