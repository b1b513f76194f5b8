import Stencil.Proofs.Formatting.Draining
import Stencil.Proofs.Pattern.Counting

/-!
# Account of a run

A summary is made without a message, and still tells how a run goes: how many units the result
has, how many of them are left over from the message, and how many were taken from its front
(`runBy_accounted`). The run and the summary are what the two loops over units end with.
-/

namespace Stencil

namespace Text

/-- Number of message units left over, told by the summary. -/
def leftoverCount (message pattern : Text) : Nat :=
  if pattern.summary.dropsRest then 0 else message.units.length - pattern.summary.consumed

variable (message pattern : Text)

theorem leftover_runBy :
    (message.runBy pattern).leftover = (Pattern.ofText pattern).waiting message.units :=
  Pattern.leftover_run _ _

theorem length_leftover_runBy :
    (message.runBy pattern).leftover.length = message.leftoverCount pattern := by
  rw [leftover_runBy, leftoverCount, summary_consumed]
  by_cases h : .dropRest ∈ Pattern.ofText pattern
  · rw [Pattern.waiting_of_mem h, if_pos (summary_dropsRest.2 h)]
    rfl
  · rw [Pattern.waiting_of_not_mem h, if_neg (mt summary_dropsRest.1 h), List.length_drop]

/-- One unit is written for each literal, for each copy and for an unfinished escape. -/
theorem length_written_runBy :
    (message.runBy pattern).written.length =
      pattern.summary.literals + pattern.summary.copies +
        if pattern.summary.unfinished then 1 else 0 := by
  have unfinished : (Pattern.ofText pattern).count .unfinished =
      if pattern.summary.unfinished then 1 else 0 := by
    rw [Pattern.ofText, Pattern.count_unfinished_ofUnits]
    exact if_congr summary_unfinished.symm rfl rfl
  rw [runBy, Pattern.length_written_run, unfinished]
  rfl

theorem length_entries_runBy :
    (message.runBy pattern).entries.length =
      pattern.summary.literals + pattern.summary.copies +
        (if pattern.summary.unfinished then 1 else 0) + message.leftoverCount pattern := by
  rw [Run.entries, List.length_append, length_leftover_runBy, length_written_runBy]

/-- No unit of a result is made up: it is one of the message or of the pattern, or a marker. -/
theorem mem_entries_runBy {u : TextUnit} (h : u ∈ (message.runBy pattern).entries) :
    u ∈ message.units ∨ u ∈ pattern.units ∨ u = .marker := by
  rcases List.mem_append.1 h with written | leftover
  · rcases Pattern.mem_written_run _ _ written with write | copied | marker
    · exact Or.inr (Or.inl (Pattern.mem_of_write_mem write))
    · exact Or.inl copied
    · exact Or.inr (Or.inr marker)
  · rw [leftover_runBy] at leftover
    exact Or.inl ((Pattern.waiting_suffix _ _).subset leftover)

/-- The loop over two queues ends with the run, the loop over the pattern with the summary, and
the summary tells the number of units in the result, those that are left over, and those that
copies and drops took from the front of the message. -/
theorem runBy_accounted {message : Text} (h : message ≠ []) (pattern : Text) :
    let s := pattern.summary
    let r := message.runBy pattern
    let left := message.leftoverCount pattern
    (Draining.loop.Reaches (.start message pattern) ⟨[], r.leftover, r.written, r.taken⟩ ∧
        Counting.loop.Reaches (.start pattern) ⟨[], s⟩ ∧
        message.formatBy pattern = ofUnits r.entries) ∧
      r.entries.length = s.literals + s.copies + (if s.unfinished then 1 else 0) + left ∧
      (∀ u ∈ r.entries, u ∈ message.units ∨ u ∈ pattern.units ∨ u = .marker) ∧
      r.entries.drop (r.entries.length - left) =
        message.units.drop (message.units.length - left) ∧
      (s.dropsRest = false →
        r.taken = message.units.take s.consumed ∧
          r.taken.length = min message.units.length s.consumed) := by
  intro s r left
  have leftover : r.leftover.length = left := length_leftover_runBy message pattern
  refine ⟨⟨Draining.reaches_runBy message pattern, Counting.reaches_summary pattern,
    formatBy_eq_output h pattern⟩, ?_, ?_, ?_, ?_⟩
  · rw [Run.entries, List.length_append, leftover, length_written_runBy]
  · intro u hu
    exact mem_entries_runBy message pattern hu
  · -- Both sides are the units left over, once as the end of the result and once of the message.
    have ofEntries : r.leftover = r.entries.drop (r.entries.length - left) :=
      leftover ▸ List.suffix_iff_eq_drop.1 (List.suffix_append _ _)
    have ofMessage : r.leftover = message.units.drop (message.units.length - left) := by
      rw [← leftover, ← List.suffix_iff_eq_drop, leftover_runBy]
      exact Pattern.waiting_suffix _ _
    rw [← ofEntries, ← ofMessage]
  · intro kept
    have notDropped : .dropRest ∉ Pattern.ofText pattern :=
      mt summary_dropsRest.2 (Bool.eq_false_iff.1 kept)
    have taken : r.taken = message.units.take s.consumed := by
      rw [summary_consumed]
      exact Pattern.taken_run _ _ notDropped
    exact ⟨taken, by rw [taken, List.length_take, Nat.min_comm]⟩

/-- A copy, a drop, two literals one of which is an escaped control, an escape at the end, and one
unit left over. -/
theorem runBy_accounted_unfinished :
    let message : Text := [.ofChar 'A', ⟨0xD83D, by decide⟩, ⟨0xDE48, by decide⟩, .ofChar 'B']
    let pattern : Text := ['x', '_', '#', '\\', '_', '\\'].map .ofChar
    message ≠ [] ∧ pattern.summary = ⟨1, 1, false, 2, true⟩ ∧
      (message.runBy pattern).entries.length = 2 + 1 + 1 + 1 ∧
      (message.runBy pattern).taken.length = 2 := by
  intro message pattern
  have nonempty : message ≠ [] := List.cons_ne_nil _ _
  have summary : pattern.summary = ⟨1, 1, false, 2, true⟩ := by decide +kernel
  have kept : pattern.summary.dropsRest = false := by rw [summary]
  have left : message.leftoverCount pattern = 1 := by decide +kernel
  obtain ⟨-, length, -, -, taken⟩ := runBy_accounted nonempty pattern
  refine ⟨nonempty, summary, ?_, ?_⟩
  · rw [length, summary, left]
    rfl
  · rw [(taken kept).2, summary]
    decide +kernel

end Text

end Stencil
