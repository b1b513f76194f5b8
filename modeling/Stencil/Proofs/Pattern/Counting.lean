import Stencil.Proofs.Loop
import Stencil.Proofs.Pattern.Reading

/-!
# Counting a pattern

A summary as a loop over one queue of units: each round takes a unit, and an escape takes the one
after it as well. The loop counts what it meets without reading directives beforehand, and it ends
with the summary of the pattern (`Counting.reaches_summary`).
-/

namespace Stencil

namespace Summary

theorem append_assoc (s t u : Summary Nat) :
    (s.append t).append u = s.append (t.append u) := by
  simp only [append, Nat.add_assoc, Bool.or_assoc]

theorem append_empty (s : Summary Nat) : s.append empty = s := by
  simp only [append, empty, Nat.add_zero, Bool.or_false]

theorem empty_append (s : Summary Nat) : empty.append s = s := by
  simp only [append, empty, Nat.zero_add, Bool.false_or]

end Summary

/-- Units that wait, and the summary of those that came before. -/
structure Counting where
  pattern : List TextUnit
  found : Summary Nat
  deriving DecidableEq

namespace Counting

/-- State before the first round. -/
def start (pattern : Text) : Counting := ⟨pattern.units, .empty⟩

/-- One round of the loop. -/
def step : Counting → Counting
  | ⟨[], s⟩ => ⟨[], s⟩
  | ⟨u :: rest, s⟩ =>
      if u = Control.escape.unit then
        if rest = [] then ⟨[], { s with unfinished := true }⟩
        else ⟨rest.tail, { s with literals := s.literals + 1 }⟩
      else if u = Control.copy.unit then ⟨rest, { s with copies := s.copies + 1 }⟩
      else if u = Control.drop.unit then ⟨rest, { s with drops := s.drops + 1 }⟩
      else if u = Control.dropRest.unit then ⟨rest, { s with dropsRest := true }⟩
      else ⟨rest, { s with literals := s.literals + 1 }⟩

/-- The loop goes on while there are units. -/
def loop : Loop Counting := ⟨fun s => s.pattern ≠ [], step⟩

/-- State in which the summary of the waiting units leaves the loop. -/
def outcome (s : Counting) : Counting :=
  ⟨[], s.found.append (Pattern.ofUnits s.pattern).summary⟩

variable (s : Summary Nat)

/-- An escape counts together with the unit after it. -/
theorem step_escape_cons (v : TextUnit) (rest : List TextUnit) :
    step ⟨Control.escape.unit :: v :: rest, s⟩ =
      ⟨rest, s.append (Pattern.summary [.write v])⟩ := by
  simp [step, Pattern.summary, Summary.append, Directive.isWrite]

theorem step_escape_nil :
    step ⟨[Control.escape.unit], s⟩ = ⟨[], s.append (Pattern.summary [.unfinished])⟩ := by
  simp [step, Pattern.summary, Summary.append, Directive.isWrite]

/-- A unit that is no escape counts as its directive. -/
theorem step_unit {u : TextUnit} (hu : u ≠ Control.escape.unit) (rest : List TextUnit) :
    step ⟨u :: rest, s⟩ = ⟨rest, s.append (Pattern.summary [Directive.ofUnit u])⟩ := by
  rcases Pattern.unit_cases hu with rfl | rfl | rfl | plain
  · simp [step, Control.unit_inj, Pattern.summary, Summary.append, Directive.isWrite]
  · simp [step, Control.unit_inj, Pattern.summary, Summary.append, Directive.isWrite]
  · simp [step, Control.unit_inj, Pattern.summary, Summary.append, Directive.isWrite]
  · rw [Pattern.ofUnit_of_ne_unit plain]
    simp [step, plain, Pattern.summary, Summary.append, Directive.isWrite]

/-- A round keeps the summary with which the loop will end. -/
theorem outcome_step (s : Counting) : s.step.outcome = s.outcome := by
  obtain ⟨pattern, found⟩ := s
  cases pattern with
  | nil => rfl
  | cons u rest =>
      by_cases hu : u = Control.escape.unit
      · subst hu
        cases rest with
        | nil =>
            rw [step_escape_nil, outcome, outcome, Pattern.ofUnits_nil, Pattern.summary_nil,
              Summary.append_empty, Pattern.ofUnits_singleton, Directive.ofUnit_escape]
        | cons v rest =>
            rw [step_escape_cons, outcome, outcome, Pattern.ofUnits_escape_cons,
              Summary.append_assoc, ← Pattern.summary_append, List.singleton_append]
      · rw [step_unit found hu, outcome, outcome, Pattern.ofUnits_cons hu, Summary.append_assoc,
          ← Pattern.summary_append, List.singleton_append]

/-- A round takes at least one unit from the pattern. -/
theorem length_step_lt {s : Counting} (h : s.pattern ≠ []) :
    s.step.pattern.length < s.pattern.length := by
  obtain ⟨pattern, found⟩ := s
  cases pattern with
  | nil => exact absurd rfl h
  | cons u rest =>
      by_cases hu : u = Control.escape.unit
      · subst hu
        cases rest with
        | nil =>
            rw [step_escape_nil]
            exact Nat.lt_succ_self _
        | cons v rest =>
            rw [step_escape_cons]
            show rest.length < rest.length + 1 + 1
            omega
      · rw [step_unit found hu]
        exact Nat.lt_succ_self _

/-- The loop ends, with the summary of the pattern. -/
theorem reaches_summary (pattern : Text) :
    loop.Reaches (start pattern) ⟨[], pattern.summary⟩ := by
  have reaches : loop.Reaches (start pattern) (start pattern).outcome := by
    refine loop.reaches_outcome outcome (fun s => s.pattern.length) outcome_step ?_ ?_
      (start pattern)
    · intro s more
      exact length_step_lt more
    · intro s ended
      obtain ⟨units, found⟩ := s
      obtain rfl : units = [] := not_not.1 ended
      rw [outcome, Pattern.ofUnits_nil, Pattern.summary_nil, Summary.append_empty]
  have found : (start pattern).outcome = ⟨[], pattern.summary⟩ := by
    rw [outcome, start, Summary.empty_append]
    rfl
  rwa [found] at reaches

end Counting

end Stencil
