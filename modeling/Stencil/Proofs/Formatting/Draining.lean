import Stencil.Formatting.Basic
import Stencil.Proofs.Formatting.Queue
import Stencil.Proofs.Loop
import Stencil.Proofs.Pattern.Reading

/-!
# Draining two queues

A formatting as a loop: the pattern and the message wait in two queues of units, and each round
takes a unit from the pattern, acts on what it is, and moves on. An escape takes a second unit
from the pattern, a copy and a drop take one from the message. No directive is read beforehand.

From every state the loop comes to an end, and it ends with the buffer, the taken units and the
leftover units of the run (`Draining.reaches_outcome`). One round keeps the outcome
(`Draining.outcome_step`) and shortens the pattern (`Draining.length_step_lt`).
-/

namespace Stencil

/-- Two queues of units, the buffer, and the units taken from the message by copies and drops. -/
structure Draining where
  pattern : List TextUnit
  message : List TextUnit
  buffer : List TextUnit
  taken : List TextUnit
  deriving DecidableEq

namespace Draining

/-- State before the first round. -/
def start (message pattern : Text) : Draining := ⟨pattern.units, message.units, [], []⟩

/-- One round of the loop. A unit that is missing is replaced by a marker. -/
def step : Draining → Draining
  | ⟨[], message, buffer, taken⟩ => ⟨[], message, buffer, taken⟩
  | ⟨u :: rest, message, buffer, taken⟩ =>
      if u = Control.escape.unit then
        ⟨rest.tail, message, buffer ++ [rest.headD .marker], taken⟩
      else if u = Control.copy.unit then
        ⟨rest, message.tail, buffer ++ [message.headD .marker], taken ++ message.take 1⟩
      else if u = Control.drop.unit then
        ⟨rest, message.tail, buffer, taken ++ message.take 1⟩
      else if u = Control.dropRest.unit then ⟨rest, [], buffer, taken⟩
      else ⟨rest, message, buffer ++ [u], taken⟩

/-- The loop goes on while the pattern lasts. -/
def loop : Loop Draining := ⟨fun s => s.pattern ≠ [], step⟩

/-- State in which the run of the pattern leaves the loop. -/
def outcome (s : Draining) : Draining :=
  let r := (Pattern.ofUnits s.pattern).run s.message
  ⟨[], r.leftover, s.buffer ++ r.written, s.taken ++ r.taken⟩

section Step

variable (message buffer taken : List TextUnit)

theorem step_escape (rest : List TextUnit) :
    step ⟨Control.escape.unit :: rest, message, buffer, taken⟩ =
      ⟨rest.tail, message, buffer ++ [rest.headD .marker], taken⟩ := by
  rw [step, if_pos rfl]

/-- Any other unit acts as its directive does. -/
theorem step_unit {u : TextUnit} (hu : u ≠ Control.escape.unit) (rest : List TextUnit) :
    step ⟨u :: rest, message, buffer, taken⟩ =
      ⟨rest, ((Directive.ofUnit u).perform message).2,
        buffer ++ ((Directive.ofUnit u).written? message.head?).toList,
        taken ++ (Effect.taken? ((Directive.ofUnit u).perform message).1).toList⟩ := by
  rcases Pattern.unit_cases hu with rfl | rfl | rfl | plain
  · -- A copy and a drop differ on an empty queue.
    cases message with
    | nil => simp [step, Control.unit_inj, Directive.perform, Directive.written?, Effect.taken?]
    | cons v message =>
        simp [step, Control.unit_inj, Directive.perform, Directive.written?, Effect.taken?]
  · cases message with
    | nil => simp [step, Control.unit_inj, Directive.perform, Directive.written?, Effect.taken?]
    | cons v message =>
        simp [step, Control.unit_inj, Directive.perform, Directive.written?, Effect.taken?]
  · simp [step, Control.unit_inj, Directive.perform, Directive.written?, Effect.taken?]
  · rw [Pattern.ofUnit_of_ne_unit plain]
    simp [step, plain, Directive.perform, Directive.written?, Effect.taken?]

end Step

/-- A round keeps the state in which the loop will end. -/
theorem outcome_step (s : Draining) : s.step.outcome = s.outcome := by
  obtain ⟨pattern, message, buffer, taken⟩ := s
  cases pattern with
  | nil => rfl
  | cons u rest =>
      by_cases hu : u = Control.escape.unit
      · subst hu
        rw [step_escape]
        cases rest with
        | nil =>
            -- The escape is unfinished, and the marker is written now or by its directive.
            simp [outcome, Run.written, Run.taken, Pattern.run_cons, Directive.perform,
              Effect.entry?, Effect.taken?]
        | cons v rest =>
            simp only [outcome, Pattern.ofUnits_escape_cons, Pattern.written_cons,
              Pattern.taken_cons, Pattern.leftover_cons, List.append_assoc]
            rfl
      · rw [step_unit message buffer taken hu]
        simp only [outcome, Pattern.ofUnits_cons hu, Pattern.written_cons, Pattern.taken_cons,
          Pattern.leftover_cons, List.append_assoc]

/-- A round takes at least one unit from the pattern. -/
theorem length_step_lt {s : Draining} (h : s.pattern ≠ []) :
    s.step.pattern.length < s.pattern.length := by
  obtain ⟨pattern, message, buffer, taken⟩ := s
  cases pattern with
  | nil => exact absurd rfl h
  | cons u rest =>
      by_cases hu : u = Control.escape.unit
      · subst hu
        rw [step_escape]
        show rest.tail.length < rest.length + 1
        rw [List.length_tail]
        omega
      · rw [step_unit message buffer taken hu]
        exact Nat.lt_succ_self _

/-- The loop ends, in the state of the run. -/
theorem reaches_outcome (s : Draining) : loop.Reaches s s.outcome := by
  refine loop.reaches_outcome outcome (fun s => s.pattern.length) outcome_step ?_ ?_ s
  · intro s more
    exact length_step_lt more
  · intro s ended
    obtain ⟨pattern, message, buffer, taken⟩ := s
    obtain rfl : pattern = [] := not_not.1 ended
    simp [outcome, Run.written, Run.taken]

/-- Two texts are drained to what the run writes, takes and leaves over. -/
theorem reaches_runBy (message pattern : Text) :
    loop.Reaches (start message pattern)
      ⟨[], (message.runBy pattern).leftover, (message.runBy pattern).written,
        (message.runBy pattern).taken⟩ :=
  reaches_outcome (start message pattern)

end Draining

end Stencil
