import Stencil.Pattern.Basic

/-!
# Run of a pattern over a message

The units of a message wait in a queue, and the directives of the pattern are performed in order.
Each performance is kept as one effect, so that the units written, the units taken and the copies
that found nothing can be told apart afterwards. Units that are never taken are left over and
follow what the pattern wrote (`Run.entries`). A run of two patterns in a row is a run of the
second on what the first left over (`run_append`).
-/

namespace Stencil

/-- What one directive did. -/
inductive Effect where
  | wrote (u : TextUnit)
  | marked
  | copied (u : TextUnit)
  | starved
  | dropped (u : TextUnit)
  | idle
  | cleared (us : List TextUnit)
  deriving DecidableEq

namespace Effect

/-- Unit that an effect writes: a marker stands for a unit that is missing. -/
def entry? : Effect → Option TextUnit
  | wrote u => some u
  | marked => some .marker
  | copied u => some u
  | starved => some .marker
  | dropped _ => none
  | idle => none
  | cleared _ => none

/-- Unit that a copy or a drop takes from the front of the queue. -/
def taken? : Effect → Option TextUnit
  | copied u => some u
  | dropped u => some u
  | _ => none

end Effect

/-- Effect of one directive on a queue, and the queue after it. -/
def Directive.perform : Directive → List TextUnit → Effect × List TextUnit
  | write u, queue => (.wrote u, queue)
  | unfinished, queue => (.marked, queue)
  | copy, [] => (.starved, [])
  | copy, u :: queue => (.copied u, queue)
  | drop, [] => (.idle, [])
  | drop, u :: queue => (.dropped u, queue)
  | dropRest, queue => (.cleared queue, [])

/-- Effects of a pattern in order, and the units left over. -/
structure Run where
  effects : List Effect
  leftover : List TextUnit
  deriving DecidableEq

namespace Run

/-- Units that the effects write. -/
def written (r : Run) : List TextUnit := r.effects.filterMap Effect.entry?

/-- Units that copies and drops take from the front of the message. -/
def taken (r : Run) : List TextUnit := r.effects.filterMap Effect.taken?

/-- Number of copies that found no unit. -/
def starvation (r : Run) : Nat := r.effects.count .starved

/-- Units of the result: those written, then those left over. -/
def entries (r : Run) : List TextUnit := r.written ++ r.leftover

/-- Text of the result. -/
def output (r : Run) : Text := Text.ofUnits r.entries

end Run

namespace Pattern

/-- Run of a pattern over a queue of message units. -/
def run : Pattern → List TextUnit → Run
  | [], queue => ⟨[], queue⟩
  | d :: p, queue =>
    let (effect, queue') := d.perform queue
    let rest := run p queue'
    ⟨effect :: rest.effects, rest.leftover⟩

@[simp] theorem run_nil (queue : List TextUnit) : run [] queue = ⟨[], queue⟩ := rfl

theorem run_cons (d : Directive) (p : Pattern) (queue : List TextUnit) :
    run (d :: p) queue =
      ⟨(d.perform queue).1 :: (run p (d.perform queue).2).effects,
        (run p (d.perform queue).2).leftover⟩ := rfl

/-- The second of two patterns runs on what the first left over. -/
theorem run_append (p q : Pattern) (queue : List TextUnit) :
    run (p ++ q) queue =
      ⟨(run p queue).effects ++ (run q (run p queue).leftover).effects,
        (run q (run p queue).leftover).leftover⟩ := by
  induction p generalizing queue with
  | nil => rfl
  | cons d p ih => simp [run_cons, ih]

/-- A pattern without directives leaves the queue as it is. -/
@[simp] theorem entries_run_nil (queue : List TextUnit) : (run [] queue).entries = queue := rfl

end Pattern

end Stencil
