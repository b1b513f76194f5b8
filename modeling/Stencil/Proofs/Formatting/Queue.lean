import Mathlib.Data.List.Basic
import Stencil.Formatting.Run

/-!
# The queue of a run

What a directive writes depends on the front of the queue only (`entry?_perform`), and the queue
that a pattern leaves behind depends on how many units it asks for and on whether it drops the
rest (`leftover_run`). As long as nothing is cleared, what was taken and what is left over make up
the message (`taken_append_leftover`).
-/

namespace Stencil

namespace Directive

/-- Unit that a directive writes when `front` is the first unit that waits. -/
def written? (front : Option TextUnit) : Directive → Option TextUnit
  | write u => some u
  | unfinished => some .marker
  | copy => some (front.getD .marker)
  | drop => none
  | dropRest => none

theorem entry?_perform (d : Directive) (queue : List TextUnit) :
    Effect.entry? (d.perform queue).1 = d.written? queue.head? := by
  cases d with
  | write u => rfl
  | unfinished => rfl
  | copy => cases queue <;> rfl
  | drop => cases queue <;> rfl
  | dropRest => rfl

/-- What a directive writes is its own unit, the front of the queue or a marker. -/
theorem eq_of_written? {d : Directive} {front : Option TextUnit} {u : TextUnit}
    (h : d.written? front = some u) : d = write u ∨ front = some u ∨ u = .marker := by
  cases d with
  | write v => exact Or.inl (congrArg write (Option.some.inj h))
  | unfinished => exact Or.inr (Or.inr (Option.some.inj h).symm)
  | copy =>
      cases front with
      | none => exact Or.inr (Or.inr (Option.some.inj h).symm)
      | some v => exact Or.inr (Or.inl h)
  | drop => exact nomatch h
  | dropRest => exact nomatch h

end Directive

namespace Pattern

/-- Units of a message that wait when a pattern has been performed. -/
def waiting (p : Pattern) (message : List TextUnit) : List TextUnit :=
  if .dropRest ∈ p then [] else message.drop (p.countP Directive.takesUnit)

theorem waiting_of_mem {p : Pattern} (h : .dropRest ∈ p) (message : List TextUnit) :
    p.waiting message = [] := if_pos h

theorem waiting_of_not_mem {p : Pattern} (h : .dropRest ∉ p) (message : List TextUnit) :
    p.waiting message = message.drop (p.countP Directive.takesUnit) := if_neg h

/-- What waits stands at the end of the message. -/
theorem waiting_suffix (p : Pattern) (message : List TextUnit) : p.waiting message <:+ message := by
  rw [waiting]
  split
  · exact List.nil_suffix
  · exact List.drop_suffix _ _

/-! ## One directive -/

/-- One directive leaves the queue behind that its pattern says. -/
theorem perform_queue (d : Directive) (queue : List TextUnit) :
    (d.perform queue).2 = waiting [d] queue := by
  cases d with
  | write u => rfl
  | unfinished => rfl
  | copy => cases queue <;> rfl
  | drop => cases queue <;> rfl
  | dropRest => rfl

/-- The first directive hands its queue on to the others. -/
theorem waiting_cons (d : Directive) (p : Pattern) (queue : List TextUnit) :
    waiting (d :: p) queue = p.waiting (waiting [d] queue) := by
  by_cases hd : d = .dropRest
  · subst hd
    simp [waiting]
  · have hd' : Directive.dropRest ≠ d := Ne.symm hd
    by_cases hp : Directive.dropRest ∈ p
    · simp [waiting, hp]
    · -- Nothing is cleared, so units are only dropped from the front, first by `d`.
      simp [waiting, hp, hd', List.countP_cons, Nat.add_comm]

/-- What a directive takes and the queue it leaves make up the queue it found. -/
theorem taken?_perform_append {d : Directive} (hd : d ≠ .dropRest) (queue : List TextUnit) :
    (d.perform queue).1.taken?.toList ++ (d.perform queue).2 = queue := by
  cases d with
  | write u => rfl
  | unfinished => rfl
  | copy => cases queue <;> rfl
  | drop => cases queue <;> rfl
  | dropRest => exact absurd rfl hd

/-! ## Runs -/

variable (p : Pattern) (queue : List TextUnit)

/-- What is left over is told by the counts of the pattern. -/
theorem leftover_run : (p.run queue).leftover = p.waiting queue := by
  induction p generalizing queue with
  | nil => rfl
  | cons d p ih => rw [run_cons, ih, perform_queue, ← waiting_cons]

/-- The second of two patterns finds the queue that the first leaves. -/
theorem waiting_append (q : Pattern) : waiting (p ++ q) queue = q.waiting (p.waiting queue) := by
  rw [← leftover_run, run_append, leftover_run, leftover_run]

theorem leftover_cons (d : Directive) :
    (run (d :: p) queue).leftover = (run p (d.perform queue).2).leftover := rfl

theorem written_cons (d : Directive) :
    (run (d :: p) queue).written =
      (d.written? queue.head?).toList ++ (run p (d.perform queue).2).written := by
  rw [run_cons, Run.written, List.filterMap_cons, Directive.entry?_perform]
  cases d.written? queue.head? <;> rfl

theorem taken_cons (d : Directive) :
    (run (d :: p) queue).taken =
      (d.perform queue).1.taken?.toList ++ (run p (d.perform queue).2).taken := by
  rw [run_cons, Run.taken, List.filterMap_cons]
  cases (d.perform queue).1.taken? <;> rfl

/-- A result starts with what the first directive writes. -/
theorem entries_cons (d : Directive) :
    (run (d :: p) queue).entries =
      (d.written? queue.head?).toList ++ (run p (d.perform queue).2).entries := by
  rw [Run.entries, written_cons, leftover_cons, List.append_assoc, ← Run.entries]

theorem written_append (q : Pattern) :
    (run (p ++ q) queue).written = (run p queue).written ++ (run q (p.waiting queue)).written := by
  rw [run_append, leftover_run]
  exact List.filterMap_append

/-- The second of two patterns goes on with what the first leaves waiting. -/
theorem entries_append (q : Pattern) :
    (run (p ++ q) queue).entries =
      (run p queue).written ++ (run q (p.waiting queue)).entries := by
  have left : (run (p ++ q) queue).leftover = (run q (p.waiting queue)).leftover := by
    rw [run_append, leftover_run p]
  rw [Run.entries, Run.entries, written_append, left, List.append_assoc]

/-- What a pattern writes is settled by as many units as it asks for. -/
theorem written_append_queue {p : Pattern} {front : List TextUnit}
    (h : p.countP Directive.takesUnit ≤ front.length) (back : List TextUnit) :
    (p.run (front ++ back)).written = (p.run front).written := by
  induction p generalizing front with
  | nil => rfl
  | cons d p ih =>
      rw [List.countP_cons] at h
      rw [written_cons, written_cons]
      cases d with
      | write u => exact congrArg _ (ih h)
      | unfinished => exact congrArg _ (ih h)
      | copy =>
          obtain ⟨u, front, rfl⟩ := List.exists_cons_of_length_pos (Nat.zero_lt_of_lt h)
          exact congrArg _ (ih (Nat.le_of_succ_le_succ h))
      | drop =>
          obtain ⟨u, front, rfl⟩ := List.exists_cons_of_length_pos (Nat.zero_lt_of_lt h)
          exact congrArg _ (ih (Nat.le_of_succ_le_succ h))
      | dropRest => rfl

/-- Unless the rest is dropped, a run takes from the front what it does not leave over. -/
theorem taken_append_leftover (h : .dropRest ∉ p) :
    (p.run queue).taken ++ (p.run queue).leftover = queue := by
  induction p generalizing queue with
  | nil => rfl
  | cons d p ih =>
      have hd : d ≠ .dropRest := by
        rintro rfl
        exact h List.mem_cons_self
      have hp : Directive.dropRest ∉ p := by
        intro hp
        exact h (List.mem_cons_of_mem d hp)
      rw [taken_cons, run_cons, List.append_assoc, ih _ hp, taken?_perform_append hd]

/-- Unless the rest is dropped, a run takes as many units as it asks for, while there are any. -/
theorem taken_run (h : .dropRest ∉ p) :
    (p.run queue).taken = queue.take (p.countP Directive.takesUnit) := by
  have parts := taken_append_leftover p queue h
  rw [leftover_run, waiting_of_not_mem h] at parts
  have whole := List.take_append_drop (p.countP Directive.takesUnit) queue
  exact List.append_cancel_right (parts.trans whole.symm)

/-- A run writes one unit for each writing, each copy and each unfinished escape. -/
theorem length_written_run :
    (p.run queue).written.length =
      p.countP Directive.isWrite + p.count .copy + p.count .unfinished := by
  induction p generalizing queue with
  | nil => rfl
  | cons d p ih =>
      rw [written_cons, List.length_append, ih]
      cases d <;>
        simp [Directive.written?, List.countP_cons, Directive.isWrite] <;> omega

/-- What a run writes comes from the pattern or from the message, or is a marker. -/
theorem mem_written_run {u : TextUnit} (h : u ∈ (p.run queue).written) :
    .write u ∈ p ∨ u ∈ queue ∨ u = .marker := by
  induction p generalizing queue with
  | nil => exact nomatch h
  | cons d p ih =>
      rw [written_cons, List.mem_append, Option.mem_toList] at h
      rcases h with h | h
      · rcases Directive.eq_of_written? h with rfl | front | marker
        · exact Or.inl List.mem_cons_self
        · exact Or.inr (Or.inl (List.mem_of_head? front))
        · exact Or.inr (Or.inr marker)
      · rcases ih _ h with hp | hq | marker
        · exact Or.inl (List.mem_cons_of_mem d hp)
        · -- What waits later has waited before.
          rw [perform_queue] at hq
          exact Or.inr (Or.inl ((waiting_suffix [d] queue).subset hq))
        · exact Or.inr (Or.inr marker)

/-- Nothing waits behind an empty queue. -/
theorem waiting_nil : p.waiting [] = [] := by
  rw [waiting, List.drop_nil, ite_self]

/-- With no message unit, every copy writes a marker. -/
theorem entries_run_empty : (p.run []).entries = p.filterMap (Directive.written? none) := by
  rw [Run.entries, leftover_run, waiting_nil, List.append_nil]
  induction p with
  | nil => rfl
  | cons d p ih =>
      rw [written_cons, perform_queue, waiting_nil, ih, List.filterMap_cons, List.head?_nil]
      cases d.written? none <;> rfl

end Pattern

end Stencil
