import Stencil.Proofs.Formatting.Acting
import Stencil.Proofs.Formatting.Draining

/-!
# Copies that starve

A copy starves when it finds no message unit, and writes a marker. In the loop over the two queues
these are the rounds that meet a copy while the message queue is empty, and the loop counts as many
of them as the run has (`Draining.reaches_starvation`). Since drops take units as well,
and a drop of the rest takes all of them, the number of markers depends on the order of the controls
and not on their counts alone. It is the number of copies with too many copies and drops in front of
them, or a drop of the rest (`Text.starvation_runBy`); the counts give bounds for it, from below and
from above (`Text.starvation_bounds`).
-/

namespace Stencil

namespace Pattern

variable (p : Pattern) (queue : List TextUnit)

/-! ## One run -/

theorem starvation_append (q : Pattern) :
    (run (p ++ q) queue).starvation =
      (p.run queue).starvation + (q.run (p.waiting queue)).starvation := by
  rw [Run.starvation, run_append, List.count_append, leftover_run]
  rfl

/-- The first directive starves if it is a copy and nothing waits. -/
theorem starvation_cons (d : Directive) :
    (run (d :: p) queue).starvation =
      (run p (d.perform queue).2).starvation + if d = .copy ∧ queue = [] then 1 else 0 := by
  rw [run_cons, Run.starvation, List.count_cons, ← Run.starvation]
  cases d with
  | write u => rfl
  | unfinished => rfl
  | copy => cases queue <;> rfl
  | drop => cases queue <;> rfl
  | dropRest => rfl

/-- Each copy that does not starve has a unit of the queue for itself. -/
theorem count_copy_le : p.count .copy ≤ (p.run queue).starvation + queue.length := by
  induction p generalizing queue with
  | nil => exact Nat.zero_le _
  | cons d p ih =>
      have rest := ih (d.perform queue).2
      rw [starvation_cons, List.count_cons]
      cases d with
      | write u => exact rest
      | unfinished => exact rest
      | copy =>
          cases queue with
          | nil => exact Nat.succ_le_succ rest
          | cons u queue => exact Nat.succ_le_succ rest
      | drop =>
          cases queue with
          | nil => exact rest
          | cons u queue => exact Nat.le_succ_of_le rest
      | dropRest => exact Nat.le_trans rest (Nat.add_le_add_left (Nat.zero_le _) _)

/-- Unless the rest is dropped, the queue runs out only for those that ask for more than it has. -/
theorem starvation_le (kept : .dropRest ∉ p) :
    (p.run queue).starvation ≤ p.countP Directive.takesUnit - queue.length := by
  induction p generalizing queue with
  | nil => exact Nat.zero_le _
  | cons d p ih =>
      have rest := ih (d.perform queue).2 (mt (List.mem_cons_of_mem d) kept)
      rw [starvation_cons, List.countP_cons]
      cases d with
      | write u => exact rest
      | unfinished => exact rest
      | copy =>
          cases queue with
          | nil => exact Nat.succ_le_succ rest
          | cons u queue =>
              -- One unit is asked for and taken, so nothing is missing because of it.
              show _ ≤ p.countP Directive.takesUnit + 1 - (queue.length + 1)
              rw [Nat.add_sub_add_right]
              exact rest
      | drop =>
          cases queue with
          | nil => exact Nat.le_succ_of_le rest
          | cons u queue =>
              show _ ≤ p.countP Directive.takesUnit + 1 - (queue.length + 1)
              rw [Nat.add_sub_add_right]
              exact rest
      | dropRest => exact absurd List.mem_cons_self kept

/-- Nothing waits behind a drop of the rest, or when as many units were asked for as there are. -/
theorem waiting_eq_nil_iff :
    p.waiting queue = [] ↔ queue.length ≤ p.countP Directive.takesUnit ∨ .dropRest ∈ p := by
  by_cases hr : Directive.dropRest ∈ p
  · exact iff_of_true (waiting_of_mem hr queue) (Or.inr hr)
  · rw [waiting_of_not_mem hr, List.drop_eq_nil_iff]
    exact (or_iff_left hr).symm

end Pattern

/-! ## The loop -/

namespace Draining

/-- The next round is a copy that finds the message queue empty. -/
def Starves (s : Draining) : Prop := s.pattern.head? = some Control.copy.unit ∧ s.message = []

instance (s : Draining) : Decidable s.Starves := inferInstanceAs (Decidable (_ ∧ _))

/-- The loop with a count of the rounds whose copy finds no unit. -/
def starvingLoop : Loop (Draining × Nat) where
  goesOn s := s.1.pattern ≠ []
  round s := (s.1.step, s.2 + if s.1.Starves then 1 else 0)

/-- Number of copies that are going to find no unit. -/
def starvation (s : Draining) : Nat := ((Pattern.ofUnits s.pattern).run s.message).starvation

/-- A round is counted when the directive that it performs starves. -/
theorem starvation_step (s : Draining) :
    s.starvation = s.step.starvation + if s.Starves then 1 else 0 := by
  obtain ⟨pattern, message, buffer, taken⟩ := s
  cases pattern with
  | nil => rfl
  | cons u rest =>
      by_cases hu : u = Control.escape.unit
      · subst hu
        have fed : ¬ Starves ⟨Control.escape.unit :: rest, message, buffer, taken⟩ := by
          simp [Starves, Control.unit_inj]
        rw [step_escape, if_neg fed]
        cases rest with
        | nil => simp [starvation, Run.starvation, Pattern.run_cons, Directive.perform]
        | cons v rest =>
            rw [starvation, Pattern.ofUnits_escape_cons, Pattern.starvation_cons]
            simp only [starvation, List.tail_cons, Directive.perform, reduceCtorEq, false_and,
              if_false]
      · have starves : Starves ⟨u :: rest, message, buffer, taken⟩ ↔
            Directive.ofUnit u = .copy ∧ message = [] := by
          rw [← Directive.ofUnit_copy, Directive.ofUnit_inj]
          simp [Starves]
        rw [step_unit message buffer taken hu, starvation, Pattern.ofUnits_cons hu,
          Pattern.starvation_cons]
        simp only [starvation, starves]

/-- Two texts are drained to what the run gives, with as many starving copies as the run has. -/
theorem reaches_starvation (message pattern : Text) :
    starvingLoop.Reaches (start message pattern, 0)
      (⟨[], (message.runBy pattern).leftover, (message.runBy pattern).written,
        (message.runBy pattern).taken⟩, (message.runBy pattern).starvation) := by
  have ends : starvingLoop.Reaches (start message pattern, 0)
      ((start message pattern).outcome, 0 + (start message pattern).starvation) := by
    refine starvingLoop.reaches_outcome (fun s => (s.1.outcome, s.2 + s.1.starvation))
      (fun s => s.1.pattern.length) ?_ ?_ ?_ (start message pattern, 0)
    · -- What a round counts is no longer to come.
      rintro ⟨s, n⟩
      refine Prod.ext (outcome_step s) ?_
      show n + (if s.Starves then 1 else 0) + s.step.starvation = n + s.starvation
      rw [starvation_step s]
      omega
    · intro s more
      exact length_step_lt more
    · rintro ⟨⟨pattern, message, buffer, taken⟩, n⟩ ended
      obtain rfl : pattern = [] := not_not.1 ended
      simp [outcome, starvation, Run.starvation, Run.written, Run.taken]
  rw [Nat.zero_add] at ends
  exact ends

end Draining

/-! ## By places -/

/-- Places that find nothing in a message of `n` units: the copies and drops in front ask for that
many, or the rest is dropped in front. -/
def Place.FindsNothing (q : Place) (n : Nat) : Prop :=
  n ≤ q.before.asking.length ∨ ∃ r ∈ q.before.places, r.Acts .dropRest

instance (q : Place) (n : Nat) : Decidable (q.FindsNothing n) :=
  inferInstanceAs (Decidable (_ ∨ _))

namespace Text

variable (t : Text) (queue : List TextUnit)

/-- The queue is empty in front of a place exactly when the place finds nothing. -/
theorem waiting_ofText_eq_nil_iff (c : CodePoint) :
    (Pattern.ofText t).waiting queue = [] ↔ Place.FindsNothing ⟨t, c⟩ queue.length := by
  rw [Pattern.waiting_eq_nil_iff, ← length_asking, dropRest_mem_ofText]
  exact Iff.rfl

/-- An escape that waits at the end makes no difference to the queue. -/
theorem waiting_ofPlaces :
    (Pattern.ofPlaces t).waiting queue = (Pattern.ofText t).waiting queue := by
  rw [← Pattern.waiting_spread (Pattern.ofText t), Pattern.spread_ofText,
    Pattern.ofCodePoints_eq_byParity, Pattern.byParity, Pattern.waiting_append]
  split <;> rfl

/-- A place starves if a copy acts there and finds nothing. -/
theorem starvation_directive? (q : Place) :
    (Pattern.run q.directive?.toList queue).starvation =
      if q.Acts .copy ∧ queue = [] then 1 else 0 := by
  simp only [← Place.directive?_eq_copy_iff]
  cases q.directive? with
  | none => rfl
  | some d =>
      rw [Option.toList_some, Pattern.starvation_cons]
      simp only [Option.some.injEq]
      exact Nat.zero_add _

/-- The copies that starve are known by what stands in front of them. The induction adds a code
point at the end, where the queue is known from those in front. -/
theorem starvation_ofPlaces :
    ((Pattern.ofPlaces t).run queue).starvation =
      t.places.countP fun q => q.Acts .copy ∧ q.FindsNothing queue.length := by
  induction t using List.reverseRecOn with
  | nil => rfl
  | append_singleton t c ih =>
      have empty := waiting_ofText_eq_nil_iff t queue c
      rw [← waiting_ofPlaces] at empty
      rw [Pattern.ofPlaces_concat, Pattern.starvation_append, ih, starvation_directive?,
        places_concat, List.countP_append, List.countP_singleton]
      simp only [empty, decide_eq_true_eq]

theorem starvation_runBy (message pattern : Text) :
    (message.runBy pattern).starvation =
      pattern.places.countP fun q => q.Acts .copy ∧ q.FindsNothing message.units.length := by
  rw [Run.starvation_eq_count_acted, acted_runBy, ← Run.starvation_eq_count_acted,
    Pattern.byParity, Pattern.starvation_append, starvation_ofPlaces]
  split <;> rfl

/-- The copies that find no unit of the message are those with as many copies and drops in front of
them as the message has units, or with a drop of the rest in front. There are at most as many as
there are copies, and at least as many as there are copies more than units. So some copy starves
when there are more copies than units, and none does when the pattern asks for no more units than
there are and does not drop the rest. -/
theorem starvation_bounds {message : Text} (h : message ≠ []) (pattern : Text) :
    let n := message.units.length
    let s := pattern.summary
    let r := message.runBy pattern
    message.formatBy pattern = r.output ∧
      (s.copies - n ≤ r.starvation ∧ r.starvation ≤ s.copies) ∧
      (n < s.copies → 0 < r.starvation) ∧
      (s.dropsRest = false →
        r.starvation ≤ s.consumed - n ∧ (s.consumed ≤ n → r.starvation = 0)) ∧
      r.starvation = pattern.places.countP fun q => q.Acts .copy ∧ q.FindsNothing n := by
  intro n s r
  have starved := starvation_runBy message pattern
  have fed : s.copies ≤ r.starvation + n := Pattern.count_copy_le _ _
  refine ⟨formatBy_eq_output h pattern, ⟨?_, ?_⟩, ?_, ?_, starved⟩
  · exact Nat.sub_le_of_le_add fed
  · rw [starved, summary_copies]
    apply List.countP_mono_left
    intro q _ hq
    exact decide_eq_true (of_decide_eq_true hq).1
  · intro more
    omega
  · intro kept
    have bound : r.starvation ≤ s.consumed - n := by
      rw [summary_consumed]
      exact Pattern.starvation_le _ _ (summary_dropsRest_eq_false.1 kept)
    refine ⟨bound, ?_⟩
    intro enough
    omega

/-- Three copies for two units, the first of which is dropped: two copies starve, which is more than
the counts of copies and units tell, and as many as can. A copy and a drop are fed. -/
theorem starvation_bounds_drop_first :
    let message : Text := [.ofChar 'A', ⟨0xD83D, by decide⟩, ⟨0xDE48, by decide⟩]
    let hungry : Text := ['#', '_', '_', '\\', '_', '_'].map .ofChar
    let modest : Text := ['_', 'x', '#'].map .ofChar
    message ≠ [] ∧
      (hungry.summary = ⟨3, 1, false, 1, false⟩ ∧ 0 < (message.runBy hungry).starvation ∧
        (message.runBy hungry).starvation ≤ 2 ∧ (message.runBy hungry).starvation = 2) ∧
      modest.summary = ⟨1, 1, false, 1, false⟩ ∧ (message.runBy modest).starvation = 0 := by
  intro message hungry modest
  have nonempty : message ≠ [] := List.cons_ne_nil _ _
  have length : message.units.length = 2 := by decide +kernel
  have summary : hungry.summary = ⟨3, 1, false, 1, false⟩ := by decide +kernel
  have summary' : modest.summary = ⟨1, 1, false, 1, false⟩ := by decide +kernel
  obtain ⟨-, -, starves, bound, exact⟩ := starvation_bounds nonempty hungry
  obtain ⟨-, -, -, fed, -⟩ := starvation_bounds nonempty modest
  rw [length, summary] at starves bound
  rw [length, summary'] at fed
  refine ⟨nonempty, ⟨summary, starves (by decide), (bound rfl).1, ?_⟩, summary', ?_⟩
  · rw [exact]
    decide +kernel
  · exact (fed rfl).2 (Nat.le_refl 2)

end Text

end Stencil
