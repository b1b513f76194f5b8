import Mathlib.Data.List.Induction
import Stencil.Formatting.Basic
import Stencil.Proofs.Formatting.Queue
import Stencil.Proofs.Pattern.Reading

/-!
# Formatting by index

The result of a formatting without a queue: a copy writes the message unit whose index is the
number of copies and drops in front of it, and what follows the pattern are the units from the
number of all of them on. `formatBy_eq_indexed` says that the run gives exactly this.
-/

namespace Stencil

namespace Pattern

/-- Unit that the directive at index `i` writes: a copy writes the unit of the message at the
number of copies and drops before it, or a marker when there is none or the rest was dropped. -/
def entryAt? (p : Pattern) (message : List TextUnit) (i : Nat) : Option TextUnit :=
  match p[i]? with
  | some (.write u) => some u
  | some .unfinished => some .marker
  | some .copy =>
      let a := (p.take i).countP Directive.takesUnit
      some (if h : a < message.length ∧ .dropRest ∉ p.take i then message[a] else .marker)
  | some .drop => none
  | some .dropRest => none
  | none => none

/-- Units of a result by index: those of the directives in order, then those that wait. -/
def indexed (p : Pattern) (message : List TextUnit) : List TextUnit :=
  (List.range p.length).filterMap (p.entryAt? message) ++ p.waiting message

/-- Directives behind `i` have no part in what the one at `i` writes. -/
theorem entryAt?_append (p q : Pattern) (message : List TextUnit) {i : Nat} (hi : i < p.length) :
    entryAt? (p ++ q) message i = p.entryAt? message i := by
  have here : (p ++ q)[i]? = p[i]? := List.getElem?_append_left hi
  have before : (p ++ q).take i = p.take i := List.take_append_of_le_length (Nat.le_of_lt hi)
  simp only [entryAt?, here, before]

/-- The last directive writes from the queue that the others leave behind. -/
theorem entryAt?_concat (p : Pattern) (d : Directive) (message : List TextUnit) :
    entryAt? (p ++ [d]) message p.length = d.written? (p.waiting message).head? := by
  have here : (p ++ [d])[p.length]? = some d := List.getElem?_concat_length
  have before : (p ++ [d]).take p.length = p := List.take_left
  cases d with
  | copy =>
      simp only [entryAt?, here, before, Directive.written?, Option.some.injEq]
      by_cases hp : Directive.dropRest ∈ p
      · rw [dif_neg fun h => h.2 hp, waiting_of_mem hp]
        rfl
      · -- What waits starts at the number of units taken before, if the message goes that far.
        rw [waiting_of_not_mem hp, List.head?_drop]
        by_cases ha : p.countP Directive.takesUnit < message.length
        · rw [dif_pos ⟨ha, hp⟩, List.getElem?_eq_getElem ha]
          rfl
        · rw [dif_neg fun h => ha h.1, List.getElem?_eq_none (Nat.le_of_not_lt ha)]
          rfl
  | write u => simp only [entryAt?, here, Directive.written?]
  | unfinished => simp only [entryAt?, here, Directive.written?]
  | drop => simp only [entryAt?, here, Directive.written?]
  | dropRest => simp only [entryAt?, here, Directive.written?]

/-- What a run has written, by index. The induction adds one directive at the end, where the queue
is known from the counts of those in front. -/
theorem written_eq_entryAt? (p : Pattern) (message : List TextUnit) :
    (p.run message).written = (List.range p.length).filterMap (p.entryAt? message) := by
  induction p using List.reverseRecOn with
  | nil => rfl
  | append_singleton p d ih =>
      have before : (List.range p.length).filterMap (entryAt? (p ++ [d]) message) =
          (List.range p.length).filterMap (entryAt? p message) := by
        apply List.filterMap_congr
        intro i hi
        exact entryAt?_append p [d] message (List.mem_range.1 hi)
      have last : (run [d] (waiting p message)).written =
          (d.written? (waiting p message).head?).toList := by
        rw [written_cons]
        exact List.append_nil _
      rw [written_append, last, List.length_append, List.length_singleton, List.range_succ,
        List.filterMap_append, before, ih, List.filterMap_cons, entryAt?_concat]
      cases d.written? (waiting p message).head? <;> rfl

theorem entries_run_eq_indexed (p : Pattern) (message : List TextUnit) :
    (p.run message).entries = p.indexed message := by
  rw [Run.entries, written_eq_entryAt?, leftover_run, indexed]

end Pattern

namespace Text

/-- A pattern has one reading, and a message that is not empty becomes the text of the units that
this reading gives by index. -/
theorem formatBy_eq_indexed {message : Text} (h : message ≠ []) (pattern : Text) :
    ∃ p : Pattern, (∀ q, Pattern.Reads pattern.units q ↔ q = p) ∧
      message.formatBy pattern = ofUnits (p.indexed message.units) := by
  refine ⟨Pattern.ofUnits pattern.units, ?_, ?_⟩
  · intro q
    exact Pattern.reads_iff
  · rw [formatBy_eq_output h, runBy, Run.output, Pattern.entries_run_eq_indexed, Pattern.ofText]

/-- A pair copied behind an escaped control, then a drop, a drop of the rest, a copy that starves
and an escape with nothing after it. -/
theorem formatBy_eq_indexed_starved :
    let message : Text := [⟨0xD83D, by decide⟩, ⟨0xDE48, by decide⟩, .ofChar 'A']
    let pattern : Text := ['\\', '_', '_', '#', '!', '_', '\\'].map .ofChar
    message ≠ [] ∧
      (∃ p : Pattern, (∀ q, Pattern.Reads pattern.units q ↔ q = p) ∧
        message.formatBy pattern = ofUnits (p.indexed message.units)) ∧
      message.formatBy pattern =
        [.ofChar '_', ⟨0xD83D, by decide⟩, ⟨0xDE48, by decide⟩, .ofChar '?', .ofChar '?'] := by
  intro message pattern
  have nonempty : message ≠ [] := List.cons_ne_nil _ _
  exact ⟨nonempty, formatBy_eq_indexed nonempty pattern, by decide +kernel⟩

end Text

end Stencil
