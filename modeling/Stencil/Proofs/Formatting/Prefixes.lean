import Stencil.Proofs.Formatting.Composition

/-!
# A pattern unit by unit

The results for the first units of a pattern, with one more unit each time. A result has two parts,
what the pattern wrote and what is left of the message, and one more unit edits the two parts in a
way that depends on the unit alone (`Parts.edit`). Only behind an unfinished escape, the marker at
the end of what was written gives way to the unit. So each of the formattings, which starts over
with the whole message, is one edit away from the one before (`formatBy_unit_by_unit`).
-/

namespace Stencil

/-- Result of a formatting in two parts: what the pattern wrote, and what is left of the message. -/
structure Parts where
  written : Text
  left : Text
  deriving DecidableEq

namespace Parts

/-- The two parts joined. -/
def text (r : Parts) : Text := r.written ++ r.left

/-- Parts after one more unit of the pattern, where no escape waits for it. -/
def edit (r : Parts) (u : TextUnit) : Parts :=
  match Control.ofUnit? u with
  | some .copy =>
    match r.left.units with
    | [] => ⟨r.written ++ TextUnit.marker.toText, []⟩
    | v :: rest => ⟨r.written ++ v.toText, Text.ofUnits rest⟩
  | some .drop => ⟨r.written, Text.ofUnits r.left.units.tail⟩
  | some .dropRest => ⟨r.written, []⟩
  | some .escape => ⟨r.written ++ TextUnit.marker.toText, r.left⟩
  | none => ⟨r.written ++ u.toText, r.left⟩

/-- Parts after one more directive, performed on what is left. -/
def after (r : Parts) (d : Directive) : Parts :=
  ⟨r.written ++ Text.ofUnits (d.written? r.left.units.head?).toList,
    Text.ofUnits (Pattern.waiting [d] r.left.units)⟩

variable (r : Parts)

/-! ## One directive more -/

theorem after_write (u : TextUnit) : r.after (.write u) = ⟨r.written ++ u.toText, r.left⟩ := by
  have queue : Pattern.waiting [.write u] r.left.units = r.left.units := rfl
  rw [after, queue, Text.ofUnits_units]
  exact congrArg (fun t => Parts.mk (r.written ++ t) r.left) (List.append_nil _)

theorem after_unfinished :
    r.after .unfinished = ⟨r.written ++ TextUnit.marker.toText, r.left⟩ := by
  have queue : Pattern.waiting [.unfinished] r.left.units = r.left.units := rfl
  rw [after, queue, Text.ofUnits_units]
  rfl

theorem after_copy_of_nil (h : r.left.units = []) :
    r.after .copy = ⟨r.written ++ TextUnit.marker.toText, []⟩ := by
  rw [after, h]
  rfl

theorem after_copy_of_cons {v : TextUnit} {rest : List TextUnit} (h : r.left.units = v :: rest) :
    r.after .copy = ⟨r.written ++ v.toText, Text.ofUnits rest⟩ := by
  rw [after, h]
  exact congrArg (fun t => Parts.mk (r.written ++ t) _) (List.append_nil _)

theorem after_drop : r.after .drop = ⟨r.written, Text.ofUnits r.left.units.tail⟩ := by
  have queue : Pattern.waiting [.drop] r.left.units = r.left.units.tail := List.drop_one
  rw [after, queue]
  exact congrArg (fun t => Parts.mk t _) (List.append_nil _)

theorem after_dropRest : r.after .dropRest = ⟨r.written, []⟩ :=
  congrArg (fun t => Parts.mk t _) (List.append_nil _)

/-- An edit is what the directive of the unit does. -/
theorem edit_eq_after (u : TextUnit) : r.edit u = r.after (.ofUnit u) := by
  rw [edit, Directive.ofUnit]
  cases Control.ofUnit? u with
  | none => exact (after_write r u).symm
  | some k =>
      cases k with
      | dropRest => exact (after_dropRest r).symm
      | drop => exact (after_drop r).symm
      | escape => exact (after_unfinished r).symm
      | copy =>
          cases h : r.left.units with
          | nil => simp only [after_copy_of_nil r h]
          | cons v rest => simp only [after_copy_of_cons r h]

/-- What is left stands at the end of what was left before. -/
theorem left_after_suffix (d : Directive) : (r.after d).left <:+ r.left := by
  obtain ⟨taken, split⟩ := Pattern.waiting_suffix [d] r.left.units
  refine ⟨Text.ofUnits taken, ?_⟩
  rw [after, ← Text.ofUnits_append, split, Text.ofUnits_units]

/-- A copy moves a unit over, and the result stays the same. -/
theorem text_edit_copy (h : r.left ≠ []) : (r.edit Control.copy.unit).text = r.text := by
  rw [edit_eq_after, Directive.ofUnit_copy]
  cases split : r.left.units with
  | nil => exact absurd (Text.units_eq_nil_iff.1 split) h
  | cons v rest =>
      rw [after_copy_of_cons r split, text, text, List.append_assoc, ← Text.ofUnits_cons, ← split,
        Text.ofUnits_units]

end Parts

namespace Text

variable (message : Text)

/-- The two parts of the result of a formatting. -/
def parts (pattern : Text) : Parts :=
  ⟨ofUnits (message.runBy pattern).written, message.remainder pattern⟩

theorem text_parts {message : Text} (h : message ≠ []) (pattern : Text) :
    (message.parts pattern).text = message.formatBy pattern := by
  rw [formatBy_eq_output h, Run.output, Run.entries, ofUnits_append, runBy, Pattern.leftover_run,
    ← remainder_eq_waiting]
  rfl

/-- The two parts that a list of directives gives. -/
def partsBy (p : Pattern) : Parts :=
  ⟨ofUnits (p.run message.units).written, ofUnits (p.waiting message.units)⟩

theorem parts_eq_partsBy (pattern : Text) :
    message.parts pattern = message.partsBy (Pattern.ofText pattern) := by
  rw [parts, remainder_eq_waiting]
  rfl

/-- One more directive acts on the parts that those before it give. -/
theorem partsBy_concat (p : Pattern) (d : Directive) :
    message.partsBy (p ++ [d]) = (message.partsBy p).after d := by
  -- What is left is the end of the message, so it is read as the same units once more.
  have left : (ofUnits (p.waiting message.units)).units = p.waiting message.units :=
    units_ofUnits_part (Pattern.waiting_suffix p _).isInfix
  have last : (Pattern.run [d] (p.waiting message.units)).written =
      (d.written? (p.waiting message.units).head?).toList := by
    rw [Pattern.written_cons]
    exact List.append_nil _
  rw [partsBy, Pattern.waiting_append, Pattern.written_append, last, ofUnits_append, Parts.after,
    partsBy, left]

/-! ## The first units of a pattern -/

/-- Text of the first `k` units. -/
def front (t : Text) (k : Nat) : Text := ofUnits (t.units.take k)

variable (pattern : Text)

theorem units_front (k : Nat) : (pattern.front k).units = pattern.units.take k :=
  units_ofUnits_part (List.take_prefix k _).isInfix

theorem ofText_front (k : Nat) :
    Pattern.ofText (pattern.front k) = Pattern.ofUnits (pattern.units.take k) := by
  rw [Pattern.ofText, units_front]

theorem ofText_front_succ {k : Nat} {u : TextUnit} (h : pattern.units[k]? = some u) :
    Pattern.ofText (pattern.front (k + 1)) = Pattern.ofUnits (pattern.units.take k ++ [u]) := by
  rw [ofText_front, List.take_add_one, h]
  rfl

variable {pattern} {k : Nat} {u : TextUnit}

/-- Where no escape waits, the next unit edits the parts. -/
theorem parts_front_succ (h : pattern.units[k]? = some u)
    (finished : .unfinished ∉ Pattern.ofText (pattern.front k)) :
    message.parts (pattern.front (k + 1)) = (message.parts (pattern.front k)).edit u := by
  have reads : Pattern.ofText (pattern.front (k + 1)) =
      Pattern.ofText (pattern.front k) ++ [Directive.ofUnit u] := by
    rw [ofText_front] at finished
    rw [ofText_front_succ pattern h, ofText_front, Pattern.ofUnits_append finished,
      Pattern.ofUnits_singleton]
  rw [parts_eq_partsBy, parts_eq_partsBy, reads, partsBy_concat, Parts.edit_eq_after]

/-- Where an escape waits, its marker gives way to the next unit. -/
theorem parts_front_succ_of_unfinished (h : pattern.units[k]? = some u)
    (unfinished : .unfinished ∈ Pattern.ofText (pattern.front k)) :
    ∃ e, (message.parts (pattern.front k)).written = e ++ TextUnit.marker.toText ∧
      message.parts (pattern.front (k + 1)) =
        ⟨e ++ u.toText, (message.parts (pattern.front k)).left⟩ := by
  -- Both patterns have the same directives, up to the last one.
  obtain ⟨p, here, next⟩ : ∃ p, Pattern.ofText (pattern.front k) = p ++ [.unfinished] ∧
      Pattern.ofText (pattern.front (k + 1)) = p ++ [.write u] := by
    rw [ofText_front] at unfinished
    refine ⟨(Pattern.ofUnits (pattern.units.take k)).dropLast, ?_, ?_⟩
    · rw [ofText_front]
      exact Pattern.eq_dropLast_append_unfinished unfinished
    · rw [ofText_front_succ pattern h, Pattern.ofUnits_append_unfinished unfinished,
        Pattern.ofUnits_nil]
  refine ⟨(message.partsBy p).written, ?_, ?_⟩
  · rw [parts_eq_partsBy, here, partsBy_concat, Parts.after_unfinished]
  · rw [parts_eq_partsBy, parts_eq_partsBy, here, next, partsBy_concat, partsBy_concat,
      Parts.after_unfinished, Parts.after_write]

/-! ## From one prefix to a longer one -/

/-- One more unit leaves an end of what was left. Behind the last unit, nothing changes. -/
theorem left_front_succ_suffix (k : Nat) :
    (message.parts (pattern.front (k + 1))).left <:+ (message.parts (pattern.front k)).left := by
  cases h : pattern.units[k]? with
  | none =>
      have whole : pattern.units.length ≤ k := List.getElem?_eq_none_iff.1 h
      have same : pattern.front (k + 1) = pattern.front k := by
        rw [front, front, List.take_of_length_le whole,
          List.take_of_length_le (Nat.le_succ_of_le whole)]
      exact same ▸ List.suffix_rfl
  | some u =>
      by_cases unfinished : .unfinished ∈ Pattern.ofText (pattern.front k)
      · obtain ⟨e, -, next⟩ := parts_front_succ_of_unfinished message h unfinished
        exact next ▸ List.suffix_rfl
      · rw [parts_front_succ message h unfinished, Parts.edit_eq_after]
        exact Parts.left_after_suffix _ _

/-- What is left only gets shorter, from the front. -/
theorem left_front_suffix {j k : Nat} (h : j ≤ k) :
    (message.parts (pattern.front k)).left <:+ (message.parts (pattern.front j)).left := by
  induction k, h using Nat.le_induction with
  | base => exact List.suffix_rfl
  | succ k _ ih => exact (left_front_succ_suffix message k).trans ih

/-- What was written stays, unless a marker stands at its end for an escape that waits. -/
theorem written_front_prefix {j k : Nat} (h : j ≤ k)
    (finished : .unfinished ∉ Pattern.ofText (pattern.front j)) :
    (message.parts (pattern.front j)).written <+: (message.parts (pattern.front k)).written := by
  have split : pattern.units.take k = pattern.units.take j ++ (pattern.units.take k).drop j := by
    have whole := List.take_append_drop j (pattern.units.take k)
    rw [List.take_take, Nat.min_eq_left h] at whole
    exact whole.symm
  -- No escape reaches over the cut, so the longer pattern begins with the same directives.
  rw [ofText_front] at finished
  rw [parts_eq_partsBy, parts_eq_partsBy, ofText_front, ofText_front, split,
    Pattern.ofUnits_append finished, partsBy, partsBy, Pattern.written_append, ofUnits_append]
  exact List.prefix_append _ _

/-- Each unit of a pattern makes one edit of the result for the units in front of it, of which the
part left of the message is the remainder that the summary tells. A copy that finds a unit does not
change the result. Where an escape waits, the marker for it is taken back and the unit is written.
So what is left only gets shorter from the front, and what was written only gets longer at the end,
the marker of a waiting escape apart. -/
theorem formatBy_unit_by_unit {message : Text} (h : message ≠ []) (pattern : Text) :
    let r (k : Nat) : Parts := message.parts (pattern.front k)
    (formatByPrefixes (some message) pattern =
          (List.range (pattern.units.length + 1)).map fun k => some (r k).text) ∧
      (∀ k, message.formatBy (pattern.front k) = (r k).text ∧
        (r k).left = message.remainder (pattern.front k)) ∧
      (∀ k u, pattern.units[k]? = some u →
        ((pattern.front k).summary.unfinished = false →
            r (k + 1) = (r k).edit u ∧
              (u = Control.copy.unit → (r k).left ≠ [] → (r (k + 1)).text = (r k).text)) ∧
          ((pattern.front k).summary.unfinished = true →
            ∃ e, (r k).written = e ++ TextUnit.marker.toText ∧
              r (k + 1) = ⟨e ++ u.toText, (r k).left⟩)) ∧
      ∀ j k, j ≤ k → (r k).left <:+ (r j).left ∧
        ((pattern.front j).summary.unfinished = false → (r j).written <+: (r k).written) := by
  intro r
  refine ⟨?_, ?_, ?_, ?_⟩
  · apply List.map_congr_left
    intro k _
    exact congrArg some (text_parts h (pattern.front k)).symm
  · intro k
    exact ⟨(text_parts h (pattern.front k)).symm, rfl⟩
  · intro k u next
    constructor
    · intro none_waits
      have edited : r (k + 1) = (r k).edit u :=
        parts_front_succ message next (summary_unfinished_eq_false.1 none_waits)
      refine ⟨edited, ?_⟩
      rintro rfl left
      rw [edited]
      exact Parts.text_edit_copy (r k) left
    · intro waits
      exact parts_front_succ_of_unfinished message next (summary_unfinished.1 waits)
  · intro j k le
    refine ⟨left_front_suffix message le, ?_⟩
    intro none_waits
    exact written_front_prefix message le (summary_unfinished_eq_false.1 none_waits)

/-- A copy, an escaped drop whose escape waits after the second unit, and a copy that starves after
the one that takes the last unit. -/
theorem formatBy_unit_by_unit_starved :
    let message : Text := [.ofChar 'A', ⟨0xD83D, by decide⟩, ⟨0xDE48, by decide⟩]
    let pattern : Text := ['_', '\\', '#', '_', '_'].map .ofChar
    let r (k : Nat) : Parts := message.parts (pattern.front k)
    message ≠ [] ∧
      (pattern.units[2]? = some Control.drop.unit ∧
        (pattern.front 2).summary.unfinished = true ∧
          ∃ e, (r 2).written = e ++ [.ofChar '?'] ∧ r 3 = ⟨e ++ [.ofChar '#'], (r 2).left⟩) ∧
      (pattern.units[4]? = some Control.copy.unit ∧
        (pattern.front 4).summary.unfinished = false ∧ r 5 = (r 4).edit Control.copy.unit ∧
          r 5 = ⟨(r 4).written ++ [.ofChar '?'], []⟩) ∧
      (pattern.front 1).summary.unfinished = false ∧ (r 1).written <+: (r 2).written := by
  intro message pattern r
  have nonempty : message ≠ [] := List.cons_ne_nil _ _
  have escaped : pattern.units[2]? = some Control.drop.unit := by decide +kernel
  have last : pattern.units[4]? = some Control.copy.unit := by decide +kernel
  have waits : (pattern.front 2).summary.unfinished = true := by decide +kernel
  have finished : (pattern.front 4).summary.unfinished = false := by decide +kernel
  have finished' : (pattern.front 1).summary.unfinished = false := by decide +kernel
  obtain ⟨-, -, edits, grows⟩ := formatBy_unit_by_unit nonempty pattern
  obtain ⟨edited, -⟩ := (edits 4 _ last).1 finished
  refine ⟨nonempty, ⟨escaped, waits, (edits 2 _ escaped).2 waits⟩,
    ⟨last, finished, edited, ?_⟩, finished', (grows 1 2 (by decide)).2 finished'⟩
  exact edited.trans (by decide +kernel)

end Text

end Stencil
