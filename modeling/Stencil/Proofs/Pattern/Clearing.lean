import Stencil.Proofs.Pattern.Reading
import Stencil.Proofs.Text.Junction

/-!
# The first clearing of a pattern

A pattern that drops the rest of the message does so at a first place. The text in front of that
place is read on its own, and so is the text behind it (`BeforeDropRest.ofText`). The place is the
only one of its kind (`summary_dropsRest_iff_existsUnique`).
-/

namespace Stencil

namespace Pattern

/-! ## Parts of a reading -/

/-- Where a reading is parted, the units are parted as well. -/
theorem exists_split_of_ofUnits_eq_append {us : List TextUnit} {p q : Pattern}
    (h : ofUnits us = p ++ q) : ∃ vs ws, us = vs ++ ws ∧ ofUnits vs = p ∧ ofUnits ws = q := by
  fun_induction ofUnits us generalizing p with
  | case1 =>
      obtain ⟨rfl, rfl⟩ := List.append_eq_nil_iff.1 h.symm
      exact ⟨[], [], rfl, ofUnits_nil, ofUnits_nil⟩
  | case2 u =>
      cases p with
      | nil => exact ⟨[], [u], rfl, ofUnits_nil, (ofUnits_singleton u).trans h⟩
      | cons d p =>
          -- The only directive is in the first part, even if it is an unfinished escape.
          obtain ⟨rfl, rest⟩ := List.cons.inj h
          obtain ⟨rfl, rfl⟩ := List.append_eq_nil_iff.1 rest.symm
          exact ⟨[u], [], rfl, ofUnits_singleton u, ofUnits_nil⟩
  | case3 v rest ih =>
      cases p with
      | nil => exact ⟨[], _, rfl, ofUnits_nil, (ofUnits_escape_cons v rest).trans h⟩
      | cons d p =>
          -- The escape stays together with the unit that it takes.
          obtain ⟨rfl, parted⟩ := List.cons.inj h
          obtain ⟨vs, ws, rfl, rfl, rfl⟩ := ih parted
          exact ⟨Control.escape.unit :: v :: vs, ws, rfl, ofUnits_escape_cons v vs, rfl⟩
  | case4 u v rest hu ih =>
      cases p with
      | nil => exact ⟨[], _, rfl, ofUnits_nil, (ofUnits_cons hu (v :: rest)).trans h⟩
      | cons d p =>
          obtain ⟨rfl, parted⟩ := List.cons.inj h
          obtain ⟨vs, ws, split, rfl, rfl⟩ := ih parted
          exact ⟨u :: vs, ws, congrArg (u :: ·) split, ofUnits_cons hu vs, rfl⟩

/-- Only the character for it drops the rest. -/
theorem eq_cons_of_ofUnits_eq_dropRest_cons {us : List TextUnit} {p : Pattern}
    (h : ofUnits us = .dropRest :: p) :
    ∃ vs, us = Control.dropRest.unit :: vs ∧ ofUnits vs = p := by
  have reads := reads_ofUnits us
  rw [h] at reads
  cases reads with
  | dropRest rest => exact ⟨_, rfl, rest.eq_ofUnits.symm⟩

/-- The first directive that drops the rest stands behind units without one. -/
theorem exists_split_of_dropRest_mem {us : List TextUnit} (h : .dropRest ∈ ofUnits us) :
    ∃ vs ws, us = vs ++ Control.dropRest.unit :: ws ∧
      .unfinished ∉ ofUnits vs ∧ .dropRest ∉ ofUnits vs := by
  obtain ⟨p, q, parted, first⟩ := List.eq_append_cons_of_mem h
  obtain ⟨vs, ws, rfl, rfl, reads⟩ := exists_split_of_ofUnits_eq_append parted
  obtain ⟨ws, rfl, rfl⟩ := eq_cons_of_ofUnits_eq_dropRest_cons reads
  refine ⟨vs, ws, rfl, ?_, first⟩
  intro unfinished
  -- An unfinished escape would be the last directive, and this one comes behind it.
  obtain ⟨before, after, split⟩ := List.append_of_mem unfinished
  rw [split, List.append_assoc] at parted
  exact absurd (eq_nil_of_unfinished parted) (List.append_ne_nil_of_right_ne_nil _ (by simp))

end Pattern

namespace Text

/-- What stands in front of the first `!` that acts in a pattern: nothing in it drops the rest, and
no escape at its end takes the `!`. -/
structure BeforeDropRest (pattern before : Text) : Prop where
  stands : ∃ after, pattern = before ++ Control.dropRest.codePoint :: after
  finished : before.summary.unfinished = false
  first : before.summary.dropsRest = false

theorem not_meets_control (s t : Text) (k : Control) : ¬ s.Meets (k.codePoint :: t) :=
  not_meets_cons (fun low => k.not_isSurrogate_codePoint (Or.inr low)) s t

/-- A control is a unit of its own wherever it stands. -/
theorem units_append_control (s t : Text) (k : Control) :
    (s ++ k.codePoint :: t).units = s.units ++ k.unit :: t.units := by
  have alone : units (k.codePoint :: t) = k.unit :: t.units := by
    apply units_cons
    intro d _ halves
    exact k.not_isSurrogate_codePoint (Or.inl halves.1)
  rw [units_append (not_meets_control s t k), alone]

/-- The three parts of the pattern are read one after the other. -/
theorem BeforeDropRest.ofText {pattern before : Text} (h : pattern.BeforeDropRest before) :
    ∃ after : Text,
      Pattern.ofText pattern = Pattern.ofText before ++ .dropRest :: Pattern.ofText after := by
  obtain ⟨⟨after, rfl⟩, finished, -⟩ := h
  have noEscape : .unfinished ∉ Pattern.ofText before :=
    summary_unfinished_eq_false.1 finished
  have notEscape : Control.dropRest.unit ≠ Control.escape.unit :=
    mt Control.unit_inj.1 (by decide)
  refine ⟨after, ?_⟩
  rw [Pattern.ofText, units_append_control, Pattern.ofUnits_append noEscape,
    Pattern.ofUnits_cons notEscape, Directive.ofUnit_dropRest]
  rfl

theorem BeforeDropRest.not_mem {pattern before : Text} (h : pattern.BeforeDropRest before) :
    .dropRest ∉ Pattern.ofText before :=
  summary_dropsRest_eq_false.1 h.first

theorem exists_beforeDropRest {pattern : Text} (h : .dropRest ∈ Pattern.ofText pattern) :
    ∃ before, pattern.BeforeDropRest before := by
  obtain ⟨vs, ws, split, finished, first⟩ := Pattern.exists_split_of_dropRest_mem h
  have read : (ofUnits vs).units = vs := by
    apply units_ofUnits_part
    rw [split]
    exact (List.prefix_append vs _).isInfix
  have reads : Pattern.ofText (ofUnits vs) = Pattern.ofUnits vs := by
    rw [Pattern.ofText, read]
  have stands : pattern = ofUnits vs ++ Control.dropRest.codePoint :: ofUnits ws := by
    rw [← ofUnits_units pattern, split, ofUnits_append, ofUnits_cons]
    rfl
  rw [← reads] at finished first
  exact ⟨ofUnits vs, ⟨ofUnits ws, stands⟩, summary_unfinished_eq_false.2 finished,
    summary_dropsRest_eq_false.2 first⟩

/-- Of two such places, the second would have the first one in front of it. -/
theorem BeforeDropRest.not_append {pattern before more : Text} {c : CodePoint}
    (h : pattern.BeforeDropRest before) : ¬ pattern.BeforeDropRest (before ++ c :: more) := by
  intro h'
  obtain ⟨⟨after, split⟩, finished, first⟩ := h
  obtain ⟨after', split'⟩ := h'.stands
  rw [split', List.append_assoc] at split
  obtain ⟨rfl, -⟩ := List.cons.inj (List.append_cancel_left split)
  have inside : (before ++ Control.dropRest.codePoint :: more).BeforeDropRest before :=
    ⟨⟨more, rfl⟩, finished, first⟩
  obtain ⟨rest, reads⟩ := inside.ofText
  apply h'.not_mem
  rw [reads]
  exact List.mem_append_right _ List.mem_cons_self

/-- The rest is dropped by a pattern exactly when some `!` of it is the first to act. -/
theorem summary_dropsRest_iff_existsUnique {pattern : Text} :
    pattern.summary.dropsRest = true ↔ ∃! before, pattern.BeforeDropRest before := by
  constructor
  · intro drops
    obtain ⟨before, h⟩ := exists_beforeDropRest (summary_dropsRest.1 drops)
    refine ⟨before, h, ?_⟩
    intro other h'
    obtain ⟨after, split⟩ := h.stands
    obtain ⟨after', split'⟩ := h'.stands
    rcases List.append_eq_append_iff.1 (split.symm.trans split') with ⟨more, hm, -⟩ | ⟨more, hm, -⟩
    · cases more with
      | nil => rw [hm, List.append_nil]
      | cons c more => exact absurd (hm ▸ h') h.not_append
    · cases more with
      | nil => rw [hm, List.append_nil]
      | cons c more => exact absurd (hm ▸ h) h'.not_append
  · rintro ⟨before, h, -⟩
    obtain ⟨after, reads⟩ := h.ofText
    apply summary_dropsRest.2
    rw [reads]
    exact List.mem_append_right _ List.mem_cons_self

end Text

end Stencil
