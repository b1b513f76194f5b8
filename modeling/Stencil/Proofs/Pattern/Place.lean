import Mathlib.Algebra.Ring.Parity
import Mathlib.Data.List.DropRight
import Stencil.Proofs.Pattern.Reading

/-!
# Places of a text

A place is a code point together with the text in front of it. It is active when an even number of
escapes stands directly in front, and a control acts at its active places only. What a place gives
to a pattern depends on nothing behind it (`Place.directive?`), and it gives the directive of a
control exactly when that control acts (`Place.directive?_eq_some_iff`).
-/

namespace Stencil

/-- Place in a text: a code point and what stands in front of it. -/
structure Place where
  before : Text
  here : CodePoint
  deriving DecidableEq

namespace Text

/-- Places of a text, from the left. -/
def places (t : Text) : List Place := t.mapIdx fun i c => ⟨t.take i, c⟩

/-- Number of escapes that a text ends with. -/
def escapesAtEnd (t : Text) : Nat := (t.rtakeWhile (· = Control.escape.codePoint)).length

/-- The places of a text stay where they are when it goes on. -/
theorem places_concat (t : Text) (c : CodePoint) : (t ++ [c]).places = t.places ++ [⟨t, c⟩] := by
  have front : (t.mapIdx fun i d => Place.mk ((t ++ [c]).take i) d) = t.places := by
    apply List.mapIdx_eq_mapIdx_iff.2
    intro i hi
    rw [List.take_append_of_le_length (Nat.le_of_lt hi)]
  rw [places, List.mapIdx_concat, front, List.take_left]

/-- A place of a text is a code point with what stands in front of it. -/
theorem mem_places_iff {t : Text} {q : Place} :
    q ∈ t.places ↔ ∃ after, t = q.before ++ q.here :: after := by
  rw [places, List.mem_mapIdx]
  constructor
  · rintro ⟨i, hi, rfl⟩
    refine ⟨t.drop (i + 1), ?_⟩
    rw [List.getElem_cons_drop, List.take_append_drop]
  · rintro ⟨after, split⟩
    have inside : q.before.length < t.length := by
      rw [split, List.length_append, List.length_cons]
      omega
    refine ⟨q.before.length, inside, ?_⟩
    simp only [split, List.take_left, List.getElem_append_right, Nat.le_refl, Nat.sub_self,
      List.getElem_cons_zero]

/-- One more escape turns the parity round. -/
theorem even_escapesAtEnd_concat_escape {t : Text} :
    Even (t ++ [Control.escape.codePoint]).escapesAtEnd ↔ ¬ Even t.escapesAtEnd := by
  rw [escapesAtEnd, List.rtakeWhile_concat, if_pos (decide_eq_true rfl), List.length_append,
    List.length_singleton, Nat.even_add_one, ← escapesAtEnd]

/-- Any other code point starts a new count. -/
theorem even_escapesAtEnd_concat {t : Text} {c : CodePoint} (hc : c ≠ Control.escape.codePoint) :
    Even (t ++ [c]).escapesAtEnd := by
  rw [escapesAtEnd, List.rtakeWhile_concat, if_neg (mt of_decide_eq_true hc)]
  exact Even.zero

end Text

namespace Place

/-- Places with an even number of escapes directly in front. -/
def Active (q : Place) : Prop := Even q.before.escapesAtEnd

instance : DecidablePred Active := fun q => inferInstanceAs (Decidable (Even q.before.escapesAtEnd))

/-- Active places of a control. -/
def Acts (q : Place) (k : Control) : Prop := q.here = k.codePoint ∧ q.Active

instance (q : Place) (k : Control) : Decidable (q.Acts k) :=
  inferInstanceAs (Decidable (_ ∧ _))

/-- Places of controls that do not act. -/
def Inert (q : Place) : Prop := Control.ofCodePoint? q.here ≠ none ∧ ¬ q.Active

instance : DecidablePred Inert := fun _ => inferInstanceAs (Decidable (_ ∧ _))

/-- Directive of a place: an active code point gives its own, apart from the escape, and any other
is written. -/
def directive? (q : Place) : Option Directive :=
  if q.Active then
    if q.here = Control.escape.codePoint then none else some (.ofUnit (.single q.here))
  else some (.write (.single q.here))

variable {q : Place}

theorem directive?_of_escape (active : q.Active) (h : q.here = Control.escape.codePoint) :
    q.directive? = none := by
  rw [directive?, if_pos active, if_pos h]

theorem directive?_of_active (active : q.Active) (h : q.here ≠ Control.escape.codePoint) :
    q.directive? = some (.ofUnit (.single q.here)) := by
  rw [directive?, if_pos active, if_neg h]

theorem directive?_of_not_active (inactive : ¬ q.Active) :
    q.directive? = some (.write (.single q.here)) := by
  rw [directive?, if_neg inactive]

/-- A place never leaves an escape unfinished, since it does not look at what follows. -/
theorem directive?_ne_unfinished (q : Place) : q.directive? ≠ some .unfinished := by
  by_cases active : q.Active
  · by_cases escape : q.here = Control.escape.codePoint
    · rw [directive?_of_escape active escape]
      intro h
      exact nomatch h
    · rw [directive?_of_active active escape]
      intro h
      have unit := Directive.ofUnit_eq_unfinished_iff.1 (Option.some.inj h)
      exact escape (TextUnit.single.inj unit)
  · rw [directive?_of_not_active active]
    intro h
    exact nomatch h

/-- A place gives the directive of a control exactly when the control acts there. -/
theorem directive?_eq_some_iff {k : Control} (hk : k ≠ .escape) :
    q.directive? = some (.ofUnit k.unit) ↔ q.Acts k := by
  by_cases active : q.Active
  · by_cases escape : q.here = Control.escape.codePoint
    · rw [directive?_of_escape active escape, Acts, escape, Control.codePoint_inj]
      constructor
      · intro h
        exact nomatch h
      · rintro ⟨rfl, -⟩
        exact absurd rfl hk
    · rw [directive?_of_active active escape, Option.some.injEq, Directive.ofUnit_inj, Control.unit,
        TextUnit.single.injEq]
      exact (and_iff_left active).symm
  · rw [directive?_of_not_active active]
    constructor
    · intro h
      exact absurd (Option.some.inj h).symm (Directive.ofUnit_unit_ne_write k _)
    · intro acts
      exact absurd acts.2 active

theorem directive?_eq_copy_iff : q.directive? = some .copy ↔ q.Acts .copy := by
  rw [← directive?_eq_some_iff (by decide), Directive.ofUnit_copy]

theorem directive?_eq_drop_iff : q.directive? = some .drop ↔ q.Acts .drop := by
  rw [← directive?_eq_some_iff (by decide), Directive.ofUnit_drop]

/-- Places where a copy or a drop acts. -/
def Asks (q : Place) : Prop := q.Acts .copy ∨ q.Acts .drop

instance : DecidablePred Asks := fun _ => inferInstanceAs (Decidable (_ ∨ _))

/-- A place that asks for a unit gives the directive of its code point, which takes one. -/
theorem filter_takesUnit_directive? :
    q.directive?.filter Directive.takesUnit =
      if q.Asks then some (.ofUnit (.single q.here)) else none := by
  by_cases asks : q.Asks
  · rw [if_pos asks]
    rcases asks with acts | acts
    · rw [directive?_eq_copy_iff.2 acts, acts.1]
      exact congrArg some Directive.ofUnit_copy.symm
    · rw [directive?_eq_drop_iff.2 acts, acts.1]
      exact congrArg some Directive.ofUnit_drop.symm
  · rw [if_neg asks, Option.filter_eq_none_iff]
    rintro d given takes
    cases d with
    | copy => exact asks (Or.inl (directive?_eq_copy_iff.1 given))
    | drop => exact asks (Or.inr (directive?_eq_drop_iff.1 given))
    | write u => exact nomatch takes
    | unfinished => exact nomatch takes
    | dropRest => exact nomatch takes

end Place

end Stencil
