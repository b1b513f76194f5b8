import Stencil.Pattern.Literal
import Stencil.Proofs.Text.Canonical

/-!
# Supplementary code points as pairs

A code point above the basic plane can also be held as a surrogate pair, which is another text with
the same meaning. `Text.expanded` replaces all of them, and leaves the surrogates that stand in the
text where they are. The new halves are captured by no neighbour, and no pair that was there is
broken: the units of the expanded text are the expanded units, one by one (`units_expanded`).
-/

namespace Stencil

namespace CodePoint

/-- Code points above the basic plane. -/
def IsSupplementary (c : CodePoint) : Prop := 0xFFFF < c.toNat

instance (c : CodePoint) : Decidable c.IsSupplementary :=
  inferInstanceAs (Decidable (_ < _))

/-- Surrogate with the upper ten of the twenty bits above the basic plane. -/
def upperHalf (c : CodePoint) : CodePoint :=
  ⟨highFirst + (c.toNat - 0x10000) / 0x400, by
    have h := c.isLt
    rw [highFirst]
    omega⟩

/-- Surrogate with the lower ten bits. -/
def lowerHalf (c : CodePoint) : CodePoint :=
  ⟨lowFirst + (c.toNat - 0x10000) % 0x400, by
    rw [lowFirst]
    omega⟩

theorem halves_surrogates (c : CodePoint) : c.upperHalf.IsHigh ∧ c.lowerHalf.IsLow := by
  have h := c.isLt
  rw [isHigh_iff, isLow_iff]
  simp only [upperHalf, lowerHalf, highFirst, lowFirst]
  omega

/-- The two halves hold the number of the code point. -/
theorem toNat_eq_halves {c : CodePoint} (h : c.IsSupplementary) :
    c.toNat =
      0x10000 + (c.upperHalf.toNat - highFirst) * 0x400 + (c.lowerHalf.toNat - lowFirst) := by
  rw [IsSupplementary] at h
  simp only [upperHalf, lowerHalf, highFirst, lowFirst]
  omega

theorem not_isSupplementary_of_isSurrogate {c : CodePoint} (h : c.IsSurrogate) :
    ¬ c.IsSupplementary := by
  rw [isSurrogate_iff] at h
  rw [IsSupplementary]
  omega

example :
    let c : CodePoint := ⟨0x1F648, by decide⟩
    c.upperHalf.toNat = 0xD83D ∧ c.lowerHalf.toNat = 0xDE48 := by
  decide

/-- Code points in place of one: the two halves of a supplementary one, and any other itself. -/
def expanded (c : CodePoint) : Text :=
  if c.IsSupplementary then [c.upperHalf, c.lowerHalf] else [c]

end CodePoint

/-- Text with every supplementary code point replaced by its surrogate pair. -/
def Text.expanded (t : Text) : Text := t.flatMap CodePoint.expanded

namespace TextUnit

/-- Unit in place of one: a supplementary code point becomes a pair. -/
def expanded : TextUnit → TextUnit
  | single c => if c.IsSupplementary then pair _ _ c.halves_surrogates else single c
  | pair high low s => pair high low s

theorem expanded_of_supplementary {c : CodePoint} (h : c.IsSupplementary) :
    (single c).expanded = pair _ _ c.halves_surrogates := if_pos h

theorem expanded_of_not_supplementary {c : CodePoint} (h : ¬ c.IsSupplementary) :
    (single c).expanded = single c := if_neg h

/-- Expanding a unit expands its code points. -/
theorem toText_expanded (u : TextUnit) : u.expanded.toText = u.toText.expanded := by
  cases u with
  | single c =>
      rw [toText_single, Text.expanded, List.flatMap_singleton, CodePoint.expanded]
      by_cases h : c.IsSupplementary
      · rw [expanded_of_supplementary h, if_pos h]
        rfl
      · rw [expanded_of_not_supplementary h, if_neg h]
        rfl
  | pair high low s =>
      -- Both are surrogates, so both are left alone.
      have hh := CodePoint.not_isSupplementary_of_isSurrogate (Or.inl s.1)
      have hl := CodePoint.not_isSupplementary_of_isSurrogate (Or.inr s.2)
      simp [expanded, Text.expanded, CodePoint.expanded, hh, hl]

/-- A unit that is single after the expansion was there before. -/
theorem eq_single_of_expanded {u : TextUnit} {c : CodePoint} (h : u.expanded = single c) :
    u = single c := by
  cases u with
  | single d =>
      by_cases hd : d.IsSupplementary
      · -- It would be a pair.
        rw [expanded_of_supplementary hd] at h
        exact nomatch h
      · rwa [expanded_of_not_supplementary hd] at h
  | pair high low s => exact nomatch h

/-- Units that meet as halves after the expansion have met before. -/
theorem Halves.of_expanded {u v : TextUnit} (h : Halves u.expanded v.expanded) : Halves u v := by
  obtain ⟨c, d, s, hu, hv⟩ := h.eq_single
  rw [eq_single_of_expanded hu, eq_single_of_expanded hv]
  exact s

theorem Canonical.map_expanded {us : List TextUnit} (h : Canonical us) :
    Canonical (us.map expanded) := by
  rw [Canonical, List.isChain_map]
  refine List.IsChain.imp ?_ h
  intro u v apart halves
  exact apart halves.of_expanded

/-! ## Units with a meaning in a pattern -/

/-- The characters of the basic plane that a pattern uses stay as they are. -/
theorem expanded_unit (k : Control) : k.unit.expanded = k.unit := by
  cases k <;> decide

theorem expanded_marker : marker.expanded = marker := by decide

/-- The expansion makes no control and takes none away. -/
theorem ofUnit?_expanded (u : TextUnit) : Control.ofUnit? u.expanded = Control.ofUnit? u := by
  apply Option.ext
  intro k
  rw [Control.ofUnit?_eq_some_iff, Control.ofUnit?_eq_some_iff]
  constructor
  · intro h
    exact eq_single_of_expanded h
  · rintro rfl
    exact expanded_unit k

theorem literal_expanded (u : TextUnit) : u.expanded.literal = u.literal.map expanded := by
  rw [literal, literal, ofUnit?_expanded]
  cases Control.ofUnit? u with
  | none => rfl
  | some k => rw [List.map_cons, expanded_unit, List.map_singleton]

end TextUnit

namespace Text

theorem expanded_append (s t : Text) : (s ++ t).expanded = s.expanded ++ t.expanded :=
  List.flatMap_append

theorem ofUnits_map_expanded (us : List TextUnit) :
    ofUnits (us.map TextUnit.expanded) = (ofUnits us).expanded := by
  induction us with
  | nil => rfl
  | cons u us ih =>
      rw [List.map_cons, ofUnits_cons, ofUnits_cons, TextUnit.toText_expanded, ih,
        expanded_append]

/-- Each unit is expanded by itself. -/
theorem units_expanded (t : Text) : t.expanded.units = t.units.map TextUnit.expanded := by
  rw [units_eq_iff]
  refine ⟨(canonical_units t).map_expanded, ?_⟩
  rw [ofUnits_map_expanded, ofUnits_units]

theorem expanded_eq_nil_iff {t : Text} : t.expanded = [] ↔ t = [] := by
  rw [← units_eq_nil_iff, units_expanded, List.map_eq_nil_iff, units_eq_nil_iff]

theorem escaped_expanded (t : Text) : t.expanded.escaped = t.escaped.expanded := by
  rw [escaped, escaped, units_expanded, ← ofUnits_map_expanded, List.flatMap_map,
    List.map_flatMap]
  simp only [TextUnit.literal_expanded]

end Text

end Stencil
