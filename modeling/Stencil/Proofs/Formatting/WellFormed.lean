import Stencil.Proofs.Formatting.Account
import Stencil.Proofs.Formatting.Literal
import Stencil.Proofs.Text.Merging

/-!
# Well-formed texts

A text is well formed when none of its units is a lone surrogate. Halves meet nowhere in such a
text, so the units of a result are the entries of its run, and no entry is a lone surrogate when
message and pattern have none (`units_formatBy_of_wellFormed`). Without that assumption, the result
has fewer units than the run has entries by the number of places where halves meet, and no pair is
ever split (`formatBy_wellFormed`).
-/

namespace Stencil

namespace TextUnit

/-- Surrogates without their partner. -/
def IsLone : TextUnit → Prop
  | single c => c.IsSurrogate
  | pair _ _ _ => False

instance : DecidablePred IsLone
  | single c => inferInstanceAs (Decidable c.IsSurrogate)
  | pair _ _ _ => isFalse id

theorem Halves.isLone {u v : TextUnit} (h : u.Halves v) : u.IsLone := by
  obtain ⟨c, d, ⟨hc, -⟩, rfl, -⟩ := h.eq_single
  exact Or.inl hc

/-- Where no unit is alone, no halves meet. -/
theorem canonical_of_not_isLone {us : List TextUnit} (h : ∀ u ∈ us, ¬ u.IsLone) :
    Canonical us := by
  induction us with
  | nil => exact List.IsChain.nil
  | cons u us ih =>
      refine List.IsChain.cons (ih ?_) ?_
      · intro v hv
        exact h v (List.mem_cons_of_mem u hv)
      · intro v _ halves
        exact h u List.mem_cons_self halves.isLone

theorem not_isLone_unit (k : Control) : ¬ k.unit.IsLone :=
  k.not_isSurrogate_codePoint

theorem not_isLone_marker : ¬ marker.IsLone :=
  CodePoint.not_isSurrogate_ofChar '?'

/-- What stands for a unit in a pattern is the unit itself or an escape. -/
theorem mem_literal {u v : TextUnit} (h : v ∈ u.literal) : v = u ∨ v = Control.escape.unit := by
  cases hk : Control.ofUnit? u with
  | none =>
      rw [literal_of_not_control hk] at h
      exact Or.inl (List.mem_singleton.1 h)
  | some k =>
      obtain rfl := Control.ofUnit?_eq_some_iff.1 hk
      rw [literal_unit] at h
      rcases List.mem_cons.1 h with rfl | h
      · exact Or.inr rfl
      · exact Or.inl (List.mem_singleton.1 h)

end TextUnit

namespace Text

/-- Texts without a lone surrogate. -/
def WellFormed (t : Text) : Prop := ∀ u ∈ t.units, ¬ u.IsLone

instance (t : Text) : Decidable t.WellFormed :=
  inferInstanceAs (Decidable (∀ u ∈ t.units, ¬ u.IsLone))

theorem wellFormed_nil : WellFormed [] := by
  intro u hu
  rw [units_nil] at hu
  exact nomatch hu

theorem WellFormed.escaped {t : Text} (h : t.WellFormed) : t.escaped.WellFormed := by
  intro v hv
  rw [units_escaped] at hv
  obtain ⟨u, hu, hv⟩ := List.mem_flatMap.1 hv
  rcases TextUnit.mem_literal hv with rfl | rfl
  · exact h v hu
  · exact TextUnit.not_isLone_unit .escape

/-! ## Results -/

/-- Every entry is a unit of the message or of the pattern, or a marker. -/
theorem not_isLone_of_mem_entries {message pattern : Text} (hm : message.WellFormed)
    (hp : pattern.WellFormed) : ∀ u ∈ (message.runBy pattern).entries, ¬ u.IsLone := by
  intro u hu
  rcases mem_entries_runBy message pattern hu with ofMessage | ofPattern | rfl
  · exact hm u ofMessage
  · exact hp u ofPattern
  · exact TextUnit.not_isLone_marker

/-- The entries of a run are the units of the result. -/
theorem units_formatBy_of_wellFormed {message pattern : Text} (h : message ≠ [])
    (hm : message.WellFormed) (hp : pattern.WellFormed) :
    (message.formatBy pattern).units = (message.runBy pattern).entries := by
  rw [formatBy_eq_output h, Run.output]
  apply units_ofUnits
  exact TextUnit.canonical_of_not_isLone (not_isLone_of_mem_entries hm hp)

theorem WellFormed.formatBy {message pattern : Text} (hm : message.WellFormed)
    (hp : pattern.WellFormed) : (message.formatBy pattern).WellFormed := by
  by_cases h : message = []
  · subst h
    rw [nil_formatBy]
    exact wellFormed_nil
  · rw [WellFormed, units_formatBy_of_wellFormed h hm hp]
    exact not_isLone_of_mem_entries hm hp

/-- Where halves meet in a result, two entries are one unit of it. -/
theorem length_units_formatBy {message : Text} (h : message ≠ []) (pattern : Text) :
    (message.formatBy pattern).units.length +
        TextUnit.meetings (message.runBy pattern).entries =
      (message.runBy pattern).entries.length := by
  rw [formatBy_eq_output h, Run.output, units_ofUnits_eq_merged,
    TextUnit.length_merged_add_meetings]

/-- Texts made of given ones by formatting and escaping, any number of times and in any order. -/
inductive Made (given : Set Text) : Text → Prop
  | given {t : Text} : t ∈ given → Made given t
  | formatBy {message pattern : Text} :
      Made given message → Made given pattern → Made given (message.formatBy pattern)
  | escaped {t : Text} : Made given t → Made given t.escaped

theorem Made.wellFormed {given : Set Text} (h : ∀ t ∈ given, t.WellFormed) {t : Text}
    (made : Made given t) : t.WellFormed := by
  induction made with
  | given ht => exact h _ ht
  | formatBy _ _ ihm ihp => exact ihm.formatBy ihp
  | escaped _ ih => exact ih.escaped

/-- The summary tells the number of units in the result of well-formed texts, and the result is
well formed. In any result there is one unit less for each place where halves meet between two
entries of the run, and the pairs among the entries stay pairs. Escaping keeps a text well formed
as well, and so does all that is made by formatting and escaping. -/
theorem formatBy_wellFormed {message : Text} (h : message ≠ []) (pattern : Text) :
    let s := pattern.summary
    let r := message.runBy pattern
    let result := message.formatBy pattern
    let size := s.literals + s.copies + (if s.unfinished then 1 else 0) +
      if s.dropsRest then 0 else message.units.length - s.consumed
    (message.WellFormed → pattern.WellFormed →
        result.WellFormed ∧ result.units.length = size) ∧
      (r.entries.length = size ∧ result = ofUnits r.entries ∧
        result.units.length + TextUnit.meetings r.entries = size ∧
        (r.entries.filter TextUnit.isPair).Sublist result.units) ∧
      (∀ t : Text, t.WellFormed → t.escaped.WellFormed) ∧
      ∀ given : Set Text, (∀ t ∈ given, t.WellFormed) → ∀ t, Made given t → t.WellFormed := by
  intro s r result size
  have entries : r.entries.length = size := length_entries_runBy message pattern
  have joined : result = ofUnits r.entries := formatBy_eq_output h pattern
  refine ⟨?_, ⟨entries, joined, ?_, ?_⟩, ?_, ?_⟩
  · intro hm hp
    have units : result.units = r.entries := units_formatBy_of_wellFormed h hm hp
    exact ⟨hm.formatBy hp, by rw [units, entries]⟩
  · -- The size counts the entries, with those that meet.
    rw [← entries]
    exact length_units_formatBy h pattern
  · rw [joined, units_ofUnits_eq_merged]
    exact TextUnit.isPair_sublist_merged r.entries
  · intro t ht
    exact ht.escaped
  · intro given hg t made
    exact made.wellFormed hg

/-- A pair that is copied behind a literal, and a lone high surrogate of the pattern that meets the
low one at the start of a message. -/
theorem formatBy_wellFormed_meeting :
    let high : CodePoint := ⟨0xD83D, by decide⟩
    let low : CodePoint := ⟨0xDE48, by decide⟩
    let whole : Text := [high, low, .ofChar 'A', .ofChar 'B']
    let copyDrop : Text := ['x', '_', '#', '\\'].map .ofChar
    let broken : Text := [low, high, low]
    (whole ≠ [] ∧ whole.WellFormed ∧ copyDrop.WellFormed ∧
        (whole.formatBy copyDrop).WellFormed ∧ (whole.formatBy copyDrop).units.length = 4) ∧
      broken ≠ [] ∧ (broken.runBy [high]).entries.length = 3 ∧
        (broken.formatBy [high]).units.length + 1 = 3 := by
  intro high low whole copyDrop broken
  have nonempty : whole ≠ [] := List.cons_ne_nil _ _
  have nonempty' : broken ≠ [] := List.cons_ne_nil _ _
  have wholeWf : whole.WellFormed := by decide +kernel
  have copyDropWf : copyDrop.WellFormed := by decide +kernel
  obtain ⟨kept, -⟩ := formatBy_wellFormed nonempty copyDrop
  obtain ⟨result, size⟩ := kept wholeWf copyDropWf
  obtain ⟨-, ⟨entries, -, units, -⟩, -⟩ := formatBy_wellFormed nonempty' [high]
  refine ⟨⟨nonempty, wholeWf, copyDropWf, result, ?_⟩, nonempty', ?_, ?_⟩
  · rw [size]
    decide +kernel
  · rw [entries]
    decide +kernel
  · have met : TextUnit.meetings (broken.runBy [high]).entries = 1 := by decide +kernel
    rw [met] at units
    rw [units]
    decide +kernel

end Text

end Stencil
