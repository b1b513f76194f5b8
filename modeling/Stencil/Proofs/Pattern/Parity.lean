import Mathlib.Data.List.Induction
import Stencil.Proofs.Pattern.Place

/-!
# Escapes by parity

A pattern is read from the left, where an escape takes what comes behind it. The same reading is
found by looking back from each place (`Pattern.ofCodePoints_eq_byParity`). The induction is on the
text from its end, since one more code point looks back on all the others and changes none of them.

So each directive other than a writing is counted by the places at which its control acts
(`Text.count_ofText`), and what is written are the units that are no controls and the controls that
do not act (`Text.countP_isWrite_ofUnits`).
-/

namespace Stencil

namespace Pattern

/-- Directives of the places of a text. -/
def ofPlaces (t : Text) : Pattern := t.places.filterMap Place.directive?

/-- Directives of the places of a text, and a last one for an escape that waits at the end. -/
def byParity (t : Text) : Pattern :=
  ofPlaces t ++ if Even t.escapesAtEnd then [] else [.unfinished]

theorem ofPlaces_concat (t : Text) (c : CodePoint) :
    ofPlaces (t ++ [c]) = ofPlaces t ++ (Place.directive? ⟨t, c⟩).toList := by
  rw [ofPlaces, Text.places_concat, List.filterMap_append, List.filterMap_cons, List.filterMap_nil]
  cases Place.directive? ⟨t, c⟩ <;> rfl

theorem unfinished_not_mem_ofPlaces (t : Text) : Directive.unfinished ∉ ofPlaces t := by
  intro h
  obtain ⟨q, -, hq⟩ := List.mem_filterMap.1 h
  exact q.directive?_ne_unfinished hq

theorem byParity_of_even {t : Text} (h : Even t.escapesAtEnd) : byParity t = ofPlaces t := by
  rw [byParity, if_pos h, List.append_nil]

theorem byParity_of_not_even {t : Text} (h : ¬ Even t.escapesAtEnd) :
    byParity t = ofPlaces t ++ [.unfinished] := by
  rw [byParity, if_neg h]

theorem unfinished_mem_byParity {t : Text} :
    .unfinished ∈ byParity t ↔ ¬ Even t.escapesAtEnd := by
  by_cases h : Even t.escapesAtEnd
  · rw [byParity_of_even h]
    exact iff_of_false (unfinished_not_mem_ofPlaces t) (not_not.2 h)
  · rw [byParity_of_not_even h]
    exact iff_of_true (List.mem_append_right _ List.mem_cons_self) h

/-- Looking back from each code point gives the directives that are read from the left. -/
theorem ofCodePoints_eq_byParity (t : Text) : ofCodePoints t = byParity t := by
  induction t using List.reverseRecOn with
  | nil => rfl
  | append_singleton t c ih =>
      have waits : .unfinished ∈ ofCodePoints t ↔ ¬ Place.Active ⟨t, c⟩ := by
        rw [ih]
        exact unfinished_mem_byParity
      rw [ofCodePoints] at ih waits
      rw [ofCodePoints, List.map_append, List.map_singleton]
      by_cases active : Place.Active ⟨t, c⟩
      · -- No escape waits, so `c` is read on its own.
        rw [ofUnits_append (mt waits.1 (not_not.2 active)), ih, byParity_of_even active,
          ofUnits_singleton]
        by_cases hc : c = Control.escape.codePoint
        · subst hc
          have odd : ¬ Even (Text.escapesAtEnd (t ++ [Control.escape.codePoint])) :=
            mt Text.even_escapesAtEnd_concat_escape.1 (not_not.2 active)
          have own : Directive.ofUnit (.single Control.escape.codePoint) = .unfinished :=
            Directive.ofUnit_escape
          rw [byParity_of_not_even odd, ofPlaces_concat,
            Place.directive?_of_escape active rfl, own, Option.toList_none, List.append_nil]
        · rw [byParity_of_even (Text.even_escapesAtEnd_concat hc), ofPlaces_concat,
            Place.directive?_of_active active hc, Option.toList_some]
      · -- The escape in front waits, and takes `c`, whatever it is.
        have even : Even (Text.escapesAtEnd (t ++ [c])) := by
          by_cases hc : c = Control.escape.codePoint
          · subst hc
            exact Text.even_escapesAtEnd_concat_escape.2 active
          · exact Text.even_escapesAtEnd_concat hc
        rw [ofUnits_append_unfinished (waits.2 active), ih, byParity_of_not_even active,
          List.dropLast_concat, byParity_of_even even, ofPlaces_concat,
          Place.directive?_of_not_active active, ofUnits_nil, Option.toList_some]

/-- One more unit is written if it is no control, or if an escape waits for it. -/
theorem countP_isWrite_concat (us : List TextUnit) (u : TextUnit) :
    (ofUnits (us ++ [u])).countP Directive.isWrite = (ofUnits us).countP Directive.isWrite +
      if Control.ofUnit? u = none ∨ .unfinished ∈ ofUnits us then 1 else 0 := by
  by_cases waits : .unfinished ∈ ofUnits us
  · have front : (ofUnits us).countP Directive.isWrite =
        (ofUnits us).dropLast.countP Directive.isWrite := by
      -- The escape that waits is no writing.
      rw [eq_dropLast_append_unfinished waits, List.countP_append, List.dropLast_concat]
      rfl
    rw [ofUnits_append_unfinished waits, ofUnits_nil, List.countP_append, front,
      if_pos (Or.inr waits)]
    rfl
  · rw [ofUnits_append waits, ofUnits_singleton, List.countP_append, List.countP_singleton]
    simp only [Directive.isWrite_ofUnit, waits, or_false]

/-- What is no writing is found by looking back, except for an escape that waits. -/
theorem filter_ofText {f : Directive → Bool} (hw : ∀ u, f (.write u) = false)
    (hu : f .unfinished = false) (t : Text) :
    (ofText t).filter f = (ofPlaces t).filter f := by
  rw [← filter_spread hw, spread_ofText, ofCodePoints_eq_byParity, byParity, List.filter_append]
  split
  · exact List.append_nil _
  · rw [List.filter_cons_of_neg (Bool.not_eq_true _ ▸ hu)]
    exact List.append_nil _

end Pattern

namespace Text

/-- A text ends in an unfinished escape when an odd number of escapes stands at its end. -/
theorem unfinished_mem_ofText {t : Text} : .unfinished ∈ Pattern.ofText t ↔ Odd t.escapesAtEnd := by
  rw [← Pattern.unfinished_mem_ofCodePoints, Pattern.ofCodePoints_eq_byParity,
    Pattern.unfinished_mem_byParity, Nat.not_even_iff_odd]

/-- The directive of a control is given once for each place where the control acts. -/
theorem count_ofText {k : Control} (hk : k ≠ .escape) (t : Text) :
    (Pattern.ofText t).count (.ofUnit k.unit) = t.places.countP (Place.Acts · k) := by
  have noWrite : ∀ u, (Directive.write u == .ofUnit k.unit) = false := by
    intro u
    apply beq_eq_false_iff_ne.2
    exact (Directive.ofUnit_unit_ne_write k u).symm
  have notUnfinished : (Directive.unfinished == .ofUnit k.unit) = false := by
    apply beq_eq_false_iff_ne.2
    intro h
    exact hk (Control.unit_inj.1 (Directive.ofUnit_eq_unfinished_iff.1 h.symm))
  rw [List.count, List.countP_eq_length_filter, Pattern.filter_ofText noWrite notUnfinished,
    ← List.countP_eq_length_filter, ← List.count, Pattern.ofPlaces, List.count_filterMap]
  apply List.countP_congr
  intro q _
  rw [beq_iff_eq, decide_eq_true_iff, Place.directive?_eq_some_iff hk]

theorem summary_copies (t : Text) : t.summary.copies = t.places.countP (Place.Acts · .copy) := by
  rw [← count_ofText (by decide), Directive.ofUnit_copy]
  rfl

theorem summary_drops (t : Text) : t.summary.drops = t.places.countP (Place.Acts · .drop) := by
  rw [← count_ofText (by decide), Directive.ofUnit_drop]
  rfl

theorem countP_inert_concat (t : Text) (c : CodePoint) :
    (t ++ [c]).places.countP (Place.Inert ·) =
      t.places.countP (Place.Inert ·) + if Place.Inert ⟨t, c⟩ then 1 else 0 := by
  rw [places_concat, List.countP_append, List.countP_singleton]
  simp only [decide_eq_true_eq]

/-- One more unit has an inert code point if it is a control and an escape waits for it. -/
theorem countP_inert_append (t : Text) (u : TextUnit) :
    (t ++ u.toText).places.countP (Place.Inert ·) = t.places.countP (Place.Inert ·) +
      if Control.ofUnit? u ≠ none ∧ ¬ Even t.escapesAtEnd then 1 else 0 := by
  cases u with
  | single c => exact countP_inert_concat t c
  | pair high low s =>
      -- Neither half is a control.
      have plain : ∀ before c, c.IsSurrogate → ¬ Place.Inert ⟨before, c⟩ := by
        rintro before c hc ⟨control, -⟩
        exact control (Control.ofCodePoint?_of_isSurrogate hc)
      have split : t ++ [high, low] = (t ++ [high]) ++ [low] := List.append_cons t high [low]
      rw [TextUnit.toText_pair, split, countP_inert_concat, countP_inert_concat,
        if_neg (plain _ low (Or.inr s.2)), if_neg (plain _ high (Or.inl s.1))]
      rfl

/-- Written are the units that are no controls, and the controls that do not act. -/
theorem countP_isWrite_ofUnits (us : List TextUnit) :
    (Pattern.ofUnits us).countP Directive.isWrite =
      us.countP (Control.ofUnit? · = none) + (ofUnits us).places.countP (Place.Inert ·) := by
  induction us using List.reverseRecOn with
  | nil => rfl
  | append_singleton us u ih =>
      have waits : .unfinished ∈ Pattern.ofUnits us ↔ ¬ Even (ofUnits us).escapesAtEnd := by
        rw [← Pattern.mem_spread rfl, Pattern.spread_ofUnits, Pattern.ofCodePoints_eq_byParity,
          Pattern.unfinished_mem_byParity]
      have text : ofUnits (us ++ [u]) = ofUnits us ++ u.toText := by
        rw [ofUnits_append, ofUnits_cons, ofUnits_nil, List.append_nil]
      rw [Pattern.countP_isWrite_concat, ih, text, countP_inert_append, List.countP_append,
        List.countP_singleton]
      simp only [waits, decide_eq_true_eq]
      by_cases plain : Control.ofUnit? u = none
      · rw [if_pos (Or.inl plain), if_pos plain, if_neg (fun h => h.1 plain)]
        omega
      · -- A control is written exactly where an escape takes it.
        simp only [plain, false_or, if_false, ne_eq, not_false_eq_true, true_and]
        omega

/-! ## What is asked of a message -/

theorem dropRest_mem_ofText {t : Text} :
    .dropRest ∈ Pattern.ofText t ↔ ∃ q ∈ t.places, q.Acts .dropRest := by
  have count := count_ofText (k := .dropRest) (by decide) t
  rw [Directive.ofUnit_dropRest] at count
  rw [← List.count_pos_iff, count, List.countP_pos_iff]
  simp only [decide_eq_true_eq]

/-- Places that ask for a message unit, in their order. -/
def asking (t : Text) : List Place := t.places.filter (Place.Asks ·)

/-- The directives that take a unit are those of the places that ask for one. -/
theorem filter_takesUnit_ofText (t : Text) :
    (Pattern.ofText t).filter Directive.takesUnit =
      t.asking.map fun q => .ofUnit (.single q.here) := by
  rw [Pattern.filter_ofText (fun _ => rfl) rfl, Pattern.ofPlaces, List.filter_filterMap, asking,
    ← List.filterMap_eq_map, List.filterMap_filter]
  apply List.filterMap_congr
  intro q _
  simp only [Place.filter_takesUnit_directive?, decide_eq_true_eq, Function.comp_apply]

theorem length_asking (t : Text) :
    t.asking.length = (Pattern.ofText t).countP Directive.takesUnit := by
  rw [List.countP_eq_length_filter, filter_takesUnit_ofText, List.length_map]

end Text

end Stencil
