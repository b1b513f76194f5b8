import Stencil.Proofs.Formatting.Literal
import Stencil.Proofs.Pattern.Parity

/-!
# Escaped texts

A text is escaped code point by code point: whether two surrogates are one unit makes no difference,
since neither of them is a control (`escaped_eq_flatMap`). The escaped texts are exactly the
patterns that only write and in which each escape that acts is needed, the code point behind it
being a control (`range_escaped`). Both directions go along the reading of the pattern, one rule for
a control with its escape and one for any other unit.
-/

namespace Stencil

/-! ## Code point by code point -/

namespace CodePoint

/-- Code points of control characters. -/
def IsControl (c : CodePoint) : Prop := Control.ofCodePoint? c ≠ none

instance (c : CodePoint) : Decidable c.IsControl := inferInstanceAs (Decidable (_ ≠ _))

theorem isControl_iff {c : CodePoint} : c.IsControl ↔ ∃ k : Control, c = k.codePoint := by
  simp only [IsControl, Option.ne_none_iff_exists', Control.ofCodePoint?_eq_some_iff]

theorem not_isControl_of_isSurrogate {c : CodePoint} (h : c.IsSurrogate) : ¬ c.IsControl :=
  not_not.2 (Control.ofCodePoint?_of_isSurrogate h)

/-- Code points that stand for this one in a pattern. -/
def literal (c : CodePoint) : Text := if c.IsControl then [Control.escape.codePoint, c] else [c]

theorem literal_of_isControl {c : CodePoint} (h : c.IsControl) :
    c.literal = [Control.escape.codePoint, c] := if_pos h

theorem literal_of_not_isControl {c : CodePoint} (h : ¬ c.IsControl) : c.literal = [c] := if_neg h

end CodePoint

namespace TextUnit

theorem literal_single (c : CodePoint) : (single c).literal = c.literal.map single := by
  by_cases h : c.IsControl
  · obtain ⟨k, rfl⟩ := CodePoint.isControl_iff.1 h
    rw [CodePoint.literal_of_isControl h]
    exact literal_unit k
  · rw [CodePoint.literal_of_not_isControl h]
    exact literal_of_not_control (not_not.1 h)

/-- Escaping a unit escapes its code points. -/
theorem ofUnits_literal (u : TextUnit) :
    Text.ofUnits u.literal = u.toText.flatMap CodePoint.literal := by
  cases u with
  | single c =>
      rw [literal_single, toText_single, List.flatMap_singleton]
      by_cases h : c.IsControl
      · rw [CodePoint.literal_of_isControl h]
        rfl
      · rw [CodePoint.literal_of_not_isControl h]
        rfl
  | pair high low s =>
      have plainHigh := CodePoint.not_isControl_of_isSurrogate (Or.inl s.1)
      have plainLow := CodePoint.not_isControl_of_isSurrogate (Or.inr s.2)
      rw [toText_pair, List.flatMap_cons, List.flatMap_singleton,
        CodePoint.literal_of_not_isControl plainHigh, CodePoint.literal_of_not_isControl plainLow]
      rfl

end TextUnit

namespace Text

theorem ofUnits_flatMap_literal (us : List TextUnit) :
    ofUnits (us.flatMap TextUnit.literal) = (ofUnits us).flatMap CodePoint.literal := by
  induction us with
  | nil => rfl
  | cons u us ih =>
      rw [List.flatMap_cons, ofUnits_append, ih, TextUnit.ofUnits_literal, ofUnits_cons,
        List.flatMap_append]

/-- Escaping does not look at units. -/
theorem escaped_eq_flatMap (t : Text) : t.escaped = t.flatMap CodePoint.literal := by
  rw [escaped, ofUnits_flatMap_literal, ofUnits_units]

theorem escaped_append (s t : Text) : (s ++ t).escaped = s.escaped ++ t.escaped := by
  rw [escaped_eq_flatMap, escaped_eq_flatMap, escaped_eq_flatMap, List.flatMap_append]

/-- One escape is put in for each control character. -/
theorem length_escaped (t : Text) : t.escaped.length = t.length + t.countP (·.IsControl) := by
  rw [escaped_eq_flatMap]
  induction t with
  | nil => rfl
  | cons c t ih =>
      rw [List.flatMap_cons, List.length_append, ih, List.countP_cons, List.length_cons]
      by_cases h : c.IsControl
      · rw [CodePoint.literal_of_isControl h, if_pos (decide_eq_true h)]
        simp only [List.length_cons, List.length_nil]
        omega
      · rw [CodePoint.literal_of_not_isControl h, if_neg (mt of_decide_eq_true h)]
        simp only [List.length_cons, List.length_nil]
        omega

/-- An escaped text has its units as literals, and does nothing else. -/
theorem summary_escaped (t : Text) : t.escaped.summary = ⟨0, 0, false, t.units.length, false⟩ := by
  rw [summary, Pattern.ofText_escaped]
  induction t.units with
  | nil => rfl
  | cons u us ih =>
      have one : Pattern.summary [.write u] = ⟨0, 0, false, 1, false⟩ := rfl
      rw [List.map_cons, ← List.singleton_append, Pattern.summary_append, ih, one]
      simp [Summary.append, Nat.add_comm]

end Text

/-! ## Needed escapes -/

namespace Pattern

/-- Units in which a control stands behind each escape that acts; an escape acts when none in front
of it waits for its unit. -/
def EscapesNeeded (us : List TextUnit) : Prop :=
  ∀ before after, us = before ++ Control.escape.unit :: after → .unfinished ∉ ofUnits before →
    ∃ (k : Control) (rest : List TextUnit), after = k.unit :: rest

theorem escapesNeeded_nil : EscapesNeeded [] := by
  intro before after h
  exact absurd h.symm (List.append_ne_nil_of_right_ne_nil _ (List.cons_ne_nil _ _))

/-- An escape in front acts, and what stands behind its unit is read on its own. -/
theorem escapesNeeded_escape_cons {v : TextUnit} {us : List TextUnit} :
    EscapesNeeded (Control.escape.unit :: v :: us) ↔
      (∃ k : Control, v = k.unit) ∧ EscapesNeeded us := by
  constructor
  · intro h
    constructor
    · obtain ⟨k, rest, behind⟩ := h [] (v :: us) rfl (by simp)
      exact ⟨k, (List.cons.inj behind).1⟩
    · rintro before after rfl finished
      refine h (Control.escape.unit :: v :: before) after rfl ?_
      rw [ofUnits_escape_cons]
      exact List.not_mem_cons_of_ne_of_not_mem (by simp) finished
  · rintro ⟨⟨k, rfl⟩, h⟩ before after split finished
    cases before with
    | nil =>
        obtain ⟨-, rfl⟩ := List.cons.inj split
        exact ⟨k, us, rfl⟩
    | cons w before =>
        obtain ⟨rfl, behind⟩ := List.cons.inj split
        cases before with
        | nil =>
            -- The escape in front would wait for this one.
            simp at finished
        | cons x before =>
            obtain ⟨rfl, rfl⟩ := List.cons.inj behind
            rw [ofUnits_escape_cons] at finished
            exact h before after rfl (List.not_mem_of_not_mem_cons finished)

/-- Any other unit in front has no part in it. -/
theorem escapesNeeded_cons {u : TextUnit} (hu : u ≠ Control.escape.unit) {us : List TextUnit} :
    EscapesNeeded (u :: us) ↔ EscapesNeeded us := by
  have waits : ∀ before, .unfinished ∈ ofUnits (u :: before) ↔ .unfinished ∈ ofUnits before := by
    intro before
    rw [ofUnits_cons hu, List.mem_cons]
    apply or_iff_right
    intro h
    exact hu (Directive.ofUnit_eq_unfinished_iff.1 h.symm)
  constructor
  · rintro h before after rfl finished
    exact h (u :: before) after rfl (mt (waits before).1 finished)
  · intro h before after split finished
    cases before with
    | nil => exact absurd (List.cons.inj split).1 hu
    | cons w before =>
        obtain ⟨rfl, rfl⟩ := List.cons.inj split
        exact h before after rfl (mt (waits before).2 finished)

/-- Escapes that are put in for literal units are needed. -/
theorem escapesNeeded_flatMap_literal (us : List TextUnit) :
    EscapesNeeded (us.flatMap TextUnit.literal) := by
  induction us with
  | nil => exact escapesNeeded_nil
  | cons u us ih =>
      rw [List.flatMap_cons]
      cases hk : Control.ofUnit? u with
      | some k =>
          obtain rfl := Control.ofUnit?_eq_some_iff.1 hk
          rw [TextUnit.literal_unit]
          exact escapesNeeded_escape_cons.2 ⟨⟨k, rfl⟩, ih⟩
      | none =>
          have plain : u ≠ Control.escape.unit := by
            rintro rfl
            rw [Control.ofUnit?_unit] at hk
            exact nomatch hk
          rw [TextUnit.literal_of_not_control hk]
          exact (escapesNeeded_cons plain).2 ih

/-- Units that only write, with no escape more than needed, are the literals of those written. The
induction is on the reading: a control has its escape in front, and any other unit has none. -/
theorem exists_flatMap_literal {us : List TextUnit} (writes : ∀ d ∈ ofUnits us, d.isWrite = true)
    (needed : EscapesNeeded us) : ∃ vs : List TextUnit, us = vs.flatMap TextUnit.literal := by
  have alone : ∀ u : TextUnit, (Directive.ofUnit u).isWrite = true → u.literal = [u] := by
    intro u write
    exact TextUnit.literal_of_not_control (Directive.isWrite_ofUnit.1 write)
  fun_induction ofUnits us with
  | case1 => exact ⟨[], rfl⟩
  | case2 u =>
      refine ⟨[u], ?_⟩
      rw [List.flatMap_singleton, alone u (writes _ List.mem_cons_self)]
  | case3 v rest ih =>
      obtain ⟨⟨k, rfl⟩, neededRest⟩ := escapesNeeded_escape_cons.1 needed
      obtain ⟨vs, rfl⟩ := ih (fun d hd => writes d (List.mem_cons_of_mem _ hd)) neededRest
      refine ⟨k.unit :: vs, ?_⟩
      rw [List.flatMap_cons, TextUnit.literal_unit]
      rfl
  | case4 u v rest hu ih =>
      obtain ⟨vs, hvs⟩ := ih (fun d hd => writes d (List.mem_cons_of_mem _ hd))
        ((escapesNeeded_cons hu).1 needed)
      refine ⟨u :: vs, ?_⟩
      rw [List.flatMap_cons, alone u (writes _ List.mem_cons_self), ← hvs]
      rfl

end Pattern

namespace Text

/-- Each escape that acts in a text has a control character behind it. -/
def EscapesNeeded (t : Text) : Prop :=
  ∀ q ∈ t.places, q.Acts .escape → ∃ c ∈ t[q.before.length + 1]?, c.IsControl

instance (t : Text) : Decidable t.EscapesNeeded :=
  inferInstanceAs (Decidable (∀ q ∈ t.places, _))

/-- An escape acts when none in front of it waits for its unit. -/
theorem escapesNeeded_iff {t : Text} :
    t.EscapesNeeded ↔ Pattern.EscapesNeeded (t.map .single) := by
  have behind : ∀ (before : Text) (c : CodePoint) (after : Text),
      (before ++ c :: after)[before.length + 1]? = after.head? := by
    intro before c after
    rw [List.getElem?_append_right (Nat.le_add_right _ 1), Nat.add_sub_cancel_left,
      List.getElem?_cons_succ, List.head?_eq_getElem?]
  have waits : ∀ before : Text,
      .unfinished ∈ Pattern.ofUnits (before.map .single) ↔ ¬ Even before.escapesAtEnd := by
    intro before
    rw [← Pattern.unfinished_mem_byParity, ← Pattern.ofCodePoints_eq_byParity]
    rfl
  constructor
  · intro h before after split finished
    obtain ⟨front, rest, rfl, rfl, hrest⟩ := List.map_eq_append_iff.1 split
    obtain ⟨c, back, rfl, hc, rfl⟩ := List.map_eq_cons_iff.1 hrest
    obtain rfl : c = Control.escape.codePoint := TextUnit.single.inj hc
    have acts : Place.Acts ⟨front, Control.escape.codePoint⟩ .escape :=
      ⟨rfl, not_not.1 (mt (waits front).2 finished)⟩
    obtain ⟨d, hd, control⟩ := h _ (mem_places_iff.2 ⟨back, rfl⟩) acts
    rw [behind] at hd
    obtain ⟨rest, rfl⟩ := List.head?_eq_some_iff.1 hd
    obtain ⟨k, rfl⟩ := CodePoint.isControl_iff.1 control
    exact ⟨k, rest.map .single, rfl⟩
  · rintro h ⟨before, here⟩ place ⟨rfl, active⟩
    obtain ⟨after, rfl⟩ := mem_places_iff.1 place
    obtain ⟨k, rest, hrest⟩ := h (before.map .single) (after.map .single) (List.map_append ..)
      (mt (waits before).1 (not_not.2 active))
    obtain ⟨c, back, rfl, hc, -⟩ := List.map_eq_cons_iff.1 hrest
    refine ⟨c, behind before _ _, ?_⟩
    exact CodePoint.isControl_iff.2 ⟨k, TextUnit.single.inj hc⟩

/-- Patterns that only write, and in which each escape that acts is needed. -/
structure NonRedundant (p : Text) : Prop where
  copies : p.summary.copies = 0
  drops : p.summary.drops = 0
  dropsRest : p.summary.dropsRest = false
  finished : p.summary.unfinished = false
  needed : p.EscapesNeeded

theorem nonRedundant_escaped (t : Text) : t.escaped.NonRedundant := by
  have codePoints : t.escaped.map .single = (t.map .single).flatMap TextUnit.literal := by
    rw [escaped_eq_flatMap, List.map_flatMap, List.flatMap_map]
    simp only [TextUnit.literal_single]
  refine ⟨?_, ?_, ?_, ?_, ?_⟩
  · rw [summary_escaped]
  · rw [summary_escaped]
  · rw [summary_escaped]
  · rw [summary_escaped]
  · rw [escapesNeeded_iff, codePoints]
    exact Pattern.escapesNeeded_flatMap_literal _

/-- All directives are writings, also when the pattern is read by code points. -/
theorem NonRedundant.isWrite {p : Text} (h : p.NonRedundant) :
    ∀ d ∈ Pattern.ofCodePoints p, d.isWrite = true := by
  intro d hd
  rw [← Pattern.spread_ofText] at hd
  cases d with
  | write u => rfl
  | unfinished =>
      exact absurd ((Pattern.mem_spread rfl).1 hd) (summary_unfinished_eq_false.1 h.finished)
  | copy => exact absurd ((Pattern.mem_spread rfl).1 hd) (List.count_eq_zero.1 h.copies)
  | drop => exact absurd ((Pattern.mem_spread rfl).1 hd) (List.count_eq_zero.1 h.drops)
  | dropRest =>
      exact absurd ((Pattern.mem_spread rfl).1 hd) (summary_dropsRest_eq_false.1 h.dropsRest)

/-- A pattern that only writes, with no escape more than needed, is what its units in literal form
make together. -/
theorem NonRedundant.exists_eq_escaped {p : Text} (h : p.NonRedundant) :
    ∃ t : Text, t.escaped = p := by
  obtain ⟨us, hus⟩ := Pattern.exists_flatMap_literal h.isWrite (escapesNeeded_iff.1 h.needed)
  have joined : ofUnits (p.map .single) = p := by
    rw [ofUnits, List.flatMap_map]
    exact List.flatMap_singleton' p
  refine ⟨ofUnits us, ?_⟩
  rw [escaped_eq_flatMap, ← ofUnits_flatMap_literal, ← hus, joined]

/-- The escaped texts are the patterns without a redundant escape that only write. -/
theorem range_escaped : Set.range escaped = {p | p.NonRedundant} := by
  apply Set.eq_of_subset_of_subset
  · rintro p ⟨t, rfl⟩
    exact nonRedundant_escaped t
  · intro p h
    exact h.exists_eq_escaped

/-- What an escaped text writes in front of a message is the text that was escaped. -/
theorem eq_escaped_iff {p t : Text} :
    p = t.escaped ↔
      p.NonRedundant ∧ ∀ message : Text, message ≠ [] → message.formatBy p = t ++ message := by
  constructor
  · rintro rfl
    refine ⟨nonRedundant_escaped t, ?_⟩
    intro message h
    exact formatBy_escaped h t
  · rintro ⟨h, writes⟩
    obtain ⟨s, rfl⟩ := h.exists_eq_escaped
    -- One message is enough to tell which text it was.
    have nonempty : ofUnits [.marker] ≠ [] := List.cons_ne_nil _ _
    have result := writes _ nonempty
    rw [formatBy_escaped nonempty s] at result
    rw [List.append_cancel_right result]

/-- Escaping goes code point by code point and adds one escape for each control character. The
summary of an escaped text counts the units of the text and nothing else. The escaped texts are
exactly the patterns that only write and have no escape that is not needed, and such a pattern is
the escaped form of what it writes in front of every message. -/
theorem escaped_codePointwise :
    (∀ s t : Text, (s ++ t).escaped = s.escaped ++ t.escaped) ∧
      (∀ t : Text, t.escaped.length = t.length + t.countP (·.IsControl)) ∧
      (∀ t : Text, t.escaped.summary = ⟨0, 0, false, t.units.length, false⟩) ∧
      Set.range escaped = {p | p.NonRedundant} ∧
      ∀ p t : Text, p = t.escaped ↔
        p.NonRedundant ∧ ∀ message : Text, message ≠ [] → message.formatBy p = t ++ message := by
  refine ⟨escaped_append, length_escaped, summary_escaped, range_escaped, ?_⟩
  intro p t
  exact eq_escaped_iff

/-- An escape, a copy and a pair in escaped form. An escape in front of a pair is not needed, so a
pattern with one is no escaped text. -/
theorem escaped_codePointwise_backslashes :
    let high : CodePoint := ⟨0xD83D, by decide⟩
    let low : CodePoint := ⟨0xDE48, by decide⟩
    let escape : CodePoint := .ofChar '\\'
    let message : Text := ['A', 'B'].map .ofChar
    let p : Text := [escape, escape, escape, .ofChar '_', high, low]
    (message ≠ [] ∧ p.NonRedundant ∧
        message.formatBy p = [escape, .ofChar '_', high, low, .ofChar 'A', .ofChar 'B']) ∧
      ([escape, escape, escape, high, low] : Text) ∉ Set.range escaped := by
  intro high low escape message p
  have nonempty : message ≠ [] := List.cons_ne_nil _ _
  obtain ⟨-, -, -, range, written⟩ := escaped_codePointwise
  have escapedForm : p = escaped [escape, .ofChar '_', high, low] := by decide +kernel
  obtain ⟨nonRedundant, writes⟩ := (written p _).1 escapedForm
  refine ⟨⟨nonempty, nonRedundant, writes message nonempty⟩, ?_⟩
  rw [range]
  intro h
  have redundant : ¬ EscapesNeeded [escape, escape, escape, high, low] := by decide +kernel
  exact redundant h.needed

end Text

end Stencil
