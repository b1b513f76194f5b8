import Stencil.Proofs.Pattern.Reading
import Stencil.Proofs.Text.Locality

/-!
# Summary of two texts in a row

What the second of two texts adds to the summary depends on how the first one ends. An escape at
its end takes the first unit of the second text, whatever that unit is
(`ofText_append_of_unfinished`). Otherwise the two are read one after the other, and where they meet
the two surrogates, each of them written, become one unit that is written
(`exists_ofText_of_meets`). So all counts add up, apart from one literal (`summary_concatenation`).
-/

namespace Stencil

namespace Pattern

/-- A unit that is no control is written wherever it stands, alone or behind an escape. What is read
in front of it does not depend on it. -/
theorem exists_ofUnits_append_write (us : List TextUnit) :
    ∃ p : Pattern, ∀ u : TextUnit, (∀ k : Control, u ≠ k.unit) → ∀ vs : List TextUnit,
      ofUnits (us ++ u :: vs) = p ++ .write u :: ofUnits vs := by
  by_cases waits : .unfinished ∈ ofUnits us
  · refine ⟨(ofUnits us).dropLast, ?_⟩
    intro u _ vs
    exact ofUnits_append_unfinished waits u vs
  · refine ⟨ofUnits us, ?_⟩
    intro u plain vs
    rw [ofUnits_append waits, ofUnits_cons (plain .escape), ofUnit_of_ne_unit plain]

/-- One more writing between two patterns is one more literal. -/
theorem summary_append_write (p : Pattern) (u : TextUnit) (q : Pattern) :
    summary (p ++ .write u :: q) =
      ⟨p.summary.copies + q.summary.copies, p.summary.drops + q.summary.drops,
        p.summary.dropsRest || q.summary.dropsRest, p.summary.literals + 1 + q.summary.literals,
        p.summary.unfinished || q.summary.unfinished⟩ := by
  have one : summary (.write u :: q) = (summary [.write u]).append q.summary :=
    summary_append [.write u] q
  rw [summary_append, one]
  simp [Summary.append, summary, Directive.isWrite, Nat.add_assoc]

end Pattern

namespace Text

open Pattern (ofText)

/-- Texts that do not meet are read one after the other, if no escape waits between them. -/
theorem ofText_append {s t : Text} (finished : .unfinished ∉ ofText s) (apart : ¬ s.Meets t) :
    ofText (s ++ t) = ofText s ++ ofText t := by
  rw [ofText, units_append apart, Pattern.ofUnits_append finished]
  rfl

/-- Where texts meet, a surrogate is written at the end of the first and one at the start of the
second, and the pair of them in their place when both are read together. -/
theorem exists_ofText_of_meets {s t : Text} (h : s.Meets t) :
    ∃ (p q : Pattern) (u v w : TextUnit),
      ofText s = p ++ [.write u] ∧ ofText t = .write v :: q ∧
        ofText (s ++ t) = p ++ .write w :: q := by
  obtain ⟨front, back, c, d, halves, rfl, rfl⟩ := h.exists_halves
  obtain ⟨p, reads⟩ := Pattern.exists_ofUnits_append_write front.units
  have high : ∀ k : Control, TextUnit.single c ≠ k.unit :=
    Control.ne_unit_of_first_isSurrogate (Or.inl halves.1)
  have pair : ∀ k : Control, TextUnit.pair c d halves ≠ k.unit :=
    Control.ne_unit_of_first_isSurrogate (Or.inl halves.1)
  refine ⟨p, ofText back, .single c, .single d, .pair c d halves, ?_, ?_, ?_⟩
  · rw [ofText, units_concat_high halves, reads _ high, Pattern.ofUnits_nil]
  · rw [ofText, units_cons_low halves, Pattern.ofUnits_surrogate (Or.inr halves.2)]
    rfl
  · rw [ofText, units_append_halves halves, reads _ pair]
    rfl

/-- Nothing meets a text that ends in an unfinished escape. -/
theorem not_meets_of_unfinished {s : Text} (h : .unfinished ∈ ofText s) (t : Text) :
    ¬ s.Meets t := by
  intro meets
  obtain ⟨p, -, u, -, -, reads, -⟩ := exists_ofText_of_meets meets
  have last : ofText s = (ofText s).dropLast ++ [.unfinished] :=
    Pattern.eq_dropLast_append_unfinished h
  rw [reads] at last
  -- The last directive would be a writing and the unfinished escape.
  exact nomatch (List.append_inj' last rfl).2

/-- An escape at the end of a text takes the first unit of the next one. -/
theorem ofText_append_of_unfinished {s t : Text} (h : .unfinished ∈ ofText s) {u : TextUnit}
    {us : List TextUnit} (split : t.units = u :: us) :
    ofText (s ++ t) = (ofText s).dropLast ++ .write u :: ofText (ofUnits us) := by
  have rest : (ofUnits us).units = us := by
    apply units_ofUnits_part
    rw [split]
    exact (List.suffix_cons u us).isInfix
  rw [ofText, units_append (not_meets_of_unfinished h t), split,
    Pattern.ofUnits_append_unfinished h, ofText, ofText, rest]

theorem summary_append_of_apart {s t : Text} (finished : .unfinished ∉ ofText s)
    (apart : ¬ s.Meets t) : (s ++ t).summary = s.summary.append t.summary := by
  rw [summary, ofText_append finished apart, Pattern.summary_append]
  rfl

/-- Two literals become one where texts meet. -/
theorem summary_append_of_meets {s t : Text} (h : s.Meets t) :
    let whole := (s ++ t).summary
    s.summary.append t.summary =
      ⟨whole.copies, whole.drops, whole.dropsRest, whole.literals + 1, whole.unfinished⟩ := by
  intro whole
  obtain ⟨p, q, u, v, w, first, second, both⟩ := exists_ofText_of_meets h
  have front : s.summary = _ := first ▸ Pattern.summary_append_write p u []
  have back : t.summary = _ := second ▸ Pattern.summary_append_write [] v q
  have joined : whole = _ := both ▸ Pattern.summary_append_write p w q
  rw [front, back, joined]
  simp [Summary.append, Summary.empty]
  omega

/-- The sum counts one literal more than the whole where texts meet. -/
theorem summary_append_of_finished {s t : Text} (h : .unfinished ∉ ofText s) :
    let whole := (s ++ t).summary
    s.summary.append t.summary =
      ⟨whole.copies, whole.drops, whole.dropsRest, whole.literals + if s.Meets t then 1 else 0,
        whole.unfinished⟩ := by
  intro whole
  by_cases meets : s.Meets t
  · rw [if_pos meets]
    exact summary_append_of_meets meets
  · rw [if_neg meets]
    exact (summary_append_of_apart h meets).symm

/-- An escape that waits at the end is no literal, and no other one is unfinished. -/
theorem summary_of_unfinished {t : Text} (h : .unfinished ∈ ofText t) :
    let front := Pattern.summary (ofText t).dropLast
    front.unfinished = false ∧
      t.summary = ⟨front.copies, front.drops, front.dropsRest, front.literals, true⟩ := by
  intro front
  have noOther : front.unfinished = false :=
    Bool.eq_false_iff.2 (mt List.contains_iff_mem.1 (Pattern.unfinished_not_mem_dropLast t.units))
  have parts : t.summary = front.append ⟨0, 0, false, 0, true⟩ := by
    rw [summary, ofText, Pattern.eq_dropLast_append_unfinished h, Pattern.summary_append]
    rfl
  refine ⟨noOther, ?_⟩
  rw [parts]
  simp [Summary.append]

/-- The first unit behind an unfinished escape is one more literal. -/
theorem summary_append_of_unfinished {s t : Text} (h : .unfinished ∈ ofText s) {u : TextUnit}
    {us : List TextUnit} (split : t.units = u :: us) :
    let rest := (ofUnits us).summary
    (s ++ t).summary =
      ⟨s.summary.copies + rest.copies, s.summary.drops + rest.drops,
        s.summary.dropsRest || rest.dropsRest, s.summary.literals + 1 + rest.literals,
        rest.unfinished⟩ := by
  intro rest
  obtain ⟨noOther, front⟩ := summary_of_unfinished h
  have whole : (s ++ t).summary = _ :=
    ofText_append_of_unfinished h split ▸ Pattern.summary_append_write _ u _
  rw [whole, noOther, Bool.false_or, front]
  rfl

/-- The summary of two texts in a row is the sum of theirs, with one literal less where the texts
meet. When the first ends in an unfinished escape, the first unit of the second is one more literal,
and the sum is that with the text behind this unit. -/
theorem summary_concatenation (first second : Text) :
    let s := first.summary
    let whole := (first ++ second).summary
    (s.unfinished = false →
      let t := second.summary
      whole.copies = s.copies + t.copies ∧ whole.drops = s.drops + t.drops ∧
        whole.dropsRest = (s.dropsRest || t.dropsRest) ∧ whole.unfinished = t.unfinished ∧
        whole.literals + (if first.Meets second then 1 else 0) = s.literals + t.literals) ∧
    (s.unfinished = true → ∀ u us, second.units = u :: us →
      let t := (ofUnits us).summary
      second = u.toText ++ ofUnits us ∧
        whole.copies = s.copies + t.copies ∧ whole.drops = s.drops + t.drops ∧
        whole.dropsRest = (s.dropsRest || t.dropsRest) ∧ whole.unfinished = t.unfinished ∧
        whole.literals = s.literals + 1 + t.literals) := by
  intro s whole
  constructor
  · intro finished t
    have sum : s.append t = ⟨whole.copies, whole.drops, whole.dropsRest,
        whole.literals + if first.Meets second then 1 else 0, whole.unfinished⟩ :=
      summary_append_of_finished (summary_unfinished_eq_false.1 finished)
    have last : (s.append t).unfinished = t.unfinished := by
      rw [Summary.append, finished, Bool.false_or]
    rw [sum] at last
    refine ⟨?_, ?_, ?_, last, ?_⟩
    · exact (congrArg Summary.copies sum).symm
    · exact (congrArg Summary.drops sum).symm
    · exact (congrArg Summary.dropsRest sum).symm
    · exact (congrArg Summary.literals sum).symm
  · intro unfinished u us split t
    have sum : whole = ⟨s.copies + t.copies, s.drops + t.drops, s.dropsRest || t.dropsRest,
        s.literals + 1 + t.literals, t.unfinished⟩ :=
      summary_append_of_unfinished (summary_unfinished.1 unfinished) split
    have joined : second = u.toText ++ ofUnits us := by
      rw [← ofUnits_cons, ← split, ofUnits_units]
    rw [sum]
    exact ⟨joined, rfl, rfl, rfl, rfl, rfl⟩

/-- An escaped high surrogate that meets a low one is still one literal, and an escape at the end
makes a literal of the `!` behind it. -/
theorem summary_concatenation_escaped :
    let high : CodePoint := ⟨0xD83D, by decide⟩
    let low : CodePoint := ⟨0xDE48, by decide⟩
    let escapedHigh : Text := [.ofChar '_', .ofChar '\\', high]
    let lowDrop : Text := [low, .ofChar '#', .ofChar '\\']
    let dropRestCopy : Text := [.ofChar '!', .ofChar '_']
    (escapedHigh.summary.unfinished = false ∧ escapedHigh.Meets lowDrop ∧
        (escapedHigh ++ lowDrop).summary.literals + 1 = 1 + 1) ∧
      lowDrop.summary.unfinished = true ∧
        dropRestCopy.units = [Control.dropRest.unit, Control.copy.unit] ∧
        (lowDrop ++ dropRestCopy).summary.dropsRest = false ∧
        (lowDrop ++ dropRestCopy).summary.literals = 1 + 1 + 0 := by
  intro high low escapedHigh lowDrop dropRestCopy
  have finished : escapedHigh.summary.unfinished = false := by decide +kernel
  have unfinished : lowDrop.summary.unfinished = true := by decide +kernel
  have meets : escapedHigh.Meets lowDrop := by decide +kernel
  have split : dropRestCopy.units = [Control.dropRest.unit, Control.copy.unit] := by decide +kernel
  obtain ⟨-, -, -, -, literals⟩ := (summary_concatenation escapedHigh lowDrop).1 finished
  obtain ⟨-, -, -, dropsRest, -, literals'⟩ :=
    (summary_concatenation lowDrop dropRestCopy).2 unfinished _ _ split
  refine ⟨⟨finished, meets, ?_⟩, unfinished, split, ?_, ?_⟩
  · rw [if_pos meets] at literals
    rw [literals]
    decide +kernel
  · rw [dropsRest]
    decide +kernel
  · rw [literals']
    decide +kernel

end Text

end Stencil
