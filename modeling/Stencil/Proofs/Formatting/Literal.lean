import Mathlib.Logic.Function.Iterate
import Stencil.Pattern.Literal
import Stencil.Proofs.Formatting.Composition

/-!
# Literal text in front of a pattern

The units of an escaped text are those of the text, each control with an escape before it
(`units_escaped`), so its directives write the text and ask nothing of the message. Whatever
pattern comes behind it is read as if it stood alone: `formatBy_escaped_append`. The text that two
surrogates make where the two meet is the same on both sides, since the result is joined as text.
-/

namespace Stencil

/-! ## Units of an escaped text -/

namespace TextUnit

/-- A control completes no pair, being no surrogate. -/
theorem not_halves_unit (u : TextUnit) (k : Control) : ¬ Halves u k.unit := by
  intro h
  exact k.not_isSurrogate_codePoint (Or.inr h.surrogates.2)

theorem not_halves_of_unit (k : Control) (v : TextUnit) : ¬ Halves k.unit v := by
  intro h
  exact k.not_isSurrogate_codePoint (Or.inl h.surrogates.1)

/-- An escaped unit starts with an escape or with the unit itself. -/
theorem head?_literal_append (u : TextUnit) (us : List TextUnit) :
    (u.literal ++ us).head? = some u ∨ (u.literal ++ us).head? = some Control.escape.unit := by
  rw [literal]
  cases Control.ofUnit? u with
  | none => exact Or.inl rfl
  | some k => exact Or.inr rfl

/-- Escapes keep canonical units canonical: between two units that do not meet as halves they put
nothing or a control. -/
theorem Canonical.flatMap_literal {us : List TextUnit} (h : Canonical us) :
    Canonical (us.flatMap literal) := by
  induction us with
  | nil => exact List.IsChain.nil
  | cons u us ih =>
      obtain ⟨next, rest⟩ := List.isChain_cons.1 h
      have alone : Canonical (u :: us.flatMap literal) := by
        refine List.IsChain.cons (ih rest) ?_
        intro w hw
        -- Behind `u` stands what was there before, or the escape of it.
        cases us with
        | nil => simp at hw
        | cons v vs =>
            rw [List.flatMap_cons] at hw
            rcases head?_literal_append v (vs.flatMap literal) with head | head
            · obtain rfl : v = w := Option.some.inj (head.symm.trans hw)
              exact next v rfl
            · obtain rfl : Control.escape.unit = w := Option.some.inj (head.symm.trans hw)
              exact not_halves_unit u .escape
      rw [List.flatMap_cons, literal]
      cases Control.ofUnit? u with
      | none => exact alone
      | some k => exact List.IsChain.cons alone fun v _ => not_halves_of_unit .escape v

end TextUnit

namespace Text

theorem units_escaped (t : Text) : t.escaped.units = t.units.flatMap TextUnit.literal :=
  units_ofUnits (canonical_units t).flatMap_literal

end Text

namespace Pattern

/-- An escaped text has one directive for each unit of the text, which writes it. -/
theorem ofText_escaped (t : Text) : ofText t.escaped = t.units.map .write := by
  rw [ofText, Text.units_escaped, ofUnits_flatMap_literal]

theorem unfinished_not_mem_escaped (t : Text) : .unfinished ∉ ofText t.escaped := by
  rw [ofText_escaped]
  intro h
  obtain ⟨u, -, hu⟩ := List.mem_map.1 h
  exact nomatch hu

/-! ## Directives that only write -/

theorem written_map_write (us queue : List TextUnit) :
    (run (us.map .write) queue).written = us := by
  induction us with
  | nil => rfl
  | cons u us ih =>
      rw [List.map_cons, written_cons]
      exact congrArg (u :: ·) ih

theorem waiting_map_write (us queue : List TextUnit) :
    waiting (us.map .write) queue = queue := by
  induction us with
  | nil => rfl
  | cons u us ih =>
      rw [List.map_cons, waiting_cons]
      exact ih

/-- An escaped text is written, and the pattern behind it finds the whole queue. -/
theorem output_escaped_append (t pattern : Text) (queue : List TextUnit) :
    ((ofCodePoints (t.escaped ++ pattern)).run queue).output =
      t ++ ((ofCodePoints pattern).run queue).output := by
  have front : Text.ofUnits ((ofCodePoints t.escaped).run queue).written = t := by
    rw [← spread_ofText, ofUnits_written_spread, ofText_escaped, written_map_write,
      Text.ofUnits_units]
  have rest : (ofCodePoints t.escaped).waiting queue = queue := by
    rw [← spread_ofText, waiting_spread, ofText_escaped, waiting_map_write]
  -- Only by code points is the whole read as the escaped text and then the pattern.
  rw [ofCodePoints_append (unfinished_not_mem_escaped t), output_append, front, rest]

end Pattern

namespace Text

/-! ## In front of a pattern -/

/-- An escaped text is written, and the pattern behind it finds the whole message. -/
theorem formatBy_escaped_append {message : Text} (h : message ≠ []) (t pattern : Text) :
    message.formatBy (t.escaped ++ pattern) = t ++ message.formatBy pattern := by
  rw [formatBy_eq_ofCodePoints h, Pattern.output_escaped_append, ← formatBy_eq_ofCodePoints h]

theorem formatBy_escaped {message : Text} (h : message ≠ []) (t : Text) :
    message.formatBy t.escaped = t ++ message := by
  have alone := formatBy_escaped_append h t []
  rwa [List.append_nil, formatBy_nil] at alone

/-- Different texts are escaped differently, since a formatting gives the text back. -/
theorem escaped_injective : Function.Injective escaped := by
  intro s t same
  have nonempty : ofUnits [.marker] ≠ [] := List.cons_ne_nil _ _
  have results := formatBy_escaped nonempty s
  rw [same, formatBy_escaped nonempty t] at results
  exact (List.append_cancel_right results).symm

/-- Escaped text comes out literally in front of what any pattern gives, alone it stands before
the message, no two texts are escaped alike, and one formatting takes away one of many escapings. -/
theorem formatBy_literally {message : Text} (h : message ≠ []) :
    (∀ t pattern : Text,
        message.formatBy (t.escaped ++ pattern) = t ++ message.formatBy pattern) ∧
      (∀ t : Text, message.formatBy t.escaped = t ++ message) ∧
      Function.Injective escaped ∧
      ∀ (n : Nat) (t : Text), message.formatBy (escaped^[n + 1] t) = escaped^[n] t ++ message := by
  refine ⟨?_, ?_, escaped_injective, ?_⟩
  · intro t pattern
    exact formatBy_escaped_append h t pattern
  · intro t
    exact formatBy_escaped h t
  · intro n t
    rw [Function.iterate_succ_apply']
    exact formatBy_escaped h _

/-- A control and a lone high surrogate in front of a pattern that starts with the low one, and
two escapings of which one is left. -/
theorem formatBy_literally_surrogates :
    let high : CodePoint := ⟨0xD83D, by decide⟩
    let low : CodePoint := ⟨0xDE48, by decide⟩
    let message : Text := ['A', 'B'].map .ofChar
    let t : Text := [.ofChar '\\', high]
    let pattern : Text := [low, .ofChar '#', .ofChar '_', .ofChar '_']
    message ≠ [] ∧
      message.formatBy (t.escaped ++ pattern) =
        [.ofChar '\\', high, low, .ofChar 'B', .ofChar '?'] ∧
      message.formatBy (escaped^[2] t) =
        [.ofChar '\\', .ofChar '\\', high, .ofChar 'A', .ofChar 'B'] := by
  intro high low message t pattern
  have nonempty : message ≠ [] := List.cons_ne_nil _ _
  obtain ⟨inFront, -, -, peeled⟩ := formatBy_literally nonempty
  refine ⟨nonempty, ?_, ?_⟩
  · rw [inFront t pattern]
    decide +kernel
  · rw [peeled 1 t]
    decide +kernel

end Text

end Stencil
