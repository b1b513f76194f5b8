import Stencil.Proofs.Formatting.Account
import Stencil.Proofs.Formatting.Scanning

/-!
# What a run records

The log of a formatting can be written down before the run: the pairs by their indices in the two
texts, the two numbers of units, and the number of units left over, which the summary of the pattern
tells (`leftovers_runBy`). The loops that read the texts and drain the queues end with exactly these
pairs and these units (`formatLogged_exact`).
-/

namespace Stencil

namespace Text

/-- A text has as many pairs as it has code points more than units. -/
theorem length_pairEvents (t : Text) : (t.pairEvents 0).length + t.units.length = t.length := by
  rw [← joins_units, Event.length_joins, ofUnits_units]

/-- Nothing is left over when the rest is dropped, or when the pattern asks for all units. -/
theorem leftover_runBy_eq_nil_iff {message pattern : Text} :
    (message.runBy pattern).leftover = [] ↔
      ¬ (pattern.summary.dropsRest = false ∧
        pattern.summary.consumed < message.units.length) := by
  rw [← List.length_eq_zero_iff, length_leftover_runBy, leftoverCount]
  cases pattern.summary.dropsRest with
  | true => simp
  | false =>
      simp only [Bool.false_eq_true, if_false, true_and]
      omega

/-- The units left over are recorded, if there are any. -/
theorem leftovers_runBy (message pattern : Text) :
    Event.leftovers (message.runBy pattern) =
      if pattern.summary.dropsRest = false ∧
          pattern.summary.consumed < message.units.length then
        [.appending (message.units.length - pattern.summary.consumed)]
      else [] := by
  by_cases nothing : (message.runBy pattern).leftover = []
  · rw [Event.leftovers, if_pos nothing, if_neg (leftover_runBy_eq_nil_iff.1 nothing)]
  · have left := not_not.1 (mt leftover_runBy_eq_nil_iff.2 nothing)
    have kept : ¬ pattern.summary.dropsRest = true := Bool.eq_false_iff.1 left.1
    rw [Event.leftovers, if_neg nothing, if_pos left, length_leftover_runBy, leftoverCount,
      if_neg kept]

/-- The log of a formatting is exact. It has one record for each index of the message at which a
pair starts, in increasing order, as many for the pattern, then the two numbers of units, and the
number of units left over, if there are any; the loops over the two texts and over the two queues
end with these pairs and with the units of the run. The result is that of the formatting. -/
theorem formatLogged_exact {message pattern : Text} (hm : message ≠ []) (hp : pattern ≠ []) :
    let s := pattern.summary
    let n := message.units.length
    let k := pattern.units.length
    let r := message.runBy pattern
    let logged := formatLogged (some message) (some pattern)
    ((Scanning.loop message).Reaches .start
          ⟨message.length, message.units, message.pairEvents 0⟩ ∧
        (Scanning.loop pattern).Reaches .start
          ⟨pattern.length, pattern.units, pattern.pairEvents 0⟩ ∧
        Draining.loop.Reaches (.start message pattern) ⟨[], r.leftover, r.written, r.taken⟩) ∧
      logged.events = message.pairEvents 0 ++ pattern.pairEvents 0 ++ .applying k n ::
        (if s.dropsRest = false ∧ s.consumed < n then [.appending (n - s.consumed)] else []) ∧
      ((message.pairEvents 0).length + n = message.length ∧
        (pattern.pairEvents 0).length + k = pattern.length) ∧
      ((Event.applying k n).message =
          s!"Applying pattern of {k} units to message of {n} units" ∧
        ∀ left, (Event.appending left).message = s!"Appending {left} leftover message units") ∧
      logged.result = formatBy? (some message) (some pattern) := by
  intro s n k r logged
  refine ⟨⟨Scanning.reaches_units message, Scanning.reaches_units pattern,
    Draining.reaches_runBy message pattern⟩, ?_,
    ⟨length_pairEvents message, length_pairEvents pattern⟩, ⟨rfl, fun _ => rfl⟩, rfl⟩
  have events : logged.events = message.formatEvents pattern := rfl
  rw [events, formatEvents, if_neg (not_or.2 ⟨hm, hp⟩), joins_units, joins_units, leftovers_runBy]

/-- A pair in the message behind a lone high surrogate, one in the pattern, and a unit left over. -/
theorem formatLogged_exact_pairs :
    let high : CodePoint := ⟨0xD83D, by decide⟩
    let low : CodePoint := ⟨0xDE48, by decide⟩
    let message : Text := [high, high, low, .ofChar 'B']
    let pattern : Text := [.ofChar '#', high, low, .ofChar '_']
    message ≠ [] ∧ pattern ≠ [] ∧
      (formatLogged (some message) (some pattern)).events =
        [.joined 1 high low, .joined 1 high low, .applying 3 3, .appending 1] := by
  intro high low message pattern
  have nonempty : message ≠ [] := List.cons_ne_nil _ _
  have nonempty' : pattern ≠ [] := List.cons_ne_nil _ _
  obtain ⟨-, events, -⟩ := formatLogged_exact nonempty nonempty'
  refine ⟨nonempty, nonempty', ?_⟩
  rw [events]
  decide +kernel

end Text

end Stencil
