import Mathlib.Data.List.SplitBy
import Stencil.Proofs.Text.Junction
import Stencil.Proofs.Text.Merging

/-!
# Ends of units

Whether a unit ends between two code points is settled by these two alone. Two texts in a row have
the units of both, unless they meet, and where they meet the last unit of the first and the first
one of the second are made one (`units_append_iff`, `units_append_of_meets`). Units that are put
together in any list are cut in the same way: between all neighbours that are no halves of a pair,
so that no piece has more than two of them (`units_local`).
-/

namespace Stencil

namespace TextUnit

/-- Units parted between all neighbours that are not the two halves of a pair. -/
def pieces (us : List TextUnit) : List (List TextUnit) := us.splitBy fun u v => u.Halves v

theorem pieces_append {us vs : List TextUnit}
    (h : ∀ u ∈ us.getLast?, ∀ v ∈ vs.head?, ¬ u.Halves v) :
    pieces (us ++ vs) = pieces us ++ pieces vs := by
  apply List.splitBy_append
  intro u hu v hv
  exact decide_eq_false (h u hu v hv)

/-- A unit that makes no pair with the next one is a piece of its own. -/
theorem pieces_cons {u : TextUnit} {us : List TextUnit} (h : ∀ v ∈ us.head?, ¬ u.Halves v) :
    pieces (u :: us) = [u] :: pieces us := by
  have parted : pieces ([u] ++ us) = pieces [u] ++ pieces us := by
    apply pieces_append
    intro w hw
    obtain rfl : u = w := Option.some.inj hw
    exact h
  exact parted

/-- Two halves are one piece, since the second half makes no pair with what follows. -/
theorem Halves.pieces_cons_cons {u v : TextUnit} (h : u.Halves v) (us : List TextUnit) :
    pieces (u :: v :: us) = [u, v] :: pieces us := by
  have chain : [u, v].IsChain fun x y => decide (x.Halves y) = true :=
    List.IsChain.cons_cons (decide_eq_true h) (List.IsChain.singleton v)
  have one : pieces [u, v] = [[u, v]] := List.splitBy_of_isChain (List.cons_ne_nil _ _) chain
  have parted : pieces ([u, v] ++ us) = pieces [u, v] ++ pieces us := by
    apply pieces_append
    intro x hx y _
    obtain rfl : v = x := Option.some.inj hx
    exact h.not_halves y
  rw [one] at parted
  exact parted

/-- Merging makes one unit of each piece. -/
theorem map_toText_merged (us : List TextUnit) :
    (merged us).map toText = (pieces us).map Text.ofUnits := by
  fun_induction merged us with
  | case1 => rfl
  | case2 u => exact congrArg (fun t => [t]) (List.append_nil u.toText).symm
  | case3 u v us h ih =>
      obtain ⟨c, d, s, rfl, rfl⟩ := h.eq_single
      rw [h.pieces_cons_cons, List.map_cons, List.map_cons, ih]
      rfl
  | case4 u v us h ih =>
      have apart : ∀ w ∈ (v :: us).head?, ¬ u.Halves w := by
        intro w hw
        obtain rfl : v = w := Option.some.inj hw
        exact h
      rw [pieces_cons apart, List.map_cons, List.map_cons, ih, Text.ofUnits_cons, Text.ofUnits_nil,
        List.append_nil]

/-- A piece is a unit alone or the two halves of a pair. -/
theorem eq_of_mem_pieces {us piece : List TextUnit} (h : piece ∈ pieces us) :
    (∃ u, piece = [u]) ∨ ∃ u v : TextUnit, u.Halves v ∧ piece = [u, v] := by
  have chain : piece.IsChain fun x y => decide (x.Halves y) = true := List.isChain_of_mem_splitBy h
  cases piece with
  | nil => exact absurd h (List.nil_notMem_splitBy _ us)
  | cons u rest =>
      cases rest with
      | nil => exact Or.inl ⟨u, rfl⟩
      | cons v rest =>
          obtain ⟨first, chain⟩ := List.isChain_cons_cons.1 chain
          have halves : u.Halves v := of_decide_eq_true first
          cases rest with
          | nil => exact Or.inr ⟨u, v, halves, rfl⟩
          | cons w rest =>
              -- A third unit would have the second half in front of it as a first one.
              obtain ⟨second, -⟩ := List.isChain_cons_cons.1 chain
              exact absurd (of_decide_eq_true second) (halves.not_halves w)

end TextUnit

namespace Text

/-! ## Where two texts meet -/

/-- Texts that meet, taken apart at the two halves. -/
theorem Meets.exists_halves {s t : Text} (h : s.Meets t) :
    ∃ (front back : Text) (c d : CodePoint),
      (c.IsHigh ∧ d.IsLow) ∧ s = front ++ [c] ∧ t = d :: back := by
  obtain ⟨⟨c, hc, high⟩, d, hd, low⟩ := h
  obtain ⟨front, rfl⟩ := List.getLast?_eq_some_iff.1 hc
  obtain ⟨back, rfl⟩ := List.head?_eq_some_iff.1 hd
  exact ⟨front, back, c, d, ⟨high, low⟩, rfl, rfl⟩

section Halves

variable {c d : CodePoint} (h : c.IsHigh ∧ d.IsLow)

include h

theorem units_concat_high (front : Text) : (front ++ [c]).units = front.units ++ [.single c] := by
  rw [units_append (not_meets_cons (CodePoint.not_isLow_of_isHigh h.1) front []), units_singleton]

theorem units_cons_low (back : Text) : units (d :: back) = .single d :: units back := by
  apply units_cons
  intro e _ halves
  exact CodePoint.not_isLow_of_isHigh halves.1 h.2

/-- Two halves between texts are one unit, and the units of the texts stay as they are. -/
theorem units_append_halves (front back : Text) :
    ((front ++ [c]) ++ d :: back).units = front.units ++ .pair c d h :: back.units := by
  have apart : ¬ front.Meets (c :: d :: back) :=
    not_meets_cons (CodePoint.not_isLow_of_isHigh h.1) front (d :: back)
  rw [List.append_assoc, List.singleton_append, units_append apart, units_pair h]

end Halves

/-- Where two texts meet, the last unit of the first and the first one of the second are one. -/
theorem units_append_of_meets {s t : Text} {c d : CodePoint} (h : c.IsHigh ∧ d.IsLow)
    (hc : s.getLast? = some c) (hd : t.head? = some d) :
    (s ++ t).units = s.units.dropLast ++ .pair c d h :: t.units.tail := by
  obtain ⟨front, rfl⟩ := List.getLast?_eq_some_iff.1 hc
  obtain ⟨back, rfl⟩ := List.head?_eq_some_iff.1 hd
  rw [units_append_halves h, units_concat_high h, units_cons_low h, List.dropLast_concat,
    List.tail_cons]

/-- Two texts in a row have the units of both exactly when they do not meet. -/
theorem units_append_iff {s t : Text} : (s ++ t).units = s.units ++ t.units ↔ ¬ s.Meets t := by
  constructor
  · intro same meets
    obtain ⟨front, back, c, d, h, rfl, rfl⟩ := meets.exists_halves
    have length := congrArg List.length same
    -- The halves are one unit on the left and two on the right.
    rw [units_append_halves h, units_concat_high h, units_cons_low h] at length
    simp only [List.length_append, List.length_cons, List.length_nil] at length
    omega
  · exact units_append

/-- Units are found locally. Two texts in a row have the units of both exactly when they do not
meet, and otherwise the two halves become one unit. Units in any list are read from their text as
the pieces of the list, each of them a unit alone or two halves that stand next to each other, so
there are as many fewer as halves meet. -/
theorem units_local :
    (∀ s t : Text, (s ++ t).units = s.units ++ t.units ↔ ¬ s.Meets t) ∧
      (∀ (s t : Text) (c d : CodePoint) (h : c.IsHigh ∧ d.IsLow),
        s.getLast? = some c → t.head? = some d →
          (s ++ t).units = s.units.dropLast ++ .pair c d h :: t.units.tail) ∧
      ∀ us : List TextUnit,
        (ofUnits us).units.map TextUnit.toText = (TextUnit.pieces us).map ofUnits ∧
          (∀ piece ∈ TextUnit.pieces us,
            (∃ u, piece = [u]) ∨ ∃ u v : TextUnit, u.Halves v ∧ piece = [u, v]) ∧
          (ofUnits us).units.length + TextUnit.meetings us = us.length := by
  refine ⟨?_, ?_, ?_⟩
  · intro s t
    exact units_append_iff
  · intro s t c d h hc hd
    exact units_append_of_meets h hc hd
  · intro us
    rw [units_ofUnits_eq_merged]
    refine ⟨TextUnit.map_toText_merged us, ?_, TextUnit.length_merged_add_meetings us⟩
    intro piece hp
    exact TextUnit.eq_of_mem_pieces hp

/-- Runs of surrogates: two high ones before two low ones, with the texts parted between the middle
ones, and the same four code points as units of their own. -/
theorem units_local_runs :
    let high : CodePoint := ⟨0xD83D, by decide⟩
    let low : CodePoint := ⟨0xDE48, by decide⟩
    let h : high.IsHigh ∧ low.IsLow := by decide
    let us : List TextUnit := [.single high, .single high, .single low, .single low]
    (Text.Meets [high, high] [low, low] ∧
      units ([high, high] ++ [low, low]) =
        [.single high, .pair high low h, .single low]) ∧
      TextUnit.pieces us = [[.single high], [.single high, .single low], [.single low]] ∧
        (ofUnits us).units.length + 1 = 4 := by
  intro high low h us
  obtain ⟨-, met, any⟩ := units_local
  refine ⟨⟨by decide +kernel, ?_⟩, by decide +kernel, ?_⟩
  · rw [met [high, high] [low, low] high low h rfl rfl]
    decide +kernel
  · obtain ⟨-, -, count⟩ := any us
    have once : TextUnit.meetings us = 1 := by decide +kernel
    rwa [once] at count

end Text

end Stencil
