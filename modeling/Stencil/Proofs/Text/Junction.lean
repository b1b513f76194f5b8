import Stencil.Proofs.Text.Canonical

/-!
# Two texts in a row

A text that follows another one can only change its last unit, and it changes that one only where
the two meet, a high surrogate at the end of the first and a low one at the start of the second
(`Text.Meets`). The units in front of any other place stay as they are (`units_append_of_split`).
-/

namespace Stencil

namespace Text

/-- The first text ends with a high surrogate, and the second starts with a low one. -/
def Meets (s t : Text) : Prop := (∃ c ∈ s.getLast?, c.IsHigh) ∧ ∃ d ∈ t.head?, d.IsLow

instance (s t : Text) : Decidable (s.Meets t) :=
  inferInstanceAs (Decidable (_ ∧ _))

/-- Nothing meets a text that does not start with a low surrogate. -/
theorem not_meets_cons {d : CodePoint} (hd : ¬ d.IsLow) (s t : Text) : ¬ s.Meets (d :: t) := by
  rintro ⟨-, e, he, low⟩
  obtain rfl : d = e := Option.some.inj he
  exact hd low

/-- A single code point that is the last unit of a text is its last code point. -/
theorem getLast?_of_mem_getLast?_units {t : Text} {c : CodePoint}
    (h : TextUnit.single c ∈ t.units.getLast?) : t.getLast? = some c := by
  obtain ⟨front, split⟩ := List.getLast?_eq_some_iff.1 h
  apply List.getLast?_eq_some_iff.2
  refine ⟨ofUnits front, ?_⟩
  rw [← ofUnits_units t, split, ofUnits_append]
  rfl

/-- Units of a text are read the same with another text behind them, if more units stand between
the two, or if the texts do not meet. -/
theorem units_append_of_split {s t : Text} {front back : List TextUnit}
    (split : s.units = front ++ back) (apart : back = [] → ¬ s.Meets t) :
    (s ++ t).units = front ++ (ofUnits back ++ t).units := by
  have whole : TextUnit.Canonical (front ++ back) := split ▸ canonical_units s
  obtain ⟨canonicalFront, -, between⟩ := List.isChain_append.1 whole
  rw [units_eq_iff]
  constructor
  · apply List.IsChain.append canonicalFront (canonical_units _)
    intro u hu w hw halves
    obtain ⟨c, d, ⟨hc, hd⟩, rfl, rfl⟩ := halves.eq_single
    have first : (ofUnits back ++ t).head? = some d := by
      rw [← head?_units, Option.mem_def.1 hw]
      rfl
    cases back with
    | nil =>
        -- The halves are the last code point of `s` and the first one of `t`.
        apply apart rfl
        rw [List.append_nil] at split
        rw [← split] at hu
        exact ⟨⟨c, getLast?_of_mem_getLast?_units hu, hc⟩, d, first, hd⟩
    | cons v back =>
        -- The low half would stand in `s` already, right behind the high one.
        rw [ofUnits_cons, List.append_assoc, List.head?_append, TextUnit.head?_toText] at first
        obtain rfl : v.first = d := Option.some.inj first
        exact between _ hu v rfl (TextUnit.halves_of_first_isLow hc hd)
  · rw [ofUnits_append, ofUnits_units, ← List.append_assoc, ← ofUnits_append, ← split,
      ofUnits_units]

/-- Two texts that do not meet are read one after the other. -/
theorem units_append {s t : Text} (apart : ¬ s.Meets t) : (s ++ t).units = s.units ++ t.units :=
  units_append_of_split (List.append_nil _).symm fun _ => apart

/-! ## How far the units of a text are settled -/

/-- The first `n` units of a text stay its first units with `t` behind it: it has more than `n`
units, or exactly `n` and does not meet `t`. -/
def Settles (s t : Text) (n : Nat) : Prop :=
  n < s.units.length ∨ n = s.units.length ∧ ¬ s.Meets t

instance (s t : Text) (n : Nat) : Decidable (s.Settles t n) :=
  inferInstanceAs (Decidable (_ ∨ _))

theorem Settles.le_length {s t : Text} {n : Nat} (h : s.Settles t n) : n ≤ s.units.length := by
  rcases h with more | ⟨all, -⟩
  · exact Nat.le_of_lt more
  · exact Nat.le_of_eq all

/-- Behind the settled units, the others are read together with what follows. -/
theorem Settles.units_append {s t : Text} {n : Nat} (h : s.Settles t n) :
    (s ++ t).units = s.units.take n ++ (ofUnits (s.units.drop n) ++ t).units := by
  apply units_append_of_split (List.take_append_drop n s.units).symm
  intro none_left
  rcases h with more | ⟨-, apart⟩
  · -- There are units behind the first `n`.
    rw [List.drop_eq_nil_iff] at none_left
    exact absurd more (Nat.not_lt.2 none_left)
  · exact apart

end Text

end Stencil
