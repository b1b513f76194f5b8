import Stencil.Proofs.Text.Canonical

/-!
# Units in a row

Units that are put together to a text come back from it, except that two halves that stand next to
each other come back as a pair (`units_ofUnits_eq_merged`). Nothing goes on from there: a pair
meets nothing, so every place where halves meet costs one unit (`length_merged_add_meetings`), and
the pairs that were there are still there (`isPair_sublist_merged`).
-/

namespace Stencil

namespace TextUnit

/-- Pair made of its halves. -/
def Halves.pair {u v : TextUnit} (h : u.Halves v) : TextUnit := .pair u.first v.first h.surrogates

/-- The second half is no first half. -/
theorem Halves.not_halves {u v : TextUnit} (h : u.Halves v) (w : TextUnit) : ¬ v.Halves w := by
  intro h'
  exact CodePoint.not_isLow_of_isHigh h'.surrogates.1 h.surrogates.2

/-- Units with every two halves that meet made one. -/
def merged : List TextUnit → List TextUnit
  | [] => []
  | [u] => [u]
  | u :: v :: us => if h : u.Halves v then h.pair :: merged us else u :: merged (v :: us)

/-- Number of places where halves meet. -/
def meetings (us : List TextUnit) : Nat := (us.zip us.tail).countP fun p => p.1.Halves p.2

theorem meetings_cons_cons (u v : TextUnit) (us : List TextUnit) :
    meetings (u :: v :: us) = meetings (v :: us) + if u.Halves v then 1 else 0 := by
  simp [meetings, List.countP_cons]

/-- A second half meets nothing behind it. -/
theorem Halves.meetings_cons {u v : TextUnit} (h : u.Halves v) (us : List TextUnit) :
    meetings (v :: us) = meetings us := by
  cases us with
  | nil => rfl
  | cons w us => rw [meetings_cons_cons, if_neg (h.not_halves w), Nat.add_zero]

/-- Every meeting makes one unit of two. -/
theorem length_merged_add_meetings (us : List TextUnit) :
    (merged us).length + meetings us = us.length := by
  fun_induction merged us with
  | case1 => rfl
  | case2 u => rfl
  | case3 u v us h ih =>
      rw [meetings_cons_cons, if_pos h, h.meetings_cons]
      simp only [List.length_cons]
      omega
  | case4 u v us h ih =>
      rw [meetings_cons_cons, if_neg h]
      simp only [List.length_cons] at ih ⊢
      omega

/-- The pairs stay, in their order. -/
theorem isPair_sublist_merged (us : List TextUnit) :
    (us.filter isPair).Sublist (merged us) := by
  fun_induction merged us with
  | case1 => exact List.Sublist.slnil
  | case2 u => exact List.filter_sublist
  | case3 u v us h ih =>
      -- Two halves are no pairs, so the new pair is one more.
      obtain ⟨c, d, -, rfl, rfl⟩ := h.eq_single
      exact ih.cons _
  | case4 u v us h ih =>
      rw [List.filter_cons]
      split
      · exact ih.cons_cons u
      · exact ih.cons u

end TextUnit

namespace Text

open TextUnit (merged)

/-- Reading a text of units merges the halves that meet in it, and changes nothing else. -/
theorem units_ofUnits_eq_merged (us : List TextUnit) : (ofUnits us).units = merged us := by
  fun_induction merged us with
  | case1 => exact units_nil
  | case2 u => exact units_ofUnits (List.IsChain.singleton u)
  | case3 u v us h ih =>
      obtain ⟨c, d, s, rfl, rfl⟩ := h.eq_single
      rw [← ih]
      exact units_pair s (ofUnits us)
  | case4 u v us h ih =>
      -- The other half does not follow `u`, so `u` is read as a unit by itself.
      have apart : ∀ w ∈ (v :: us).head?, ¬ u.Halves w := by
        intro w hw
        obtain rfl : v = w := Option.some.inj hw
        exact h
      rw [ofUnits_cons, units_toText_append (not_halves_of_mem_head?_ofUnits apart), ih]

end Text

end Stencil
