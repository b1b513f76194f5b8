import Mathlib.Data.List.Chain
import Mathlib.Data.Set.Function
import Mathlib.Data.Set.List
import Stencil.Text.Fragment

/-!
# Canonical units

A list of units is canonical when no high surrogate standing alone is directly followed by a low
surrogate standing alone. The units of a text are the only canonical list that joins to the text
(`units_eq_iff`), so a part of them reads back as itself (`units_ofUnits_part`).

The same holds among lists of arbitrary fragments, where being a unit is one half of being
canonical: `fragments_bijOn_canonical`.
-/

namespace Stencil

namespace TextUnit

/-- The two halves of a surrogate pair, each a unit of its own. -/
def Halves : TextUnit → TextUnit → Prop
  | single c, single d => c.IsHigh ∧ d.IsLow
  | _, _ => False

instance : DecidableRel Halves
  | single c, single d => inferInstanceAs (Decidable (c.IsHigh ∧ d.IsLow))
  | single _, pair _ _ _ => isFalse id
  | pair _ _ _, _ => isFalse id

/-- Lists of units in which no pair stands apart in its halves. -/
def Canonical (us : List TextUnit) : Prop := us.IsChain fun u v => ¬ u.Halves v

instance (us : List TextUnit) : Decidable (Canonical us) :=
  inferInstanceAs (Decidable (us.IsChain fun u v => ¬ u.Halves v))

/-- Only single code points are halves. -/
theorem Halves.eq_single {u v : TextUnit} (h : u.Halves v) :
    ∃ c d : CodePoint, (c.IsHigh ∧ d.IsLow) ∧ u = single c ∧ v = single d := by
  cases u with
  | single c =>
      cases v with
      | single d => exact ⟨c, d, h, rfl, rfl⟩
      | pair high low s => exact h.elim
  | pair high low s => exact h.elim

/-- Two halves are known by their first code points. -/
theorem Halves.surrogates {u v : TextUnit} (h : u.Halves v) : u.first.IsHigh ∧ v.first.IsLow := by
  obtain ⟨c, d, s, rfl, rfl⟩ := h.eq_single
  exact s

/-- A pair starts with a high surrogate, so a low one in front means that a unit is alone. -/
theorem halves_of_first_isLow {c : CodePoint} {v : TextUnit} (hc : c.IsHigh)
    (hv : v.first.IsLow) : Halves (single c) v := by
  cases v with
  | single d => exact ⟨hc, hv⟩
  | pair high low s => exact absurd hv (CodePoint.not_isLow_of_isHigh s.1)

theorem Canonical.part {us vs : List TextUnit} (h : Canonical vs) (part : us <:+: vs) :
    Canonical us :=
  List.IsChain.infix h part

end TextUnit

open TextUnit (Canonical)

namespace Text

/-! ## Both round trips -/

/-- A code point that the next one does not complete to a pair is a unit of its own. -/
theorem units_cons {c : CodePoint} {t : Text} (h : ∀ d ∈ t.head?, ¬ (c.IsHigh ∧ d.IsLow)) :
    units (c :: t) = .single c :: units t := by
  cases t with
  | nil => simp
  | cons d rest => exact units_single (h d rfl) rest

/-- The first unit starts with the first code point. -/
theorem head?_units (t : Text) : t.units.head?.map TextUnit.first = t.head? := by
  fun_cases units t with
  | case1 => rfl
  | case2 c => rfl
  | case3 c d rest h => rfl
  | case4 c d rest h => rfl

/-- The text of units starts with the first code point of the first unit. -/
theorem head?_ofUnits (us : List TextUnit) :
    (ofUnits us).head? = us.head?.map TextUnit.first := by
  cases us with
  | nil => rfl
  | cons u us => simp [List.head?_append, TextUnit.head?_toText]

theorem canonical_units (t : Text) : Canonical t.units := by
  fun_induction units t with
  | case1 => exact List.IsChain.nil
  | case2 c => exact List.IsChain.singleton _
  | case3 c d rest h ih =>
      -- A pair is no lone half, so nothing has to be known of what follows it.
      exact List.IsChain.cons ih fun v _ => id
  | case4 c d rest h ih =>
      refine List.IsChain.cons ih ?_
      intro v hv halves
      have first : v.first = d := by
        have head := head?_units (d :: rest)
        rw [Option.mem_def.1 hv] at head
        exact Option.some.inj head
      exact h (first ▸ halves.surrogates)

/-- A unit in front of a text is its first unit, unless the text starts with the other half. -/
theorem units_toText_append {u : TextUnit} {t : Text}
    (h : ∀ d ∈ t.head?, ¬ u.Halves (.single d)) : (u.toText ++ t).units = u :: t.units := by
  cases u with
  | single c => exact units_cons h
  | pair high low s => exact units_pair s t

/-- The first code point of a text shows whether its first unit is the other half. -/
theorem not_halves_of_mem_head?_ofUnits {u : TextUnit} {vs : List TextUnit}
    (h : ∀ v ∈ vs.head?, ¬ u.Halves v) : ∀ d ∈ (ofUnits vs).head?, ¬ u.Halves (.single d) := by
  rw [head?_ofUnits]
  intro d hd halves
  obtain ⟨v, hv, rfl⟩ := Option.map_eq_some_iff.1 hd
  cases u with
  | single c => exact h v hv (TextUnit.halves_of_first_isLow halves.1 halves.2)
  | pair high low s => exact halves

/-- Canonical units are read back from their text. The induction is on the units: what a lone
high surrogate is followed by decides whether it stays alone. -/
theorem units_ofUnits {us : List TextUnit} (h : Canonical us) : (ofUnits us).units = us := by
  induction us with
  | nil => simp
  | cons u us ih =>
      obtain ⟨next, rest⟩ := List.isChain_cons.1 h
      rw [ofUnits_cons, units_toText_append (not_halves_of_mem_head?_ofUnits next), ih rest]

/-- The units of a text are its only canonical decomposition. -/
theorem units_eq_iff {t : Text} {us : List TextUnit} :
    t.units = us ↔ Canonical us ∧ ofUnits us = t := by
  constructor
  · rintro rfl
    exact ⟨canonical_units t, ofUnits_units t⟩
  · rintro ⟨h, rfl⟩
    exact units_ofUnits h

/-- Units that stand in a row in a text are the units of their own text. -/
theorem units_ofUnits_part {t : Text} {us : List TextUnit} (h : us <:+: t.units) :
    (ofUnits us).units = us :=
  units_ofUnits ((canonical_units t).part h)

/-- What is left of a text after some of its units. -/
theorem units_ofUnits_drop (t : Text) (n : Nat) :
    (ofUnits (t.units.drop n)).units = t.units.drop n :=
  units_ofUnits_part (List.drop_suffix n t.units).isInfix

end Text

/-! ## Among all fragments -/

/-- Units of a text as fragments. -/
def Text.fragments (t : Text) : List Fragment := t.units.map Fragment.ofUnit

namespace Fragment

/-- Fragments that are units: one code point, or a high surrogate followed by a low one. -/
def IsUnit (f : Fragment) : Prop :=
  (∃ c, f.text = [c]) ∨ ∃ high low : CodePoint, high.IsHigh ∧ low.IsLow ∧ f.text = [high, low]

/-- The two halves of a surrogate pair, each a fragment of its own. -/
def Halves (f g : Fragment) : Prop :=
  ∃ high low : CodePoint, high.IsHigh ∧ low.IsLow ∧ f.text = [high] ∧ g.text = [low]

/-- Fragments that are units in which no pair stands apart in its halves. -/
structure Canonical (fs : List Fragment) : Prop where
  isUnit : ∀ f ∈ fs, f.IsUnit
  whole : fs.IsChain fun f g => ¬ f.Halves g

theorem isUnit_iff {f : Fragment} : f.IsUnit ↔ ∃ u, ofUnit u = f := by
  constructor
  · rintro (⟨c, h⟩ | ⟨high, low, hh, hl, h⟩)
    · exact ⟨.single c, by rw [ofUnit, TextUnit.toText_single, ← h]⟩
    · exact ⟨.pair high low ⟨hh, hl⟩, by rw [ofUnit, TextUnit.toText_pair, ← h]⟩
  · rintro ⟨u, rfl⟩
    cases u with
    | single c => exact Or.inl ⟨c, rfl⟩
    | pair high low s => exact Or.inr ⟨high, low, s.1, s.2, rfl⟩

theorem halves_ofUnit {u v : TextUnit} : (ofUnit u).Halves (ofUnit v) ↔ u.Halves v := by
  constructor
  · rintro ⟨high, low, hh, hl, hu, hv⟩
    have eu : u = .single high := TextUnit.toText_inj.1 hu
    have ev : v = .single low := TextUnit.toText_inj.1 hv
    subst eu ev
    exact ⟨hh, hl⟩
  · intro h
    obtain ⟨c, d, ⟨hc, hd⟩, rfl, rfl⟩ := h.eq_single
    exact ⟨c, d, hc, hd, rfl, rfl⟩

/-- Canonical fragments are canonical units. -/
theorem canonical_iff {fs : List Fragment} :
    Canonical fs ↔ ∃ us, TextUnit.Canonical us ∧ us.map ofUnit = fs := by
  have chain : ∀ us : List TextUnit,
      (us.map ofUnit).IsChain (fun f g => ¬ f.Halves g) ↔ TextUnit.Canonical us := by
    intro us
    rw [List.isChain_map]
    apply List.IsChain.iff
    intro u v
    exact not_congr halves_ofUnit
  constructor
  · rintro ⟨isUnit, whole⟩
    -- Each fragment comes from a unit, so the whole list comes from a list of units.
    have ofUnits : fs ∈ Set.range (List.map ofUnit) := by
      rw [Set.range_list_map]
      intro f hf
      exact isUnit_iff.1 (isUnit f hf)
    obtain ⟨us, rfl⟩ := ofUnits
    exact ⟨us, (chain us).1 whole, rfl⟩
  · rintro ⟨us, h, rfl⟩
    refine ⟨?_, (chain us).2 h⟩
    intro f hf
    obtain ⟨u, -, rfl⟩ := List.mem_map.1 hf
    exact isUnit_iff.2 ⟨u, rfl⟩

theorem canonical_fragments (t : Text) : Canonical t.fragments :=
  canonical_iff.2 ⟨t.units, Text.canonical_units t, rfl⟩

theorem join_fragments (t : Text) : join t.fragments = t := by
  rw [Text.fragments, join_map_ofUnit, Text.ofUnits_units]

/-- Canonical fragments are read back from their joined text. -/
theorem fragments_join {fs : List Fragment} (h : Canonical fs) : (join fs).fragments = fs := by
  obtain ⟨us, hus, rfl⟩ := canonical_iff.1 h
  rw [join_map_ofUnit, Text.fragments, Text.units_ofUnits hus]

theorem Canonical.part {fs gs : List Fragment} (h : Canonical gs) (part : fs <:+: gs) :
    Canonical fs := by
  refine ⟨?_, List.IsChain.infix h.whole part⟩
  intro f hf
  exact h.isUnit f (part.subset hf)

/-- Reading the units of a text and joining fragments are inverse to each other between all texts
and the canonical lists of fragments, and each part of the units of a text is read back. -/
theorem fragments_bijOn_canonical :
    (∀ t : Text, Canonical t.fragments ∧ join t.fragments = t) ∧
      (∀ fs, Canonical fs → (join fs).fragments = fs) ∧
      Set.BijOn Text.fragments Set.univ {fs | Canonical fs} ∧
      ∀ (t : Text) (fs : List Fragment), fs <:+: t.fragments → (join fs).fragments = fs := by
  refine ⟨?_, ?_, ?_, ?_⟩
  · intro t
    exact ⟨canonical_fragments t, join_fragments t⟩
  · intro fs h
    exact fragments_join h
  · have inverse : Set.InvOn join Text.fragments Set.univ {fs | Canonical fs} :=
      ⟨fun t _ => join_fragments t, fun fs h => fragments_join h⟩
    exact inverse.bijOn (fun t _ => canonical_fragments t) (fun fs _ => Set.mem_univ _)
  · intro t fs part
    exact fragments_join ((canonical_fragments t).part part)

/-- A low surrogate before a high one, a whole pair, and a high surrogate after it: none of them
joins its neighbour, and the middle of the text is read as it is in the whole. -/
theorem fragments_bijOn_canonical_surrogates :
    let high : CodePoint := ⟨0xD800, by decide⟩
    let low : CodePoint := ⟨0xDC00, by decide⟩
    let fs : List Fragment := [⟨[low]⟩, ⟨[high]⟩, ⟨[high, low]⟩, ⟨[high]⟩]
    let t : Text := [low, high, high, low, high]
    (Canonical fs ∧ (join fs).fragments = fs) ∧
      [⟨[high]⟩, ⟨[high, low]⟩] <:+: t.fragments ∧
        (join [⟨[high]⟩, ⟨[high, low]⟩]).fragments = [⟨[high]⟩, ⟨[high, low]⟩] := by
  intro high low fs t
  have canonical : Canonical fs :=
    canonical_iff.2 ⟨[.single low, .single high, .pair high low (by decide), .single high],
      by decide, rfl⟩
  have part : [⟨[high]⟩, ⟨[high, low]⟩] <:+: t.fragments := by
    decide +kernel
  obtain ⟨-, readBack, -, partReadBack⟩ := fragments_bijOn_canonical
  exact ⟨⟨canonical, readBack fs canonical⟩, part, partReadBack t _ part⟩

end Fragment

end Stencil
