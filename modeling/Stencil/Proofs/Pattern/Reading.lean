import Mathlib.Data.List.Basic
import Stencil.Pattern.Summary

/-!
# Reading of a pattern

The directives of units, stated as rules (`Reads`), are those that `Pattern.ofUnits` computes, and
no others (`reads_iff`). Reading breaks at any place that is not right after an unfinished escape
(`ofUnits_append`), and behind one the next unit is written (`ofUnits_append_unfinished`).

A pattern read code point by code point has the directives of its units with every written pair
taken apart (`spread_ofUnits`). Since reading code points does not look at what follows, this is
the form in which two texts in a row are read, whatever surrogates meet between them.
-/

namespace Stencil

namespace Pattern

/-! ## Rules -/

/-- Directives of units by rules: an escape writes the unit after it, an escape with nothing after
it is unfinished, the other controls act, and all else is written. -/
inductive Reads : List TextUnit → Pattern → Prop
  | nil : Reads [] []
  | escaped (u : TextUnit) {us : List TextUnit} {p : Pattern} :
      Reads us p → Reads (Control.escape.unit :: u :: us) (.write u :: p)
  | unfinished : Reads [Control.escape.unit] [.unfinished]
  | copy {us : List TextUnit} {p : Pattern} :
      Reads us p → Reads (Control.copy.unit :: us) (.copy :: p)
  | drop {us : List TextUnit} {p : Pattern} :
      Reads us p → Reads (Control.drop.unit :: us) (.drop :: p)
  | dropRest {us : List TextUnit} {p : Pattern} :
      Reads us p → Reads (Control.dropRest.unit :: us) (.dropRest :: p)
  | plain {u : TextUnit} {us : List TextUnit} {p : Pattern} :
      (∀ k : Control, u ≠ k.unit) → Reads us p → Reads (u :: us) (.write u :: p)

/-- A unit that is no escape is one of the other controls, or no control at all. -/
theorem unit_cases {u : TextUnit} (hu : u ≠ Control.escape.unit) :
    u = Control.copy.unit ∨ u = Control.drop.unit ∨ u = Control.dropRest.unit ∨
      ∀ k : Control, u ≠ k.unit := by
  by_cases hk : ∃ k : Control, u = k.unit
  · obtain ⟨k, rfl⟩ := hk
    cases k with
    | dropRest => exact Or.inr (Or.inr (Or.inl rfl))
    | drop => exact Or.inr (Or.inl rfl)
    | escape => exact absurd rfl hu
    | copy => exact Or.inl rfl
  · exact Or.inr (Or.inr (Or.inr (not_exists.1 hk)))

/-- A unit that is no control is written. -/
theorem ofUnit_of_ne_unit {u : TextUnit} (h : ∀ k : Control, u ≠ k.unit) :
    Directive.ofUnit u = .write u := by
  refine Directive.ofUnit_of_not_control ?_
  cases hk : Control.ofUnit? u with
  | none => rfl
  | some k => exact absurd (Control.ofUnit?_eq_some_iff.1 hk) (h k)

end Pattern

namespace Directive

/-- Unit that a directive is read from. -/
def unit : Directive → TextUnit
  | write u => u
  | unfinished => Control.escape.unit
  | copy => Control.copy.unit
  | drop => Control.drop.unit
  | dropRest => Control.dropRest.unit

theorem unit_ofUnit (u : TextUnit) : (ofUnit u).unit = u := by
  by_cases h : ∃ k : Control, u = k.unit
  · obtain ⟨k, rfl⟩ := h
    cases k with
    | dropRest => rw [ofUnit_dropRest, unit]
    | drop => rw [ofUnit_drop, unit]
    | escape => rw [ofUnit_escape, unit]
    | copy => rw [ofUnit_copy, unit]
  · rw [Pattern.ofUnit_of_ne_unit (not_exists.1 h), unit]

/-- Different units stand for different directives. -/
theorem ofUnit_inj {u v : TextUnit} : ofUnit u = ofUnit v ↔ u = v := by
  constructor
  · intro h
    rw [← unit_ofUnit u, h, unit_ofUnit]
  · rintro rfl
    rfl

theorem isWrite_ofUnit {u : TextUnit} : (ofUnit u).isWrite = true ↔ Control.ofUnit? u = none := by
  rw [ofUnit]
  split <;> simp_all [isWrite]

/-- No control is written where it stands on its own. -/
theorem ofUnit_unit_ne_write (k : Control) (u : TextUnit) : ofUnit k.unit ≠ write u := by
  intro h
  have plain := isWrite_ofUnit.1 (congrArg isWrite h)
  rw [Control.ofUnit?_unit] at plain
  exact nomatch plain

end Directive

namespace Pattern

theorem Reads.eq_ofUnits {us : List TextUnit} {p : Pattern} (h : Reads us p) :
    p = ofUnits us := by
  -- No control but the escape is the escape.
  have other : ∀ k : Control, k ≠ .escape → k.unit ≠ Control.escape.unit := by
    intro k hk hu
    exact hk (Control.unit_inj.1 hu)
  induction h with
  | nil => exact ofUnits_nil.symm
  | escaped u _ ih => rw [ofUnits_escape_cons, ih]
  | unfinished => rw [ofUnits_singleton, Directive.ofUnit_escape]
  | copy _ ih => rw [ofUnits_cons (other .copy (by decide)), Directive.ofUnit_copy, ih]
  | drop _ ih => rw [ofUnits_cons (other .drop (by decide)), Directive.ofUnit_drop, ih]
  | dropRest _ ih =>
      rw [ofUnits_cons (other .dropRest (by decide)), Directive.ofUnit_dropRest, ih]
  | plain hu _ ih => rw [ofUnits_cons (hu .escape), ofUnit_of_ne_unit hu, ih]

/-- The unit in front that is no escape is read by the rule of its control, or is written. -/
theorem reads_cons {u : TextUnit} (hu : u ≠ Control.escape.unit) {us : List TextUnit}
    {p : Pattern} (h : Reads us p) : Reads (u :: us) (.ofUnit u :: p) := by
  rcases unit_cases hu with rfl | rfl | rfl | plain
  · rw [Directive.ofUnit_copy]
    exact .copy h
  · rw [Directive.ofUnit_drop]
    exact .drop h
  · rw [Directive.ofUnit_dropRest]
    exact .dropRest h
  · rw [ofUnit_of_ne_unit plain]
    exact .plain plain h

theorem reads_ofUnits (us : List TextUnit) : Reads us (ofUnits us) := by
  fun_induction ofUnits us with
  | case1 => exact .nil
  | case2 u =>
      by_cases hu : u = Control.escape.unit
      · subst hu
        rw [Directive.ofUnit_escape]
        exact .unfinished
      · exact reads_cons hu .nil
  | case3 v rest ih => exact .escaped v ih
  | case4 u v rest hu ih => exact reads_cons hu ih

/-- Units are read in exactly one way. -/
theorem reads_iff {us : List TextUnit} {p : Pattern} : Reads us p ↔ p = ofUnits us := by
  constructor
  · exact Reads.eq_ofUnits
  · rintro rfl
    exact reads_ofUnits us

/-- What is written stands in the units. -/
theorem mem_of_write_mem {us : List TextUnit} {u : TextUnit}
    (h : Directive.write u ∈ ofUnits us) : u ∈ us := by
  have reads := reads_ofUnits us
  generalize ofUnits us = p at h reads
  induction reads with
  | nil => simp at h
  | escaped v _ ih =>
      rcases List.mem_cons.1 h with e | h
      · simp [Directive.write.inj e]
      · simp [ih h]
  | unfinished => simp at h
  | copy _ ih => simp_all
  | drop _ ih => simp_all
  | dropRest _ ih => simp_all
  | plain _ _ ih =>
      rcases List.mem_cons.1 h with e | h
      · simp [Directive.write.inj e]
      · simp [ih h]

/-- An unfinished escape stands at the end. -/
theorem eq_dropLast_append_unfinished {us : List TextUnit}
    (h : Directive.unfinished ∈ ofUnits us) :
    ofUnits us = (ofUnits us).dropLast ++ [.unfinished] := by
  obtain ⟨before, after, split⟩ := List.append_of_mem h
  obtain rfl := eq_nil_of_unfinished split
  rw [split, List.dropLast_concat]

theorem unfinished_not_mem_dropLast (us : List TextUnit) :
    Directive.unfinished ∉ (ofUnits us).dropLast := by
  intro h
  -- Two of them would stand in the pattern, and nothing may follow the one in front.
  have last := eq_dropLast_append_unfinished (List.dropLast_subset _ h)
  obtain ⟨before, after, split⟩ := List.append_of_mem h
  have more : ofUnits us = before ++ .unfinished :: (after ++ [.unfinished]) := by
    rw [last, split, List.append_assoc, List.cons_append]
  simpa using eq_nil_of_unfinished more

/-- At most one escape is unfinished. -/
theorem count_unfinished_ofUnits (us : List TextUnit) :
    (ofUnits us).count .unfinished = if .unfinished ∈ ofUnits us then 1 else 0 := by
  by_cases h : Directive.unfinished ∈ ofUnits us
  · have before := List.count_eq_zero.2 (unfinished_not_mem_dropLast us)
    rw [if_pos h, eq_dropLast_append_unfinished h, List.count_append, before]
    rfl
  · rw [if_neg h, List.count_eq_zero.2 h]

/-! ## Two lists of units in a row -/

/-- Reading breaks where no escape waits for its unit. -/
theorem ofUnits_append {us : List TextUnit} (h : Directive.unfinished ∉ ofUnits us)
    (vs : List TextUnit) : ofUnits (us ++ vs) = ofUnits us ++ ofUnits vs := by
  fun_induction ofUnits us with
  | case1 => rfl
  | case2 u =>
      -- An escape here would be unfinished.
      have hu : u ≠ Control.escape.unit := by
        rintro rfl
        simp at h
      rw [List.singleton_append, ofUnits_cons hu, List.singleton_append]
  | case3 v rest ih =>
      have hr : Directive.unfinished ∉ ofUnits rest := by
        intro hr
        exact h (List.mem_cons_of_mem _ hr)
      rw [List.cons_append, List.cons_append, ofUnits_escape_cons, ih hr, List.cons_append]
  | case4 u v rest hu ih =>
      have hr : Directive.unfinished ∉ ofUnits (v :: rest) := by
        intro hr
        exact h (List.mem_cons_of_mem _ hr)
      rw [List.cons_append, ofUnits_cons hu, ih hr, List.cons_append]

/-- An escape that waits for its unit gets the first of the units that follow. -/
theorem ofUnits_append_unfinished {us : List TextUnit} (h : Directive.unfinished ∈ ofUnits us)
    (v : TextUnit) (vs : List TextUnit) :
    ofUnits (us ++ v :: vs) = (ofUnits us).dropLast ++ .write v :: ofUnits vs := by
  fun_induction ofUnits us with
  | case1 => simp at h
  | case2 u =>
      -- Here stands the escape that waits, and `v` is the unit that it gets.
      obtain rfl : u = Control.escape.unit :=
        Directive.ofUnit_eq_unfinished_iff.1 (List.mem_singleton.1 h).symm
      exact ofUnits_escape_cons v vs
  | case3 w rest ih =>
      have hr : Directive.unfinished ∈ ofUnits rest := by simpa using h
      have ne : ofUnits rest ≠ [] := List.ne_nil_of_mem hr
      rw [List.cons_append, List.cons_append, ofUnits_escape_cons, ih hr,
        List.dropLast_cons_of_ne_nil ne, List.cons_append]
  | case4 u w rest hu ih =>
      have hr : Directive.unfinished ∈ ofUnits (w :: rest) := by
        rcases List.mem_cons.1 h with e | hr
        · exact absurd (Directive.ofUnit_eq_unfinished_iff.1 e.symm) hu
        · exact hr
      have ne : ofUnits (w :: rest) ≠ [] := List.ne_nil_of_mem hr
      rw [List.cons_append, ofUnits_cons hu, ih hr, List.dropLast_cons_of_ne_nil ne,
        List.cons_append]

/-! ## Code point by code point -/

/-- Directive that writes its code points one by one. -/
def spreadOne : Directive → Pattern
  | .write u => u.toText.map fun c => .write (.single c)
  | d => [d]

/-- Pattern that writes its code points one by one. -/
def spread (p : Pattern) : Pattern := p.flatMap spreadOne

/-- Directives of the code points of a text, each read as a unit. -/
def ofCodePoints (t : Text) : Pattern := ofUnits (t.map .single)

@[simp] theorem spread_nil : spread [] = [] := rfl

@[simp] theorem spread_cons (d : Directive) (p : Pattern) :
    spread (d :: p) = spreadOne d ++ spread p := rfl

theorem mem_spreadOne {d e : Directive} (hd : d.isWrite = false) : d ∈ spreadOne e ↔ d = e := by
  cases e with
  | write u =>
      constructor
      · intro h
        obtain ⟨c, -, rfl⟩ := List.mem_map.1 h
        exact nomatch hd
      · rintro rfl
        exact nomatch hd
  | unfinished => exact List.mem_singleton
  | copy => exact List.mem_singleton
  | drop => exact List.mem_singleton
  | dropRest => exact List.mem_singleton

/-- What is no writing is not touched. -/
theorem mem_spread {d : Directive} (hd : d.isWrite = false) {p : Pattern} :
    d ∈ p.spread ↔ d ∈ p := by
  simp [spread, mem_spreadOne hd]

/-- Taking code points apart leaves what is no writing as it is, in its order. -/
theorem filter_spread {f : Directive → Bool} (hf : ∀ u, f (.write u) = false) (p : Pattern) :
    p.spread.filter f = p.filter f := by
  have one : ∀ d, (spreadOne d).filter f = [d].filter f := by
    intro d
    cases d with
    | write u => cases u <;> simp [spreadOne, hf]
    | unfinished => rfl
    | copy => rfl
    | drop => rfl
    | dropRest => rfl
  induction p with
  | nil => rfl
  | cons d p ih => rw [spread_cons, List.filter_append, ih, one, ← List.filter_append,
      List.singleton_append]

theorem countP_spread {f : Directive → Bool} (hf : ∀ u, f (.write u) = false) (p : Pattern) :
    p.spread.countP f = p.countP f := by
  rw [List.countP_eq_length_filter, filter_spread hf, ← List.countP_eq_length_filter]

/-- A surrogate is no control. -/
theorem ofUnits_surrogate {c : CodePoint} (hc : c.IsSurrogate) (us : List TextUnit) :
    ofUnits (.single c :: us) = .write (.single c) :: ofUnits us := by
  have plain : ∀ k : Control, TextUnit.single c ≠ k.unit :=
    Control.ne_unit_of_first_isSurrogate hc
  rw [ofUnits_cons (plain .escape), ofUnit_of_ne_unit plain]

/-- Behind an escape, the code points of a unit are all written. -/
theorem ofCodePoints_escape (u : TextUnit) (t : Text) :
    ofCodePoints (Control.escape.codePoint :: (u.toText ++ t)) =
      spreadOne (.write u) ++ ofCodePoints t := by
  cases u with
  | single c => exact ofUnits_escape_cons (.single c) _
  | pair high low s =>
      -- The escape takes the high surrogate only, and the low one stands for itself.
      refine (ofUnits_escape_cons (.single high) _).trans ?_
      exact congrArg _ (ofUnits_surrogate (Or.inr s.2) _)

/-- A unit that is no escape is read apart from what follows it. -/
theorem ofCodePoints_unit {u : TextUnit} (hu : u ≠ Control.escape.unit) (t : Text) :
    ofCodePoints (u.toText ++ t) = spreadOne (.ofUnit u) ++ ofCodePoints t := by
  cases u with
  | single c =>
      have one : spreadOne (.ofUnit (.single c)) = [.ofUnit (.single c)] := by
        rw [Directive.ofUnit]
        split <;> rfl
      rw [one]
      exact ofUnits_cons hu _
  | pair high low s =>
      refine (ofUnits_surrogate (Or.inl s.1) _).trans ?_
      exact congrArg _ (ofUnits_surrogate (Or.inr s.2) _)

/-- The code points of units have the directives of the units, one code point at a time. -/
theorem spread_ofUnits (us : List TextUnit) :
    (ofUnits us).spread = ofCodePoints (Text.ofUnits us) := by
  fun_induction ofUnits us with
  | case1 => exact ofUnits_nil.symm
  | case2 u =>
      by_cases hu : u = Control.escape.unit
      · subst hu
        show spread [.ofUnit Control.escape.unit] = ofUnits [Control.escape.unit]
        rw [ofUnits_singleton, Directive.ofUnit_escape]
        rfl
      · exact (ofCodePoints_unit hu []).symm
  | case3 v rest ih =>
      rw [spread_cons, ih, Text.ofUnits_cons, Text.ofUnits_cons]
      exact (ofCodePoints_escape v _).symm
  | case4 u v rest hu ih =>
      rw [spread_cons, ih, Text.ofUnits_cons u]
      exact (ofCodePoints_unit hu _).symm

theorem spread_ofText (t : Text) : (ofText t).spread = ofCodePoints t := by
  rw [ofText, spread_ofUnits, Text.ofUnits_units]

/-- An escape is unfinished among the units when it is among the code points. -/
theorem unfinished_mem_ofCodePoints {t : Text} :
    .unfinished ∈ ofCodePoints t ↔ .unfinished ∈ ofText t := by
  rw [← spread_ofText, mem_spread rfl]

/-- Two texts in a row are read one after the other, whatever surrogates meet between them. -/
theorem ofCodePoints_append {s : Text} (h : Directive.unfinished ∉ ofText s) (t : Text) :
    ofCodePoints (s ++ t) = ofCodePoints s ++ ofCodePoints t := by
  rw [ofCodePoints, List.map_append]
  exact ofUnits_append (mt unfinished_mem_ofCodePoints.1 h) _

/-- The unit behind an unfinished escape is written. -/
theorem ofCodePoints_append_unfinished {s : Text} (h : Directive.unfinished ∈ ofText s)
    (u : TextUnit) :
    ofCodePoints (s ++ u.toText) = (ofCodePoints s).dropLast ++ spreadOne (.write u) := by
  have waits := unfinished_mem_ofCodePoints.2 h
  rw [ofCodePoints, List.map_append]
  cases u with
  | single c => exact ofUnits_append_unfinished waits (.single c) []
  | pair high low sur =>
      refine (ofUnits_append_unfinished waits (.single high) [.single low]).trans ?_
      rw [ofUnits_surrogate (Or.inr sur.2), ofUnits_nil]
      rfl

/-- The unit behind an unfinished escape finishes it. -/
theorem unfinished_not_mem_append {s : Text} (h : Directive.unfinished ∈ ofText s)
    (u : TextUnit) : Directive.unfinished ∉ ofText (s ++ u.toText) := by
  rw [← unfinished_mem_ofCodePoints, ofCodePoints_append_unfinished h, List.mem_append]
  rintro (before | here)
  · exact unfinished_not_mem_dropLast _ before
  · exact nomatch (mem_spreadOne rfl).1 here

end Pattern

/-! ## The summary -/

namespace Text

variable {t : Text}

theorem summary_unfinished : t.summary.unfinished = true ↔ .unfinished ∈ Pattern.ofText t :=
  List.contains_iff_mem

theorem summary_dropsRest : t.summary.dropsRest = true ↔ .dropRest ∈ Pattern.ofText t :=
  List.contains_iff_mem

theorem summary_unfinished_eq_false :
    t.summary.unfinished = false ↔ .unfinished ∉ Pattern.ofText t := by
  rw [← summary_unfinished, Bool.not_eq_true]

theorem summary_dropsRest_eq_false :
    t.summary.dropsRest = false ↔ .dropRest ∉ Pattern.ofText t := by
  rw [← summary_dropsRest, Bool.not_eq_true]

theorem summary_consumed :
    t.summary.consumed = (Pattern.ofText t).countP Directive.takesUnit :=
  Pattern.consumed_summary (Pattern.ofText t)

end Text

end Stencil
