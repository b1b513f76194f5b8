import Stencil.Text.Basic

/-!
# Units of a text

A unit is one code point, or a high surrogate together with the low surrogate directly after it.
`Text.units` reads the units of a text from the left, and `Text.ofUnits` puts them together again:
`ofUnits_units` says that nothing is lost. A surrogate without its partner is a unit of its own.
-/

namespace Stencil

/-- One code point, or the two halves of a surrogate pair. -/
inductive TextUnit where
  | single (c : CodePoint)
  | pair (high low : CodePoint) (surrogates : high.IsHigh ∧ low.IsLow)
  deriving DecidableEq

namespace TextUnit

/-- Code points of a unit. -/
def toText : TextUnit → Text
  | single c => [c]
  | pair high low _ => [high, low]

/-- First code point of a unit. -/
def first : TextUnit → CodePoint
  | single c => c
  | pair high _ _ => high

/-- Pairs of surrogates. -/
def isPair : TextUnit → Bool
  | single _ => false
  | pair _ _ _ => true

/-- Number of code points of a unit. -/
def width (u : TextUnit) : Nat := u.toText.length

@[simp] theorem toText_single (c : CodePoint) : (single c).toText = [c] := rfl

@[simp] theorem toText_pair (h l : CodePoint) (s : h.IsHigh ∧ l.IsLow) :
    (pair h l s).toText = [h, l] := rfl

theorem head?_toText (u : TextUnit) : u.toText.head? = some u.first := by
  cases u <;> rfl

/-- A unit is a pair exactly when it holds two code points. -/
theorem isPair_iff_width {u : TextUnit} : u.isPair = true ↔ u.width = 2 := by
  cases u <;> simp [isPair, width]

/-- Two units with the same code points are the same unit. -/
theorem toText_inj {u v : TextUnit} : u.toText = v.toText ↔ u = v := by
  cases u <;> cases v <;> simp

end TextUnit

namespace Text

/-- Units of a text, from the left. A high surrogate takes the low surrogate directly after it. -/
def units : Text → List TextUnit
  | [] => []
  | [c] => [.single c]
  | c :: d :: rest =>
    if h : c.IsHigh ∧ d.IsLow then .pair c d h :: units rest else .single c :: units (d :: rest)

/-- Text of a list of units. -/
def ofUnits (us : List TextUnit) : Text := us.flatMap TextUnit.toText

/-! ## Equations -/

@[simp] theorem units_nil : units [] = [] := by
  rw [units]

@[simp] theorem units_singleton (c : CodePoint) : units [c] = [.single c] := by
  rw [units]

theorem units_pair {c d : CodePoint} (h : c.IsHigh ∧ d.IsLow) (rest : Text) :
    units (c :: d :: rest) = .pair c d h :: units rest := by
  rw [units, dif_pos h]

theorem units_single {c d : CodePoint} (h : ¬ (c.IsHigh ∧ d.IsLow)) (rest : Text) :
    units (c :: d :: rest) = .single c :: units (d :: rest) := by
  rw [units, dif_neg h]

@[simp] theorem ofUnits_nil : ofUnits [] = [] := rfl

@[simp] theorem ofUnits_cons (u : TextUnit) (us : List TextUnit) :
    ofUnits (u :: us) = u.toText ++ ofUnits us := rfl

@[simp] theorem ofUnits_append (us vs : List TextUnit) :
    ofUnits (us ++ vs) = ofUnits us ++ ofUnits vs := List.flatMap_append

/-! ## Nothing is lost -/

@[simp] theorem ofUnits_units (t : Text) : ofUnits t.units = t := by
  fun_induction units t with
  | case1 => rfl
  | case2 c => rfl
  | case3 c d rest h ih => simp [ih]
  | case4 c d rest h ih => simp [ih]

theorem units_inj {s t : Text} : s.units = t.units ↔ s = t :=
  ⟨fun h => by rw [← ofUnits_units s, h, ofUnits_units], fun h => h ▸ rfl⟩

@[simp] theorem units_eq_nil_iff {t : Text} : t.units = [] ↔ t = [] := by
  rw [← units_nil, units_inj]

end Text

end Stencil
