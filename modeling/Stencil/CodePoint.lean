/-!
# Code points

A code point is a number below `0x110000`. The surrogates belong to it, so a text can hold a
surrogate that stands alone, which a `Char` cannot. The two surrogate ranges are disjoint
(`not_isLow_of_isHigh`), and a character is never a surrogate (`not_isSurrogate_ofChar`).
-/

namespace Stencil

/-- Code point, surrogates included. -/
structure CodePoint where
  toNat : Nat
  isLt : toNat < 0x110000
  deriving DecidableEq

namespace CodePoint

/-! ## Numbers and characters -/

theorem ext {a b : CodePoint} (h : a.toNat = b.toNat) : a = b := by
  cases a; cases b; cases h; rfl

theorem toNat_inj {a b : CodePoint} : a.toNat = b.toNat ↔ a = b :=
  ⟨ext, fun h => h ▸ rfl⟩

/-- Code point of a number in range. -/
def ofNat? (n : Nat) : Option CodePoint :=
  if h : n < 0x110000 then some ⟨n, h⟩ else none

/-- Code point of a character. -/
def ofChar (c : Char) : CodePoint :=
  ⟨c.toNat, by
    have h : c.toNat < 0xD800 ∨ 0xDFFF < c.toNat ∧ c.toNat < 0x110000 := c.valid
    omega⟩

@[simp] theorem toNat_ofChar (c : Char) : (ofChar c).toNat = c.toNat := rfl

theorem ofChar_inj {a b : Char} : ofChar a = ofChar b ↔ a = b :=
  ⟨fun h => Char.toNat_inj.1 (congrArg toNat h), fun h => h ▸ rfl⟩

/-- Character of a code point; a surrogate has none. -/
def toChar? (c : CodePoint) : Option Char :=
  if h : c.toNat.isValidChar then some (Char.ofNatAux c.toNat h) else none

@[simp] theorem toChar?_ofChar (c : Char) : (ofChar c).toChar? = some c := by
  have h : (ofChar c).toNat.isValidChar := c.valid
  rw [toChar?, dif_pos h]
  rfl

/-! ## Surrogates -/

/-- First high surrogate. -/
def highFirst : Nat := 0xD800

/-- Last high surrogate. -/
def highLast : Nat := 0xDBFF

/-- First low surrogate. -/
def lowFirst : Nat := 0xDC00

/-- Last low surrogate. -/
def lowLast : Nat := 0xDFFF

/-- High surrogates, the leading halves of pairs. -/
def IsHigh (c : CodePoint) : Prop := highFirst ≤ c.toNat ∧ c.toNat ≤ highLast

/-- Low surrogates, the trailing halves of pairs. -/
def IsLow (c : CodePoint) : Prop := lowFirst ≤ c.toNat ∧ c.toNat ≤ lowLast

/-- Halves of pairs. -/
def IsSurrogate (c : CodePoint) : Prop := c.IsHigh ∨ c.IsLow

instance (c : CodePoint) : Decidable c.IsHigh :=
  inferInstanceAs (Decidable (_ ∧ _))

instance (c : CodePoint) : Decidable c.IsLow :=
  inferInstanceAs (Decidable (_ ∧ _))

instance (c : CodePoint) : Decidable c.IsSurrogate :=
  inferInstanceAs (Decidable (_ ∨ _))

theorem isHigh_iff {c : CodePoint} : c.IsHigh ↔ 0xD800 ≤ c.toNat ∧ c.toNat ≤ 0xDBFF := Iff.rfl

theorem isLow_iff {c : CodePoint} : c.IsLow ↔ 0xDC00 ≤ c.toNat ∧ c.toNat ≤ 0xDFFF := Iff.rfl

theorem isSurrogate_iff {c : CodePoint} :
    c.IsSurrogate ↔ 0xD800 ≤ c.toNat ∧ c.toNat ≤ 0xDFFF := by
  rw [IsSurrogate, isHigh_iff, isLow_iff]
  omega

/-- No code point is both halves of a pair. -/
theorem not_isLow_of_isHigh {c : CodePoint} (h : c.IsHigh) : ¬ c.IsLow := by
  rw [isHigh_iff] at h
  rw [isLow_iff]
  omega

/-- A character is never a surrogate. -/
theorem not_isSurrogate_ofChar (c : Char) : ¬ (ofChar c).IsSurrogate := by
  have h : c.toNat < 0xD800 ∨ 0xDFFF < c.toNat ∧ c.toNat < 0x110000 := c.valid
  rw [isSurrogate_iff, toNat_ofChar]
  omega

end CodePoint

end Stencil
