/-!
# Binary floating-point numbers

A double-precision number is given by its 64 bits: a sign, eleven bits of exponent and 52 bits of
fraction. Its value is a significand times a power of two, or an infinity, or NaN. Equal
values have equal bits, the two zeros apart; whether a value is an integer is decided exactly
(`toInt?`).
-/

namespace Stencil

/-- Double-precision number. -/
structure Binary64 where
  bits : UInt64
  deriving DecidableEq

namespace Binary64

/-! ## Fields -/

/-- Sign bit. -/
def negative (x : Binary64) : Bool := Nat.pow 2 63 ≤ x.bits.toNat

/-- Eleven bits of exponent. -/
def exponentField (x : Binary64) : Nat := x.bits.toNat / Nat.pow 2 52 % Nat.pow 2 11

/-- Fifty-two bits of fraction. -/
def fractionField (x : Binary64) : Nat := x.bits.toNat % Nat.pow 2 52

/-! ## Classes -/

/-- Infinities and NaN, which have no finite value. -/
def isSpecial (x : Binary64) : Bool := x.exponentField == 2047

/-- NaN, the result of an operation without a value. -/
def isNaN (x : Binary64) : Bool := x.isSpecial && x.fractionField != 0

/-- Infinities. -/
def isInfinite (x : Binary64) : Bool := x.isSpecial && x.fractionField == 0

/-- The two zeros. -/
def isZero (x : Binary64) : Bool := x.exponentField == 0 && x.fractionField == 0

/-! ## Value -/

/-- Integer that the value is a multiple of a power of two by. A number with an exponent field of
zero has no leading one. -/
def significand (x : Binary64) : Nat :=
  if x.exponentField = 0 then x.fractionField else Nat.pow 2 52 + x.fractionField

/-- Exponent of the power of two. -/
def exponent (x : Binary64) : Int :=
  if x.exponentField = 0 then -1074 else (x.exponentField : Int) - 1075

/-- Magnitude of a finite value if it is an integer. -/
def toNat? (x : Binary64) : Option Nat :=
  match x.exponent with
  | .ofNat q => some (x.significand * Nat.pow 2 q)
  | .negSucc p =>
    let q := Nat.pow 2 (p + 1)
    if x.significand % q = 0 then some (x.significand / q) else none

/-- Value if it is an integer. -/
def toInt? (x : Binary64) : Option Int :=
  if x.isSpecial then none
  else x.toNat?.map fun n => if x.negative then -(n : Int) else n

example : toInt? ⟨0x3FF0000000000000⟩ = some 1 ∧ toInt? ⟨0x8000000000000000⟩ = some 0 ∧
    toInt? ⟨0xC008000000000000⟩ = some (-3) ∧ toInt? ⟨0x3FF8000000000000⟩ = none := by
  decide +kernel

end Binary64

end Stencil
