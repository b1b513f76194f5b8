/-!
# Hexadecimal digits

Digits of a number to the base sixteen, with zeros in front up to a least width.
-/

namespace Stencil.Hexadecimal

/-- Digits of a number, in small letters. -/
def lower (width n : Nat) : List Char := (Nat.toDigits 16 n).leftpad width '0'

/-- Digits of a number, in capital letters. -/
def upper (width n : Nat) : List Char := (lower width n).map Char.toUpper

example : String.ofList (lower 2 10) = "0a" ∧ String.ofList (upper 4 0x1F648) = "1F648" := by
  decide

end Stencil.Hexadecimal
