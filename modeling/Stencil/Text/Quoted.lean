import Stencil.Text.Basic
import Stencil.Text.Hexadecimal

/-!
# Quoted form of texts and bytes

A quoted form stands between single quotes, or between double quotes when the content has a single
quote and no double one. The quote and the backslash are written behind a backslash, the usual
white space by its letter, and what cannot be seen by its number: two digits below 2 ^ 8, four below
2 ^ 16, and eight above. The form is free of surrogates, so it is a string.

Which code points above Latin-1 can be seen is a matter of the version of the character tables, so
it is a parameter.
-/

namespace Stencil.Quoted

/-- Quote at both ends of a content. -/
def mark (content : List CodePoint) : Char :=
  if .ofChar '\'' ∈ content ∧ .ofChar '"' ∉ content then '"' else '\''

/-- Code points of a text that are written as they are. In Latin-1, the control characters and the
two blanks without a mark are not. Of the others, `printable` tells which are. -/
def visibleInText (printable : CodePoint → Bool) (c : CodePoint) : Bool :=
  if c.toNat < 0x100 then
    0x20 ≤ c.toNat && !(0x7F ≤ c.toNat && c.toNat ≤ 0xA0) && c.toNat != 0xAD
  else printable c

/-- Bytes that are written as they are. -/
def visibleInBytes (c : CodePoint) : Bool := 0x20 ≤ c.toNat && c.toNat ≤ 0x7E

/-- Letter of a white space character behind a backslash. -/
def letter? : Char → Option Char
  | '\n' => some 'n'
  | '\r' => some 'r'
  | '\t' => some 't'
  | _ => none

/-- Form of a code point by its number. -/
def numbered (c : CodePoint) : List Char :=
  if c.toNat < 0x100 then '\\' :: 'x' :: Hexadecimal.lower 2 c.toNat
  else if c.toNat < 0x10000 then '\\' :: 'u' :: Hexadecimal.lower 4 c.toNat
  else '\\' :: 'U' :: Hexadecimal.lower 8 c.toNat

/-- Form of one code point between the quotes. A surrogate is no character and has its number. -/
def codePoint (quote : Char) (visible : CodePoint → Bool) (c : CodePoint) : List Char :=
  match c.toChar? with
  | none => numbered c
  | some ch =>
    if ch = quote ∨ ch = '\\' then ['\\', ch]
    else match letter? ch with
      | some l => ['\\', l]
      | none => if visible c then [ch] else numbered c

/-- Content between its quotes. -/
def enclosed (visible : CodePoint → Bool) (content : List CodePoint) : List Char :=
  let quote := mark content
  quote :: content.flatMap (codePoint quote visible) ++ [quote]

end Quoted

/-- Quoted form of a text. -/
def Text.quoted (printable : CodePoint → Bool) (t : Text) : String :=
  String.ofList (Quoted.enclosed (Quoted.visibleInText printable) t)

example : Text.quoted (fun _ => false) [.ofChar '\'', .ofChar '\n', ⟨0x200B, by decide⟩,
    ⟨0xD83D, by decide⟩, ⟨0xE0001, by decide⟩] = "\"'\\n\\u200b\\ud83d\\U000e0001\"" := by
  decide

/-- Code point with the number of a byte. -/
def CodePoint.ofByte (b : UInt8) : CodePoint :=
  ⟨b.toNat, Nat.lt_trans b.toNat_lt (by decide)⟩

/-- Quoted form of bytes. -/
def Quoted.bytes (bs : List UInt8) : String :=
  String.ofList ('b' :: enclosed visibleInBytes (bs.map CodePoint.ofByte))

end Stencil
