import Stencil.Text.Basic

/-!
# Words for switches

A switch may be named by one of ten words, in capital or small letters. Capital letters are lowered
in ASCII only, which is enough: no other code point has the lower-case form of a letter of these
words.
-/

namespace Stencil

/-- Code point with a capital ASCII letter made small. -/
def CodePoint.lowered (c : CodePoint) : CodePoint :=
  match c.toChar? with
  | some ch => .ofChar ch.toLower
  | none => c

/-- Text with its capital ASCII letters made small. -/
def Text.lowered (t : Text) : Text := t.map CodePoint.lowered

namespace Switch

/-- Words for on. -/
def onWords : List Text := ["1", "true", "yes", "on", "enable"].map Text.ofString

/-- Words for off. -/
def offWords : List Text := ["0", "false", "no", "off", "disable"].map Text.ofString

end Switch

end Stencil
