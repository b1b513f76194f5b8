import Stencil.CodePoint

/-!
# Text

A text is a list of code points. The one-element text of a supplementary code point and the
two-element text of its surrogates are different texts. Every string is a text
(`toString?_ofString`), and a text with a surrogate is not a string.
-/

namespace Stencil

/-- Sequence of code points. -/
abbrev Text := List CodePoint

namespace Text

/-- Text of the characters of a string. -/
def ofString (s : String) : Text := s.toList.map CodePoint.ofChar

/-- String of a text; there is none when a surrogate occurs. -/
def toString? (t : Text) : Option String := (t.mapM CodePoint.toChar?).map String.ofList

theorem mapM_toChar?_map_ofChar (cs : List Char) :
    (cs.map CodePoint.ofChar).mapM CodePoint.toChar? = some cs := by
  induction cs with
  | nil => rfl
  | cons c cs ih => simp [ih]

@[simp] theorem toString?_ofString (s : String) : toString? (ofString s) = some s := by
  rw [toString?, ofString, mapM_toChar?_map_ofChar]
  simp

end Text

end Stencil
