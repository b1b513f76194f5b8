import Stencil.Text.TextUnit

/-!
# Control characters of a pattern

Four characters of a pattern act, and every other unit stands for itself. A pair is never a
control character, and a single code point is one exactly when it is the code point of a control
(`ofUnit?_eq_some_iff`).
-/

namespace Stencil

/-- What a control character asks for. -/
inductive Control where
  | dropRest
  | drop
  | escape
  | copy
  deriving DecidableEq

namespace Control

/-- The controls in the order of their code points. -/
def all : List Control := [dropRest, drop, escape, copy]

/-- Character of a control. -/
def toChar : Control → Char
  | dropRest => '!'
  | drop => '#'
  | escape => '\\'
  | copy => '_'

/-- Code point of a control. -/
def codePoint (k : Control) : CodePoint := .ofChar k.toChar

/-- Unit of a control. -/
def unit (k : Control) : TextUnit := .single k.codePoint

/-- Control with a given code point. -/
def ofCodePoint? (c : CodePoint) : Option Control := all.find? fun k => k.codePoint = c

/-- Control with a given unit. -/
def ofUnit? : TextUnit → Option Control
  | .single c => ofCodePoint? c
  | .pair _ _ _ => none

theorem toChar_inj {k l : Control} : k.toChar = l.toChar ↔ k = l := by
  cases k <;> cases l <;> decide

theorem codePoint_inj {k l : Control} : k.codePoint = l.codePoint ↔ k = l :=
  CodePoint.ofChar_inj.trans toChar_inj

theorem unit_inj {k l : Control} : k.unit = l.unit ↔ k = l := by
  rw [unit, unit, TextUnit.single.injEq, codePoint_inj]

theorem ofCodePoint?_eq_some_iff {c : CodePoint} {k : Control} :
    ofCodePoint? c = some k ↔ c = k.codePoint := by
  constructor
  · intro h
    rw [ofCodePoint?] at h
    have found := List.find?_some h
    exact (of_decide_eq_true found).symm
  · rintro rfl
    cases k <;> decide

theorem ofUnit?_eq_some_iff {u : TextUnit} {k : Control} : ofUnit? u = some k ↔ u = k.unit := by
  cases u with
  | single c => rw [ofUnit?, ofCodePoint?_eq_some_iff, unit, TextUnit.single.injEq]
  | pair h l s => simp [ofUnit?, unit]

@[simp] theorem ofUnit?_unit (k : Control) : ofUnit? k.unit = some k :=
  ofUnit?_eq_some_iff.2 rfl

/-- No control character is a surrogate. -/
theorem not_isSurrogate_codePoint (k : Control) : ¬ k.codePoint.IsSurrogate :=
  CodePoint.not_isSurrogate_ofChar k.toChar

theorem ofCodePoint?_of_isSurrogate {c : CodePoint} (h : c.IsSurrogate) :
    ofCodePoint? c = none := by
  apply Option.eq_none_iff_forall_ne_some.2
  rintro k hk
  obtain rfl := ofCodePoint?_eq_some_iff.1 hk
  exact k.not_isSurrogate_codePoint h

/-- Neither a surrogate nor a pair of them is the unit of a control. -/
theorem ne_unit_of_first_isSurrogate {u : TextUnit} (h : u.first.IsSurrogate) (k : Control) :
    u ≠ k.unit := by
  rintro rfl
  exact k.not_isSurrogate_codePoint h

end Control

/-- Unit written in place of one that is missing. -/
def TextUnit.marker : TextUnit := .single (.ofChar '?')

end Stencil
