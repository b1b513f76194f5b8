import Stencil.Number.Shortest
import Stencil.Text.Quoted

/-!
# Keys

A key of a mapping is null, a boolean, a number, a text, bytes, or a tuple of keys. Keys of equal
value are the same key, however they are written: a boolean is the integer 0 or 1, and a
floating-point number with an integral value is that integer. A NaN is the same as no key, itself
included, and so is a tuple that holds one (`same_self_iff`).
-/

namespace Stencil

/-- Key of a mapping. -/
inductive Key where
  | null
  | bool (b : Bool)
  | int (n : Int)
  | float (x : Binary64)
  | text (t : Text)
  | bytes (bs : List UInt8)
  | tuple (ks : List Key)

namespace Key

/-! ## Equality of keys as they are written -/

mutual

/-- Decides whether two keys are written in the same way. -/
def decEq : (k l : Key) → Decidable (k = l)
  | null, null => .isTrue rfl
  | bool a, bool b => decidable_of_iff (a = b) (by simp)
  | int m, int n => decidable_of_iff (m = n) (by simp)
  | float x, float y => decidable_of_iff (x = y) (by simp)
  | text s, text t => decidable_of_iff (s = t) (by simp)
  | bytes bs, bytes cs => decidable_of_iff (bs = cs) (by simp)
  | tuple ks, tuple ls =>
    match decEqList ks ls with
    | .isTrue h => .isTrue (by rw [h])
    | .isFalse h => .isFalse (by simp [h])
  | null, bool _ | null, int _ | null, float _ | null, text _ | null, bytes _ | null, tuple _
  | bool _, null | bool _, int _ | bool _, float _ | bool _, text _ | bool _, bytes _
  | bool _, tuple _
  | int _, null | int _, bool _ | int _, float _ | int _, text _ | int _, bytes _ | int _, tuple _
  | float _, null | float _, bool _ | float _, int _ | float _, text _ | float _, bytes _
  | float _, tuple _
  | text _, null | text _, bool _ | text _, int _ | text _, float _ | text _, bytes _
  | text _, tuple _
  | bytes _, null | bytes _, bool _ | bytes _, int _ | bytes _, float _ | bytes _, text _
  | bytes _, tuple _
  | tuple _, null | tuple _, bool _ | tuple _, int _ | tuple _, float _ | tuple _, text _
  | tuple _, bytes _ => .isFalse (by simp)

/-- Decides whether two lists of keys are written in the same way. -/
def decEqList : (ks ls : List Key) → Decidable (ks = ls)
  | [], [] => .isTrue rfl
  | [], _ :: _ => .isFalse (by simp)
  | _ :: _, [] => .isFalse (by simp)
  | k :: ks, l :: ls =>
    match decEq k l with
    | .isFalse h => .isFalse (by simp [h])
    | .isTrue h =>
      match decEqList ks ls with
      | .isTrue hs => .isTrue (by rw [h, hs])
      | .isFalse hs => .isFalse (by simp [hs])

end

instance : DecidableEq Key := decEq

/-! ## Sameness -/

mutual

/-- One way of writing for all keys of equal value: numbers with an integral value as integers. A
key that holds a NaN has none. -/
def canonical? : Key → Option Key
  | null => some null
  | bool b => some (int (if b then 1 else 0))
  | int n => some (int n)
  | float x =>
    if x.isNaN then none
    else match x.toInt? with
      | some n => some (int n)
      | none => some (float x)
  | text t => some (text t)
  | bytes bs => some (bytes bs)
  | tuple ks =>
    match canonicals? ks with
    | some ls => some (tuple ls)
    | none => none

/-- The canonical forms of the members of a tuple. -/
def canonicals? : List Key → Option (List Key)
  | [] => some []
  | k :: ks =>
    match canonical? k, canonicals? ks with
    | some l, some ls => some (l :: ls)
    | _, _ => none

end

/-- Keys that stand for one another. -/
def Same (k l : Key) : Prop := k.canonical?.isSome ∧ k.canonical? = l.canonical?

instance (k l : Key) : Decidable (k.Same l) := inferInstanceAs (Decidable (_ ∧ _))

theorem Same.symm {k l : Key} (h : k.Same l) : l.Same k := ⟨h.2 ▸ h.1, h.2.symm⟩

theorem Same.trans {k l m : Key} (h : k.Same l) (h' : l.Same m) : k.Same m :=
  ⟨h.1, h.2.trans h'.2⟩

/-- A key is the same as itself unless it holds a NaN. -/
theorem same_self_iff {k : Key} : k.Same k ↔ k.canonical?.isSome :=
  ⟨And.left, fun h => ⟨h, rfl⟩⟩

@[simp] theorem same_text (t : Text) : (text t).Same (text t) := ⟨rfl, rfl⟩

/-- A text is the same key as an equal text only. -/
theorem same_text_iff {k : Key} {t : Text} : k.Same (.text t) ↔ k = .text t := by
  constructor
  · rintro ⟨-, same⟩
    cases k with
    | text s => simpa [canonical?] using same
    | float x =>
      simp only [canonical?] at same
      split at same
      · cases same
      · split at same <;> cases same
    | tuple ks =>
      simp only [canonical?] at same
      split at same <;> cases same
    | _ => cases same
  · rintro rfl
    exact same_text t

/-! ## Quoted form -/

mutual

/-- Form of a key in a path. -/
def quoted (printable : CodePoint → Bool) : Key → String
  | null => "None"
  | bool true => "True"
  | bool false => "False"
  | int n => toString n
  | float x => x.text
  | text t => t.quoted printable
  | bytes bs => Quoted.bytes bs
  | tuple [] => "()"
  | tuple [k] => "(" ++ quoted printable k ++ ",)"
  | tuple (k :: ks) => "(" ++ quoted printable k ++ quotedRest printable ks ++ ")"

/-- Forms of the members of a tuple after the first one. -/
def quotedRest (printable : CodePoint → Bool) : List Key → String
  | [] => ""
  | k :: ks => ", " ++ quoted printable k ++ quotedRest printable ks

end

end Key

end Stencil
