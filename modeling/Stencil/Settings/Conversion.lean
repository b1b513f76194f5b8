import Stencil.Settings.Error

/-!
# Conversion of values to mappings

Settings are loaded from the mapping that a value stands for. A value that counts as false stands
for the empty mapping and a dictionary for itself. Any other value has to be a sequence of pairs
of a key and a value; the first element that is not one decides the error
(`pairsFrom_append_of_ok`, `pairsFrom_append_of_error`).
-/

namespace Stencil.Settings

/-- Key and value of the element with number `i` of a sequence of pairs. -/
def pair (i : Nat) (v : Value) : Except LoadError (Key × Value) :=
  match v.elements? with
  | none => .error (.elementNotSequence i)
  | some [k, w] =>
    match k.toKey with
    | .ok key => .ok (key, w)
    | .error kind => .error (.notKey kind)
  | some vs => .error (.elementLength i vs.length)

/-- Pairs of the elements of a sequence, the first of which has the number `i`. -/
def pairsFrom (i : Nat) : List Value → Except LoadError (List (Key × Value))
  | [] => .ok []
  | v :: vs =>
    match pair i v with
    | .error e => .error e
    | .ok entry =>
      match pairsFrom (i + 1) vs with
      | .error e => .error e
      | .ok entries => .ok (entry :: entries)

/-- Mapping made of the elements of a value that is no dictionary. -/
def ofElements (v : Value) : Except LoadError (Mapping Value) :=
  match v.elements? with
  | none => .error (.noElements v.kind)
  | some vs =>
    match pairsFrom 0 vs with
    | .error e => .error e
    | .ok entries => .ok (.ofList entries)

/-- Mapping that a value stands for. -/
def mappingOf (v : Value) : Except LoadError (Mapping Value) :=
  if v.truth then
    match v with
    | .dict entries => .ok (.ofList entries)
    | v => ofElements v
  else .ok .empty

/-! ## The first fault decides -/

theorem pairsFrom_cons_eq_ok_iff {i : Nat} {v : Value} {vs : List Value}
    {es : List (Key × Value)} :
    pairsFrom i (v :: vs) = .ok es ↔
      ∃ entry entries, pair i v = .ok entry ∧ pairsFrom (i + 1) vs = .ok entries ∧
        entry :: entries = es := by
  rw [pairsFrom]
  cases pair i v with
  | error e => simp
  | ok entry => cases pairsFrom (i + 1) vs <;> simp

theorem pairsFrom_cons_eq_error_iff {i : Nat} {v : Value} {vs : List Value} {e : LoadError} :
    pairsFrom i (v :: vs) = .error e ↔
      pair i v = .error e ∨ ∃ entry, pair i v = .ok entry ∧ pairsFrom (i + 1) vs = .error e := by
  rw [pairsFrom]
  cases pair i v with
  | error e => simp
  | ok entry => cases pairsFrom (i + 1) vs <;> simp

theorem pairsFrom_append_of_error {i : Nat} {vs : List Value} {e : LoadError}
    (h : pairsFrom i vs = .error e) (ws : List Value) : pairsFrom i (vs ++ ws) = .error e := by
  induction vs generalizing i with
  | nil => simp [pairsFrom] at h
  | cons v vs ih =>
    rw [List.cons_append, pairsFrom_cons_eq_error_iff]
    rcases pairsFrom_cons_eq_error_iff.1 h with first | ⟨entry, first, others⟩
    · exact Or.inl first
    · exact Or.inr ⟨entry, first, ih others⟩

theorem pairsFrom_append_of_ok {i : Nat} {vs : List Value} {entries : List (Key × Value)}
    (h : pairsFrom i vs = .ok entries) (ws : List Value) :
    pairsFrom i (vs ++ ws) = (pairsFrom (i + vs.length) ws).map (entries ++ ·) := by
  induction vs generalizing i entries with
  | nil =>
    obtain rfl : [] = entries := Except.ok.inj h
    rw [List.nil_append, List.length_nil, Nat.add_zero]
    cases pairsFrom i ws <;> rfl
  | cons v vs ih =>
    obtain ⟨entry, rest, first, others, rfl⟩ := pairsFrom_cons_eq_ok_iff.1 h
    -- Both sides number the elements of the second part in the same way.
    have number : i + 1 + vs.length = i + (v :: vs).length := by
      rw [List.length_cons]
      omega
    rw [List.cons_append, pairsFrom, first, ih others, number]
    cases pairsFrom (i + (v :: vs).length) ws <;> rfl

end Stencil.Settings
