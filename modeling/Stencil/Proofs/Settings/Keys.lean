import Stencil.Settings.Value

/-!
# Keys of values

A value can be a key exactly when it is the value of one (`toKey_eq_ok_iff`). Any other value has a
part that is to blame (`toKey_eq_error_iff`): a list, a set or a dictionary, in tuples at any depth.
-/

namespace Stencil.Value

/-! ## Values of keys -/

mutual

theorem eq_ofKey_of_toKey {v : Value} {k : Key} (h : v.toKey = .ok k) : v = ofKey k := by
  cases v with
  | tuple vs =>
      obtain ⟨ks, members, rfl⟩ := toKey_tuple_eq_ok_iff.1 h
      rw [ofKey, ← eq_ofKeys_of_toKeys members]
  | list vs => cases h
  | set members => cases h
  | dict entries => cases h
  | _ => cases h; rfl

theorem eq_ofKeys_of_toKeys {vs : List Value} {ks : List Key} (h : toKeys vs = .ok ks) :
    vs = ofKeys ks := by
  cases vs with
  | nil => cases h; rfl
  | cons v vs =>
      obtain ⟨l, ls, first, others, rfl⟩ := toKeys_cons_eq_ok_iff.1 h
      rw [ofKeys, ← eq_ofKey_of_toKey first, ← eq_ofKeys_of_toKeys others]

end

/-- A value is the key `k` exactly when it is the value of `k`. -/
theorem toKey_eq_ok_iff {v : Value} {k : Key} : v.toKey = .ok k ↔ v = ofKey k := by
  constructor
  · exact eq_ofKey_of_toKey
  · rintro rfl
    exact toKey_ofKey k

/-! ## Values that are no keys -/

/-- Values that cannot be keys, with the kind of the first part that is to blame: lists, sets and
dictionaries, and tuples that have such a part behind members that can be keys. -/
inductive NotKey : Value → Kind → Prop
  | list (vs : List Value) : NotKey (.list vs) .list
  | set (members : List Key) : NotKey (.set members) .set
  | dict (entries : List (Key × Value)) : NotKey (.dict entries) .dict
  | tuple (ks : List Key) {v : Value} (vs : List Value) {kind : Kind} :
      NotKey v kind → NotKey (.tuple (ofKeys ks ++ v :: vs)) kind

mutual

theorem notKey_of_toKey {v : Value} {kind : Kind} (h : v.toKey = .error kind) :
    NotKey v kind := by
  cases v with
  | tuple vs =>
      obtain ⟨ks, w, ws, rfl, notKey⟩ :=
        exists_notKey_of_toKeys (toKey_tuple_eq_error_iff.1 h)
      exact .tuple ks ws notKey
  | list vs => cases h; exact .list vs
  | set members => cases h; exact .set members
  | dict entries => cases h; exact .dict entries
  | _ => cases h

theorem exists_notKey_of_toKeys {vs : List Value} {kind : Kind} (h : toKeys vs = .error kind) :
    ∃ ks w ws, vs = ofKeys ks ++ w :: ws ∧ NotKey w kind := by
  cases vs with
  | nil => cases h
  | cons v vs =>
      rcases toKeys_cons_eq_error_iff.1 h with first | ⟨k, first, others⟩
      · exact ⟨[], v, vs, rfl, notKey_of_toKey first⟩
      · -- The first member is one more key in front of the part to blame.
        obtain ⟨ks, w, ws, rfl, notKey⟩ := exists_notKey_of_toKeys others
        refine ⟨k :: ks, w, ws, ?_, notKey⟩
        rw [ofKeys, ← toKey_eq_ok_iff.1 first, List.cons_append]

end

/-- A value is no key exactly when there is a part to blame. -/
theorem toKey_eq_error_iff {v : Value} {kind : Kind} : v.toKey = .error kind ↔ NotKey v kind := by
  constructor
  · exact notKey_of_toKey
  · intro h
    induction h with
    | list vs => rfl
    | set members => rfl
    | dict entries => rfl
    | tuple ks vs _ ih =>
        rw [toKey_tuple_eq_error_iff]
        induction ks with
        | nil => exact toKeys_cons_eq_error_iff.2 (Or.inl ih)
        | cons k ks others => exact toKeys_cons_eq_error_iff.2 (Or.inr ⟨k, toKey_ofKey k, others⟩)

end Stencil.Value
