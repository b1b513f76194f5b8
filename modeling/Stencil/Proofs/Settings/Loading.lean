import Mathlib.Data.List.Forall2
import Stencil.Proofs.Settings.Acceptance
import Stencil.Proofs.Settings.Keys

/-!
# Loading of settings

A sequence is read as a mapping element by element. An element gives an entry (`Gives`) or is a
misfit, of which it is known what has to be told (`Misfit`), but not both. The first misfit decides
the error, whatever the other elements hold (`gives_or_misfit`). Without a misfit the settings are
those of the entries, with each key at its first position and its last value
(`load_of_forall₂_gives`), so a value that is overwritten later is not seen (`load_overwritten`).
-/

namespace Stencil.Settings

/-! ## One element -/

/-- What a caller is told of a load error: its sort and its wording. -/
structure LoadError.Notice where
  kind : LoadError.Kind
  message : String

/-- What is told of a load error. -/
def LoadError.notice (C : Checker) (e : LoadError) : LoadError.Notice := ⟨e.kind, e.message C⟩

/-- An element gives an entry when it has two elements, the first of which is the key. -/
def Gives (v : Value) (e : Key × Value) : Prop := v.elements? = some [.ofKey e.1, e.2]

/-- What has to be told of the element with number `i` of a sequence when it gives no entry: that
it has no elements, that they are not two, or that the first of the two is no key. -/
inductive Misfit (i : Nat) : Value → LoadError.Notice → Prop
  | notSequence {v : Value} : v.elements? = none →
      Misfit i v
        ⟨.wrongKind, s!"cannot convert dictionary update sequence element #{i} to a sequence"⟩
  | length {v : Value} {vs : List Value} : v.elements? = some vs → vs.length ≠ 2 →
      Misfit i v
        ⟨.wrongLength,
          s!"dictionary update sequence element #{i} has length {vs.length}; 2 is required"⟩
  | notKey {v k w : Value} {kind : Value.Kind} : v.elements? = some [k, w] → k.NotKey kind →
      Misfit i v ⟨.wrongKind, s!"unhashable type: '{kind.name}'"⟩

theorem Gives.not_misfit {v : Value} {entry : Key × Value} (h : Gives v entry) {i : Nat}
    {n : LoadError.Notice} : ¬ Misfit i v n := by
  intro misfit
  cases misfit with
  | notSequence none_there => exact nomatch h.symm.trans none_there
  | length there long =>
      obtain rfl := Option.some.inj (h.symm.trans there)
      exact long rfl
  | notKey there notKey =>
      -- The key of an entry would be no key.
      obtain ⟨rfl, -⟩ := List.cons.inj (Option.some.inj (h.symm.trans there))
      exact nomatch (Value.toKey_ofKey entry.1).symm.trans (Value.toKey_eq_error_iff.2 notKey)

theorem pair_eq_ok_iff {i : Nat} {v : Value} {entry : Key × Value} :
    pair i v = .ok entry ↔ Gives v entry := by
  constructor
  · intro h
    unfold pair at h
    split at h
    · cases h
    · next k w there =>
        split at h
        · next key isKey =>
            cases h
            rw [Gives, there, Value.toKey_eq_ok_iff.1 isKey]
        · cases h
    · cases h
  · intro h
    have there : v.elements? = some [.ofKey entry.1, entry.2] := h
    simp only [pair, there, Value.toKey_ofKey]

theorem misfit_of_pair (C : Checker) {i : Nat} {v : Value} {e : LoadError}
    (h : pair i v = .error e) : Misfit i v (e.notice C) := by
  unfold pair at h
  split at h
  · next none_there =>
      cases h
      exact .notSequence none_there
  · next k w there =>
      split at h
      · cases h
      · next kind notKey =>
          cases h
          exact .notKey there (Value.toKey_eq_error_iff.1 notKey)
  · next vs not_two there =>
      cases h
      refine .length there ?_
      intro two
      obtain ⟨k, w, rfl⟩ := List.length_eq_two.1 two
      exact not_two k w rfl

/-- An element gives one entry only. -/
theorem Gives.unique {v : Value} {e f : Key × Value} (he : Gives v e) (hf : Gives v f) : e = f := by
  have first : pair 0 v = .ok e := pair_eq_ok_iff.2 he
  have second : pair 0 v = .ok f := pair_eq_ok_iff.2 hf
  exact Except.ok.inj (first.symm.trans second)

/-! ## All elements -/

theorem exists_mem_of_forall₂_gives {vs : List Value} {es : List (Key × Value)}
    (h : List.Forall₂ Gives vs es) {v : Value} (found : v ∈ vs) : ∃ e ∈ es, Gives v e := by
  induction h with
  | nil => exact nomatch found
  | @cons w e ws es first others ih =>
      rcases List.mem_cons.1 found with rfl | found
      · exact ⟨e, List.mem_cons_self, first⟩
      · obtain ⟨f, given, gives⟩ := ih found
        exact ⟨f, List.mem_cons_of_mem _ given, gives⟩

/-- In a sequence whose elements give entries there is no misfit. -/
theorem not_misfit_of_forall₂_gives {vs : List Value} {es : List (Key × Value)}
    (h : List.Forall₂ Gives vs es) {i j : Nat} {v : Value} {n : LoadError.Notice}
    (found : vs[i]? = some v) : ¬ Misfit j v n := by
  obtain ⟨entry, -, gives⟩ := exists_mem_of_forall₂_gives h (List.mem_of_getElem? found)
  exact gives.not_misfit

/-- A sequence is read without an error exactly when each of its elements gives an entry. -/
theorem pairsFrom_eq_ok_iff {i : Nat} {vs : List Value} {es : List (Key × Value)} :
    pairsFrom i vs = .ok es ↔ List.Forall₂ Gives vs es := by
  induction vs generalizing i es with
  | nil => simp [pairsFrom, eq_comm]
  | cons v vs ih =>
      rw [pairsFrom_cons_eq_ok_iff]
      constructor
      · rintro ⟨entry, entries, first, others, rfl⟩
        exact .cons (pair_eq_ok_iff.1 first) (ih.1 others)
      · rintro (_ | ⟨first, others⟩)
        exact ⟨_, _, pair_eq_ok_iff.2 first, ih.2 others, rfl⟩

/-- An error is that of the first element that gives no entry. -/
theorem exists_of_pairsFrom_eq_error (C : Checker) {i : Nat} {vs : List Value} {e : LoadError}
    (h : pairsFrom i vs = .error e) :
    ∃ before a behind, vs = before ++ a :: behind ∧ (∀ b ∈ before, ∃ entry, Gives b entry) ∧
      Misfit (i + before.length) a (e.notice C) := by
  induction vs generalizing i with
  | nil => cases h
  | cons v vs ih =>
      rcases pairsFrom_cons_eq_error_iff.1 h with first | ⟨entry, first, others⟩
      · exact ⟨[], v, vs, rfl, nofun, misfit_of_pair C first⟩
      · -- The first element is one more in front of the misfit.
        obtain ⟨before, a, behind, rfl, fits, misfit⟩ := ih others
        refine ⟨v :: before, a, behind, rfl, ?_, ?_⟩
        · rw [List.forall_mem_cons]
          exact ⟨⟨entry, pair_eq_ok_iff.1 first⟩, fits⟩
        · have number : i + 1 + before.length = i + (v :: before).length := by
            rw [List.length_cons]
            omega
          exact number ▸ misfit

/-- Each element of a sequence gives an entry, or there is a first one that does not and whose error
is that of the sequence. -/
theorem gives_or_misfit (C : Checker) (vs : List Value) :
    (∃ es, List.Forall₂ Gives vs es) ∨
      ∃ before a behind e, vs = before ++ a :: behind ∧ (∀ b ∈ before, ∃ entry, Gives b entry) ∧
        Misfit before.length a (e.notice C) ∧ pairsFrom 0 vs = .error e := by
  cases read : pairsFrom 0 vs with
  | ok es => exact Or.inl ⟨es, pairsFrom_eq_ok_iff.1 read⟩
  | error e =>
      obtain ⟨before, a, behind, split, fits, misfit⟩ := exists_of_pairsFrom_eq_error C read
      rw [Nat.zero_add] at misfit
      exact Or.inr ⟨before, a, behind, e, split, fits, misfit, rfl⟩

/-- The mapping that a sequence is read as does not depend on a value that is overwritten by a later
element. -/
theorem map_ofList_pairsFrom_overwritten {a b : Value} {k : Key} {x y : Value}
    (ha : Gives a (k, x)) (hb : Gives b (k, y)) {behind : List Value}
    (later : ∃ c ∈ behind, ∃ entry, Gives c entry ∧ k.Same entry.1) (i : Nat)
    (before : List Value) :
    (pairsFrom i (before ++ a :: behind)).map Mapping.ofList =
      (pairsFrom i (before ++ b :: behind)).map Mapping.ofList := by
  cases front : pairsFrom i before with
  | error e => rw [pairsFrom_append_of_error front, pairsFrom_append_of_error front]
  | ok es =>
      rw [pairsFrom_append_of_ok front, pairsFrom_append_of_ok front, pairsFrom, pairsFrom,
        pair_eq_ok_iff.2 ha, pair_eq_ok_iff.2 hb]
      cases rest : pairsFrom (i + before.length + 1) behind with
      | error e => rfl
      | ok fs =>
          -- The later element is among the entries behind, with the same key.
          obtain ⟨c, found, entry, gives, same⟩ := later
          obtain ⟨f, given, gives'⟩ :=
            exists_mem_of_forall₂_gives (pairsFrom_eq_ok_iff.1 rest) found
          obtain rfl : entry = f := gives.unique gives'
          exact congrArg Except.ok (Mapping.ofList_overwritten ⟨entry, given, same⟩ es x y)

/-! ## Loading -/

variable {C : Checker}

/-- A value that counts as false gives the defaults. -/
theorem load_of_not_truth (documented : C.Documented) {v : Value} (h : v.truth = false) :
    load C v = .ok {} := by
  rw [load_of_mappingOf_eq_ok (mappingOf_of_not_truth h)]
  have no_key {k : Key} : k ∉ (Mapping.empty : Mapping Value).keys := nofun
  obtain ⟨t, b, taken, read⟩ := ofMapping_of_not_faulty documented (m := .empty) nofun
  obtain rfl : t = [] := taken.no_pattern no_key
  obtain rfl : b = true := taken.not_enabled no_key
  exact read

theorem mappingOf_dict (es : List (Key × Value)) : mappingOf (.dict es) = .ok (.ofList es) := by
  cases es <;> rfl

/-- A dictionary that is rejected is not loaded, for the same issues. -/
theorem load_dict_of_validate_eq_error {es : List (Key × Value)} {r : Rejection}
    (refused : validate C (.dict es) = .error r) : load C (.dict es) = .error (.rejected r) := by
  have refused' : C.validate (schema C) (.ofList es) = .error r := refused
  rw [load_of_mappingOf_eq_ok (mappingOf_dict es), ofMapping, refused']

/-- A dictionary that is validated is loaded with its validated pattern and switch. -/
theorem load_dict_of_validate_eq_ok (documented : C.Documented) {es : List (Key × Value)}
    {out : Mapping Value} (accepted : validate C (.dict es) = .ok out) :
    ∃ t b, out.get? patternKey = some (.text t) ∧ out.get? enabledKey = some (.bool b) ∧
      load C (.dict es) = .ok ⟨some t, b⟩ := by
  obtain ⟨t, b, pattern, enabled, -, read⟩ := ofMapping_of_validate documented accepted
  rw [load_of_mappingOf_eq_ok (mappingOf_dict es)]
  exact ⟨t, b, pattern, enabled, read⟩

theorem ofElements_eq_map {v : Value} {vs : List Value} (h : v.elements? = some vs) :
    ofElements v = (pairsFrom 0 vs).map .ofList := by
  simp only [ofElements, h]
  cases pairsFrom 0 vs <;> rfl

/-- A list or tuple that is not empty is read element by element. -/
theorem mappingOf_sequence {v : Value} {vs : List Value} (given : vs ≠ [])
    (sequence : v = .list vs ∨ v = .tuple vs) : mappingOf v = (pairsFrom 0 vs).map .ofList := by
  obtain ⟨a, behind, rfl⟩ := List.exists_cons_of_ne_nil given
  rcases sequence with rfl | rfl
  · exact ofElements_eq_map (v := .list (a :: behind)) rfl
  · exact ofElements_eq_map (v := .tuple (a :: behind)) rfl

/-- Loading a sequence without a misfit is loading the mapping of its entries. -/
theorem load_of_forall₂_gives {v : Value} {vs : List Value} (given : vs ≠ [])
    (sequence : v = .list vs ∨ v = .tuple vs) {es : List (Key × Value)}
    (gives : List.Forall₂ Gives vs es) : load C v = load C (.dict (Mapping.ofList es).entries) := by
  have read : mappingOf v = .ok (.ofList es) := by
    rw [mappingOf_sequence given sequence, (pairsFrom_eq_ok_iff (i := 0)).2 gives]
    rfl
  have again : mappingOf (.dict (Mapping.ofList es).entries) = .ok (.ofList es) := by
    rw [mappingOf_dict, Mapping.ofList_entries]
  rw [load_of_mappingOf_eq_ok read, load_of_mappingOf_eq_ok again]

/-- A sequence with a misfit is not loaded. -/
theorem load_of_pairsFrom_eq_error {v : Value} {vs : List Value} (given : vs ≠ [])
    (sequence : v = .list vs ∨ v = .tuple vs) {e : LoadError} (failed : pairsFrom 0 vs = .error e) :
    load C v = .error e := by
  apply load_of_mappingOf_eq_error
  rw [mappingOf_sequence given sequence, failed]
  rfl

/-- A value that is overwritten by a later element is not seen, whatever it is. -/
theorem load_overwritten {v : Value} {before behind : List Value} {a b : Value}
    (sequence : v = .list (before ++ a :: behind) ∨ v = .tuple (before ++ a :: behind))
    {k : Key} {x y : Value} (ha : Gives a (k, x)) (hb : Gives b (k, y))
    (later : ∃ c ∈ behind, ∃ entry, Gives c entry ∧ k.Same entry.1) :
    load C v = load C (.list (before ++ b :: behind)) := by
  have same : mappingOf v = mappingOf (.list (before ++ b :: behind)) := by
    rw [mappingOf_sequence (by simp) sequence, mappingOf_sequence (by simp) (Or.inl rfl)]
    exact map_ofList_pairsFrom_overwritten ha hb later 0 before
  rw [load, load, same]

/-- A value that counts as false gives the defaults. A dictionary fails for the issues for which it
is rejected, or is loaded with its validated pattern and switch. A list or tuple that is not empty
fails for its first misfit, if it has one, whatever its other elements hold. Otherwise it is loaded
as the dictionary of its entries in which each key stands at its first position with its last value.
A value that a later element overwrites is not seen. -/
theorem load_first_misfit_or_last_values {C : Checker} (documented : C.Documented) (v : Value) :
    (v.truth = false → load C v = .ok {}) ∧
      (∀ es, v = .dict es →
        (∀ r, validate C v = .error r → load C v = .error (.rejected r)) ∧
          ∀ out, validate C v = .ok out →
            ∃ t b, out.get? patternKey = some (.text t) ∧ out.get? enabledKey = some (.bool b) ∧
              load C v = .ok ⟨some t, b⟩) ∧
      ∀ vs, vs ≠ [] → v = .list vs ∨ v = .tuple vs →
        ((∃ i a n, vs[i]? = some a ∧ Misfit i a n) →
          ∃ i a e, vs[i]? = some a ∧ Misfit i a (e.notice C) ∧
            (∀ j b n, j < i → vs[j]? = some b → ¬ Misfit j b n) ∧ load C v = .error e) ∧
        ((∀ i a n, vs[i]? = some a → ¬ Misfit i a n) →
          ∃ (es : List (Key × Value)) (m : Mapping Value), List.Forall₂ Gives vs es ∧
            m.entries = Mapping.condensed es ∧ load C v = load C (.dict m.entries)) ∧
        ∀ before a b behind k x y, vs = before ++ a :: behind → Gives a (k, x) → Gives b (k, y) →
          (∃ c ∈ behind, ∃ entry, Gives c entry ∧ k.Same entry.1) →
            load C v = load C (.list (before ++ b :: behind)) := by
  refine ⟨load_of_not_truth documented, ?_, ?_⟩
  · rintro es rfl
    constructor
    · intro r refused
      exact load_dict_of_validate_eq_error refused
    · intro out accepted
      exact load_dict_of_validate_eq_ok documented accepted
  · intro vs given sequence
    refine ⟨?_, ?_, ?_⟩
    · rintro ⟨i, a, n, at_i, misfit⟩
      rcases gives_or_misfit C vs with
        ⟨es, gives⟩ | ⟨before, b, behind, e, rfl, fits, first, failed⟩
      · exact absurd misfit (not_misfit_of_forall₂_gives gives at_i)
      · refine ⟨before.length, b, e, by simp, first, ?_,
          load_of_pairsFrom_eq_error given sequence failed⟩
        intro j c m lt at_j
        rw [List.getElem?_append_left lt] at at_j
        obtain ⟨entry, gives⟩ := fits c (List.mem_of_getElem? at_j)
        exact gives.not_misfit
    · intro no_misfit
      rcases gives_or_misfit C vs with ⟨es, gives⟩ | ⟨before, a, behind, e, rfl, -, first, -⟩
      · exact ⟨es, .ofList es, gives, Mapping.entries_ofList es,
          load_of_forall₂_gives given sequence gives⟩
      · exact absurd first (no_misfit before.length a (e.notice C) (by simp))
    · rintro before a b behind k x y rfl ha hb later
      exact load_overwritten sequence ha hb later

/-- A list that is no key decides, although the pattern in front of it is a number and the element
behind it is no sequence. The number itself is not seen once a text follows under the same key. -/
theorem load_first_misfit_or_last_values_repeated :
    let C := Checker.standard fun _ => true
    let number : Value := .tuple [.ofKey patternKey, .int 3]
    let off : Value := .list [.ofKey enabledKey, .text (.ofString "off")]
    let text : Value := .tuple [.ofKey patternKey, .text (.ofString "#_")]
    let listed : Value := .list [.list [], .null]
    load C .null = .ok {} ∧
      load C (.dict [(.int 1, .null)]) = .error (.rejected ⟨.extra (.int 1), []⟩) ∧
      (∃ e, load C (.list [number, listed, .int 5]) = .error e ∧ Misfit 1 listed (e.notice C)) ∧
      load C (.tuple [number, off, text]) = .ok ⟨some (.ofString "#_"), false⟩ ∧
      load C (.tuple [number, off, text]) =
        load C (.list [.tuple [.ofKey patternKey, .null], off, text]) := by
  intro C number off text listed
  have documented : C.Documented := Checker.standard_documented _
  have no_key : Misfit 1 listed ⟨.wrongKind, _⟩ := .notKey rfl (.list [])
  have given : List.Forall₂ Gives [number, off, text]
      [(patternKey, .int 3), (enabledKey, .text (.ofString "off")),
        (patternKey, .text (.ofString "#_"))] := .cons rfl (.cons rfl (.cons rfl .nil))
  obtain ⟨-, -, sequence⟩ :=
    load_first_misfit_or_last_values documented (.tuple [number, off, text])
  refine ⟨(load_first_misfit_or_last_values documented _).1 rfl, ?_, ?_, ?_, ?_⟩
  · obtain ⟨-, dictionary, -⟩ :=
      load_first_misfit_or_last_values documented (.dict [(.int 1, .null)])
    exact (dictionary _ rfl).1 _ rfl
  · obtain ⟨-, -, mixed⟩ :=
      load_first_misfit_or_last_values documented (.list [number, listed, .int 5])
    obtain ⟨failing, -⟩ := mixed _ (List.cons_ne_nil _ _) (Or.inl rfl)
    obtain ⟨i, a, e, at_i, misfit, least, failed⟩ := failing ⟨1, listed, _, rfl, no_key⟩
    refine ⟨e, failed, ?_⟩
    match i, at_i, misfit, least with
    | 0, at_i, misfit, _ =>
        obtain rfl := Option.some.inj at_i
        have gives : Gives number (patternKey, .int 3) := rfl
        exact absurd misfit gives.not_misfit
    | 1, at_i, misfit, _ =>
        obtain rfl := Option.some.inj at_i
        exact misfit
    | i + 2, _, _, least => exact absurd no_key (least 1 listed _ (by omega) rfl)
  · obtain ⟨-, read, -⟩ := sequence _ (List.cons_ne_nil _ _) (Or.inr rfl)
    obtain ⟨es, m, gives, entries, loaded⟩ := read fun i a n at_i =>
      not_misfit_of_forall₂_gives given at_i
    have same : pairsFrom 0 [number, off, text] = .ok es := pairsFrom_eq_ok_iff.2 gives
    obtain rfl := Except.ok.inj ((pairsFrom_eq_ok_iff.2 given).symm.trans same)
    rw [loaded, entries]
    rfl
  · obtain ⟨-, -, overwritten⟩ := sequence _ (List.cons_ne_nil _ _) (Or.inr rfl)
    refine overwritten [] number _ [off, text] patternKey (.int 3) .null rfl rfl rfl ?_
    exact ⟨text, by simp, (patternKey, .text (.ofString "#_")), rfl, Key.same_text _⟩

end Stencil.Settings
