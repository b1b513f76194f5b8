import Stencil.Proofs.Validation.Collecting
import Stencil.Validation.Standard

/-!
# The standard checker behaves as documented

When the defaults of a schema pass, those of absent keys add no issues, so the issues are those of
the given entries (`issues_standard`). A validated mapping has no issue at all, and each entry of
the completed mapping stands in it with its checked value (`mem_entries_standard`). The documented
facts follow (`standard_documented`).
-/

namespace Stencil.Checker

open Standard

variable {printable : CodePoint → Bool} {S : Schema} {m out : Mapping Value} {k : Key} {v w : Value}

/-! ## One entry -/

/-- The fields of a schema have texts as keys, so each is found under its own key. -/
theorem get?_fields_eq_some_iff {f : Field} :
    S.fields.get? k = some f ↔ (k, f) ∈ S.fields.entries := by
  constructor
  · intro found
    obtain ⟨l, same, field⟩ := Mapping.mem_of_lookup_eq_some found
    obtain ⟨t, rfl⟩ : ∃ t, l = .text t := S.named _ field
    rwa [← Key.same_text_iff.1 same.symm] at field
  · intro field
    obtain ⟨t, rfl⟩ : ∃ t, k = .text t := S.named _ field
    exact Mapping.get?_text_eq_some_iff.2 field

theorem get?_fields_eq_none {k : Key} (unknown : k ∉ S.fields.keys) : S.fields.get? k = none := by
  rw [Option.eq_none_iff_forall_ne_some]
  intro f found
  exact unknown (Mapping.mem_keys_iff.2 ⟨f, get?_fields_eq_some_iff.1 found⟩)

/-- A value is accepted when its key has a field whose check it passes. -/
theorem judge_eq_ok_iff :
    judge S k v = .ok w ↔ ∃ f, (k, f) ∈ S.fields.entries ∧ f.check v = .ok w := by
  simp only [judge, ← get?_fields_eq_some_iff]
  cases S.fields.get? k with
  | none => simp
  | some f => cases h : f.check v <;> simp [h]

theorem issue?_eq_none_iff {e : Key × Value} :
    issue? S e = none ↔ ∃ w, judge S e.1 e.2 = .ok w := by
  unfold issue?
  cases judge S e.1 e.2 <;> simp

theorem checked?_eq_some_iff : checked? S k v = some w ↔ judge S k v = .ok w := by
  unfold checked?
  cases judge S k v <;> simp

/-! ## All entries -/

theorem issue?_of_mem_absent (pass : S.DefaultsPass) {e : Key × Value} (h : e ∈ absent S m) :
    issue? S e = none := by
  obtain ⟨f, field, -, value⟩ := mem_absent_iff.1 h
  obtain ⟨w, checked⟩ := pass _ field
  exact issue?_eq_none_iff.2 ⟨w, judge_eq_ok_iff.2 ⟨f, field, value ▸ checked⟩⟩

/-- Issues come from given entries only. -/
theorem issues_standard (pass : S.DefaultsPass) (m : Mapping Value) :
    (standard printable).issues S m = m.entries.filterMap (issue? S) := by
  have none_absent : (absent S m).filterMap (issue? S) = [] := by
    rw [List.filterMap_eq_nil_iff]
    intro e found
    exact issue?_of_mem_absent pass found
  have whole : (completed S m).entries.filterMap (issue? S) = m.entries.filterMap (issue? S) := by
    show (m.entries ++ absent S m).filterMap (issue? S) = _
    rw [List.filterMap_append, none_absent, List.append_nil]
  simp only [issues, standard, Standard.validate, whole]
  cases m.entries.filterMap (issue? S) <;> rfl

theorem issues_standard_single (pass : S.DefaultsPass) :
    (standard printable).issues S (.single k v) = (issue? S (k, v)).toList := by
  rw [issues_standard pass]
  show [(k, v)].filterMap (issue? S) = _
  cases h : issue? S (k, v) <;> simp [h]

/-- A mapping is validated when no entry of the completed one has an issue, and then each of them
gives its checked value. -/
theorem validate_standard_eq_ok_iff :
    (standard printable).validate S m = .ok out ↔
      (completed S m).entries.filterMap (issue? S) = [] ∧
        (completed S m).filterMap (checked? S) = out := by
  simp only [standard, Standard.validate]
  cases (completed S m).entries.filterMap (issue? S) <;> simp

theorem mem_entries_standard (accepted : (standard printable).validate S m = .ok out) :
    (k, w) ∈ out.entries ↔ ∃ v, (k, v) ∈ (completed S m).entries ∧ judge S k v = .ok w := by
  obtain ⟨-, rfl⟩ := validate_standard_eq_ok_iff.1 accepted
  rw [Mapping.mem_filterMap_iff]
  simp only [checked?_eq_some_iff]

theorem exists_judge_eq_ok (accepted : (standard printable).validate S m = .ok out)
    (found : (k, v) ∈ (completed S m).entries) : ∃ w, judge S k v = .ok w := by
  obtain ⟨clean, -⟩ := validate_standard_eq_ok_iff.1 accepted
  exact issue?_eq_none_iff.1 (List.filterMap_eq_nil_iff.1 clean (k, v) found)

/-- An entry of the completed mapping is in the validated one, with the value that the check of its
field gives. -/
theorem exists_mem_entries_standard (accepted : (standard printable).validate S m = .ok out)
    {f : Field} (field : (k, f) ∈ S.fields.entries) (found : (k, v) ∈ (completed S m).entries) :
    ∃ w, f.check v = .ok w ∧ (k, w) ∈ out.entries := by
  obtain ⟨w, judged⟩ := exists_judge_eq_ok accepted found
  obtain ⟨g, field', checked⟩ := judge_eq_ok_iff.1 judged
  obtain rfl : f = g := Schema.eq_of_mem field field field'
  exact ⟨w, checked, (mem_entries_standard accepted).2 ⟨v, found, judged⟩⟩

theorem mem_keys_of_standard (accepted : (standard printable).validate S m = .ok out)
    (h : k ∈ out.keys) : k ∈ m.keys ∨ k ∈ S.fields.keys := by
  obtain ⟨w, found⟩ := Mapping.mem_keys_iff.1 h
  obtain ⟨v, entry, -⟩ := (mem_entries_standard accepted).1 found
  rcases List.mem_append.1 entry with given | absent
  · exact Or.inl (Mapping.mem_keys_iff.2 ⟨v, given⟩)
  · obtain ⟨f, field, -⟩ := mem_absent_iff.1 absent
    exact Or.inr (Mapping.mem_keys_iff.2 ⟨f, field⟩)

/-! ## Booleans -/

theorem ofText?_of_on {t : Text} (on : t.lowered ∈ Switch.onWords) : ofText? t = some true :=
  if_pos on

/-- No word for off is one for on too. -/
theorem ofText?_of_off {t : Text} (off : t.lowered ∈ Switch.offWords) : ofText? t = some false := by
  have apart : ∀ s ∈ Switch.offWords, s ∉ Switch.onWords := by decide
  rw [ofText?, if_neg (apart _ off), if_pos off]

/-! ## All together -/

theorem standard_documented (printable : CodePoint → Bool) : (standard printable).Documented where
  collects pass given := by
    rw [issues_standard pass, issues_standard pass, issues_standard pass, given,
      List.filterMap_append]
    rfl
  passes pass field checked := by
    have judged := judge_eq_ok_iff.2 ⟨_, field, checked⟩
    rw [issues_standard_single pass, issue?_eq_none_iff.2 ⟨_, judged⟩]
    rfl
  refuses pass field failed := by
    rw [issues_standard_single pass]
    simp only [issue?, judge, get?_fields_eq_some_iff.2 field, failed]
    rfl
  excludes pass unknown := by
    rw [issues_standard_single pass]
    simp only [issue?, judge, get?_fields_eq_none unknown]
    rfl
  converts accepted field given :=
    exists_mem_entries_standard accepted field (List.mem_append_left _ given)
  completes accepted field missing :=
    exists_mem_entries_standard accepted field
      (List.mem_append_right _ (mem_absent_iff.2 ⟨_, field, missing, rfl⟩))
  invents_none := mem_keys_of_standard
  boolean_on on := by simp only [standard, Standard.boolean, ofText?_of_on on]
  boolean_off off := by simp only [standard, Standard.boolean, ofText?_of_off off]
  boolean_text no_on no_off := by
    simp only [standard, Standard.boolean, ofText?, if_neg no_on, if_neg no_off]
  boolean_truth := by
    intro v no_text
    cases v with
    | text t => exact absurd rfl (no_text t)
    | _ => rfl
  text_worded _ := rfl
  message_first _ := rfl

end Stencil.Checker
