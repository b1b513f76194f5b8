import Mathlib.Data.List.Forall2
import Stencil.Proofs.Validation.Collecting
import Stencil.Proofs.Validation.Standard
import Stencil.Settings.Check

/-!
# Acceptance of settings

With the schema of settings there are three ways for an entry to be faulty (`Faulty`), and for each
it is known what is told of the entry (`Noticed`). A checker that behaves as documented rejects a
mapping exactly when one of its entries is faulty, for all faulty entries in their order
(`forall₂_noticed_issues`). Otherwise the validated mapping has a text and a switch under the two
keys and nothing else, and these are what the entries say, or the defaults
(`validated_of_validate`).
-/

namespace Stencil.Settings

/-! ## One entry -/

/-- Entries that settings do not allow: a pattern that is neither null nor a text, a switch given by
a text that is none of the ten words in capital or small letters, and any other key. -/
def Faulty (e : Key × Value) : Prop :=
  (e.1 = patternKey ∧ e.2 ≠ .null ∧ ∀ t, e.2 ≠ .text t) ∨
    (e.1 = enabledKey ∧ ∃ t, e.2 = .text t ∧ t.lowered ∉ Switch.onWords ++ Switch.offWords) ∨
      (e.1 ≠ patternKey ∧ e.1 ≠ enabledKey)

/-- What has to be told of a faulty entry. -/
inductive Noticed : Key × Value → Issue → Prop
  | pattern {v : Value} : v ≠ .null → (∀ t, v ≠ .text t) →
      Noticed (patternKey, v)
        ⟨.invalid, "expected a string pattern, got " ++ v.kind.name, some "dictionary value",
          [patternKey]⟩
  | enabled {t : Text} : t.lowered ∉ Switch.onWords ++ Switch.offWords →
      Noticed (enabledKey, .text t)
        ⟨.notBoolean, "expected boolean", some "dictionary value", [enabledKey]⟩
  | unknown {k : Key} {v : Value} : k ≠ patternKey → k ≠ enabledKey →
      Noticed (k, v) ⟨.invalid, "extra keys not allowed", none, [k]⟩

theorem Noticed.faulty {e : Key × Value} {i : Issue} (h : Noticed e i) : Faulty e := by
  cases h with
  | pattern notNull notText => exact Or.inl ⟨rfl, notNull, notText⟩
  | enabled noWord => exact Or.inr (Or.inl ⟨rfl, _, rfl, noWord⟩)
  | unknown notPattern notEnabled => exact Or.inr (Or.inr ⟨notPattern, notEnabled⟩)

/-- Of an entry with any other key than the two, it is told that the key is not expected. -/
theorem Noticed.eq_extra {e : Key × Value} {i : Issue} (h : Noticed e i)
    (notPattern : e.1 ≠ patternKey) (notEnabled : e.1 ≠ enabledKey) : i = .extra e.1 := by
  cases h with
  | pattern _ _ => exact absurd rfl notPattern
  | enabled _ => exact absurd rfl notEnabled
  | unknown _ _ => rfl

/-- The pattern that a value gives: null gives the empty one. -/
def GivesText (v : Value) (t : Text) : Prop := (v = .null ∧ t = []) ∨ v = .text t

/-- The switch that a value gives: a text by its word, any other value by its truth. -/
def GivesSwitch (v : Value) (b : Bool) : Prop :=
  (∃ t, v = .text t ∧ t.lowered ∈ if b then Switch.onWords else Switch.offWords) ∨
    ((∀ t, v ≠ .text t) ∧ b = v.truth)

theorem givesText_null_iff {t : Text} : GivesText .null t ↔ t = [] := by
  simp [GivesText]

theorem givesText_text_iff {s t : Text} : GivesText (.text s) t ↔ t = s := by
  simp [GivesText, eq_comm]

theorem givesSwitch_bool_iff {b c : Bool} : GivesSwitch (.bool b) c ↔ c = b := by
  simp [GivesSwitch, Value.truth]

theorem GivesText.not_faulty {v : Value} {t : Text} (h : GivesText v t) :
    ¬ Faulty (patternKey, v) := by
  rintro (⟨-, notNull, notText⟩ | ⟨isEnabled, -⟩ | ⟨notPattern, -⟩)
  · rcases h with ⟨isNull, -⟩ | isText
    · exact notNull isNull
    · exact notText t isText
  · exact patternKey_ne_enabledKey isEnabled
  · exact notPattern rfl

theorem GivesSwitch.not_faulty {v : Value} {b : Bool} (h : GivesSwitch v b) :
    ¬ Faulty (enabledKey, v) := by
  rintro (⟨isPattern, -⟩ | ⟨-, t, isText, noWord⟩ | ⟨-, notEnabled⟩)
  · exact patternKey_ne_enabledKey isPattern.symm
  · rcases h with ⟨t', isText', word⟩ | ⟨notText, -⟩
    · obtain rfl : t' = t := Value.text.inj (isText'.symm.trans isText)
      cases b with
      | true => exact noWord (List.mem_append_left _ word)
      | false => exact noWord (List.mem_append_right _ word)
    · exact notText t isText
  · exact notEnabled rfl

/-! ## One check -/

/-- A value gives a pattern, or the check names its kind. -/
theorem checkPattern_cases (v : Value) :
    (∃ t, GivesText v t ∧ checkPattern v = .ok (.text t)) ∨
      (v ≠ .null ∧ (∀ t, v ≠ .text t) ∧
        checkPattern v = .error ⟨.invalid, "expected a string pattern, got " ++ v.kind.name⟩) := by
  cases v with
  | null => exact Or.inl ⟨[], Or.inl ⟨rfl, rfl⟩, rfl⟩
  | text t => exact Or.inl ⟨t, Or.inr rfl, rfl⟩
  | _ => exact Or.inr ⟨nofun, nofun, rfl⟩

variable {C : Checker}

/-- A value gives a switch, or it is a text that names none. -/
theorem boolean_cases (documented : C.Documented) (v : Value) :
    (∃ b, GivesSwitch v b ∧ C.boolean v = .ok (.bool b)) ∨
      ∃ t, v = .text t ∧ t.lowered ∉ Switch.onWords ++ Switch.offWords ∧
        C.boolean v = .error ⟨.notBoolean, "expected boolean"⟩ := by
  by_cases isText : ∃ t, v = .text t
  · obtain ⟨t, rfl⟩ := isText
    by_cases on : t.lowered ∈ Switch.onWords
    · exact Or.inl ⟨true, Or.inl ⟨t, rfl, on⟩, documented.boolean_on on⟩
    · by_cases off : t.lowered ∈ Switch.offWords
      · exact Or.inl ⟨false, Or.inl ⟨t, rfl, off⟩, documented.boolean_off off⟩
      · refine Or.inr ⟨t, rfl, ?_, documented.boolean_text on off⟩
        rw [List.mem_append, not_or]
        exact ⟨on, off⟩
  · have notText := not_exists.1 isText
    exact Or.inl ⟨v.truth, Or.inr ⟨notText, rfl⟩, documented.boolean_truth notText⟩

/-! ## The schema -/

theorem entries_fields_schema :
    (schema C).fields.entries = [(patternKey, patternField), (enabledKey, enabledField C)] := rfl

theorem pattern_mem_fields : (patternKey, patternField) ∈ (schema C).fields.entries :=
  List.mem_cons_self

theorem enabled_mem_fields : (enabledKey, enabledField C) ∈ (schema C).fields.entries :=
  List.mem_cons_of_mem _ List.mem_cons_self

/-- The defaults are settings that would be accepted. -/
theorem defaultsPass_schema (documented : C.Documented) : (schema C).DefaultsPass := by
  intro e found
  rw [entries_fields_schema] at found
  rcases List.mem_cons.1 found with rfl | last
  · exact ⟨.text [], rfl⟩
  · obtain rfl := List.mem_singleton.1 last
    exact ⟨.bool true, documented.boolean_truth nofun⟩

/-- An entry is allowed and has no issue, or it has one that tells what has to be told. -/
theorem issues_single_cases (documented : C.Documented) (e : Key × Value) :
    (¬ Faulty e ∧ C.issues (schema C) (.single e.1 e.2) = []) ∨
      ∃ i, Noticed e i ∧ C.issues (schema C) (.single e.1 e.2) = [i] := by
  obtain ⟨k, v⟩ := e
  have pass := defaultsPass_schema documented
  by_cases isPattern : k = patternKey
  · subst isPattern
    rcases checkPattern_cases v with ⟨t, gives, checked⟩ | ⟨notNull, notText, failed⟩
    · exact Or.inl ⟨gives.not_faulty, documented.passes pass pattern_mem_fields checked⟩
    · refine Or.inr ⟨_, .pattern notNull notText, ?_⟩
      exact documented.refuses pass pattern_mem_fields failed
  by_cases isEnabled : k = enabledKey
  · subst isEnabled
    rcases boolean_cases documented v with ⟨b, gives, checked⟩ | ⟨t, rfl, noWord, failed⟩
    · exact Or.inl ⟨gives.not_faulty, documented.passes pass enabled_mem_fields checked⟩
    · refine Or.inr ⟨_, .enabled noWord, ?_⟩
      exact documented.refuses pass enabled_mem_fields failed
  · have unknown : k ∉ (schema C).fields.keys := by
      rw [Mapping.keys, entries_fields_schema]
      simp [isPattern, isEnabled]
    exact Or.inr ⟨_, .unknown isPattern isEnabled, documented.excludes pass unknown⟩

/-- The standard checker finds an issue in an entry exactly when the entry is faulty. -/
theorem isSome_issue?_iff (printable : CodePoint → Bool) {e : Key × Value} :
    (Checker.Standard.issue? (schema (.standard printable)) e).isSome = true ↔ Faulty e := by
  have documented := Checker.standard_documented printable
  have alone : (Checker.standard printable).issues (schema (.standard printable))
      (.single e.1 e.2) = (Checker.Standard.issue? (schema (.standard printable)) e).toList :=
    Checker.issues_standard_single (defaultsPass_schema documented)
  rcases issues_single_cases documented e with ⟨allowed, none_told⟩ | ⟨i, noticed, told⟩
  · rw [alone, Option.toList_eq_nil_iff] at none_told
    simp [none_told, allowed]
  · rw [alone, Option.toList_eq_singleton_iff] at told
    simp [told, noticed.faulty]

instance : DecidablePred Faulty := fun _ => decidable_of_iff _ (isSome_issue?_iff fun _ => true)

/-! ## All entries -/

variable {m out : Mapping Value}

/-- The faulty entries have one issue each, in their order. -/
theorem forall₂_noticed_issues (documented : C.Documented) (m : Mapping Value) :
    List.Forall₂ Noticed (m.entries.filter fun e => Faulty e) (C.issues (schema C) m) := by
  rw [documented.issues_eq_flatMap (defaultsPass_schema documented)]
  -- The induction is on the entries: each one is in both lists or in none.
  induction m.entries with
  | nil => exact .nil
  | cons e es ih =>
      rw [List.flatMap_cons]
      rcases issues_single_cases documented e with ⟨allowed, none_told⟩ | ⟨i, noticed, told⟩
      · rw [List.filter_cons_of_neg (by simpa using allowed), none_told]
        exact ih
      · rw [List.filter_cons_of_pos (by simpa using noticed.faulty), told]
        exact .cons noticed ih

/-- The text of a rejection is that of the issue of the first faulty entry. -/
theorem exists_first_noticed (documented : C.Documented) {r : Rejection}
    (refused : C.validate (schema C) m = .error r) :
    ∃ e i, m.entries.find? (fun e => Faulty e) = some e ∧ Noticed e i ∧
      r.issues.head? = some i ∧ C.message r = C.text i ∧ C.text i = i.worded C.quote := by
  have noticed := forall₂_noticed_issues documented m
  rw [Checker.issues_of_validate_eq_error refused, Rejection.issues,
    List.forall₂_cons_right_iff] at noticed
  obtain ⟨e, es, first, -, faulty⟩ := noticed
  refine ⟨e, r.first, ?_, first, rfl, documented.message_first r, documented.text_worded _⟩
  rw [← List.head?_filter, faulty]
  rfl

/-- A mapping is rejected exactly when an entry of it is faulty. -/
theorem exists_validate_eq_error_iff (documented : C.Documented) :
    (∃ r, C.validate (schema C) m = .error r) ↔ ∃ e ∈ m.entries, Faulty e := by
  have noticed := forall₂_noticed_issues documented m
  have none_faulty : C.issues (schema C) m = [] ↔ ∀ e ∈ m.entries, ¬ Faulty e := by
    -- One of the two lists is empty exactly when the other is.
    constructor
    · intro none_told
      rw [none_told, List.forall₂_nil_right_iff, List.filter_eq_nil_iff] at noticed
      simpa using noticed
    · intro allowed
      rw [List.filter_eq_nil_iff.2 (by simpa using allowed), List.forall₂_nil_left_iff] at noticed
      exact noticed
  rw [Checker.exists_validate_eq_error_iff, ne_eq, none_faulty]
  simp

/-- A text and a switch are those that the entries of a mapping give, with a default for each absent
key. -/
structure TakenFrom (m : Mapping Value) (t : Text) (b : Bool) : Prop where
  pattern : ∀ v, (patternKey, v) ∈ m.entries → GivesText v t
  no_pattern : patternKey ∉ m.keys → t = []
  enabled : ∀ v, (enabledKey, v) ∈ m.entries → GivesSwitch v b
  not_enabled : enabledKey ∉ m.keys → b = true

/-- The validated pattern is a text, and the one that counts. -/
theorem exists_pattern_of_validate (documented : C.Documented)
    (accepted : C.validate (schema C) m = .ok out) :
    ∃ t u, (patternKey, .text t) ∈ out.entries ∧ patternField.Counts m patternKey u ∧
      GivesText u t := by
  obtain ⟨u, w, counts, checked, found⟩ :=
    documented.exists_mem_entries accepted pattern_mem_fields
  rcases checkPattern_cases u with ⟨t, gives, checked'⟩ | ⟨-, -, failed⟩
  · obtain rfl : w = .text t := Except.ok.inj (checked.symm.trans checked')
    exact ⟨t, u, found, counts, gives⟩
  · exact nomatch checked.symm.trans failed

/-- The validated switch is a boolean, and the one that counts. -/
theorem exists_enabled_of_validate (documented : C.Documented)
    (accepted : C.validate (schema C) m = .ok out) :
    ∃ b u, (enabledKey, .bool b) ∈ out.entries ∧ (enabledField C).Counts m enabledKey u ∧
      GivesSwitch u b := by
  obtain ⟨u, w, counts, checked, found⟩ :=
    documented.exists_mem_entries accepted enabled_mem_fields
  rcases boolean_cases documented u with ⟨b, gives, checked'⟩ | ⟨t, -, -, failed⟩
  · obtain rfl : w = .bool b := Except.ok.inj (checked.symm.trans checked')
    exact ⟨b, u, found, counts, gives⟩
  · exact nomatch checked.symm.trans failed

/-- A validated mapping has a text and a switch under the two keys and nothing else, and these are
what the entries say. -/
theorem validated_of_validate (documented : C.Documented)
    (accepted : C.validate (schema C) m = .ok out) :
    ∃ t b, out.entries.Perm [(patternKey, .text t), (enabledKey, .bool b)] ∧ TakenFrom m t b := by
  obtain ⟨t, u, pattern, counts, gives⟩ := exists_pattern_of_validate documented accepted
  obtain ⟨b, v, enabled, counts', gives'⟩ := exists_enabled_of_validate documented accepted
  have pass := defaultsPass_schema documented
  have field := pattern_mem_fields (C := C)
  have field' := enabled_mem_fields (C := C)
  refine ⟨t, b, ?_, ?_, ?_, ?_, ?_⟩
  · -- There is one entry under each key of the schema.
    apply documented.perm_of_forall_mem pass accepted
    · rfl
    · intro e listed
      rcases List.mem_cons.1 listed with rfl | last
      · exact pattern
      · exact List.mem_singleton.1 last ▸ enabled
  · intro v' given
    obtain rfl : u = v' := counts.unique field (Or.inl given)
    exact gives
  · intro absent
    obtain rfl : u = .text [] := counts.unique field (Or.inr ⟨absent, rfl⟩)
    exact givesText_text_iff.1 gives
  · intro v' given
    obtain rfl : v = v' := counts'.unique field' (Or.inl given)
    exact gives'
  · intro absent
    obtain rfl : v = .bool true := counts'.unique field' (Or.inr ⟨absent, rfl⟩)
    exact givesSwitch_bool_iff.1 gives'

/-! ## Settings -/

/-- Settings are read from every validated mapping, and none of their keys is missing. -/
theorem ofMapping_of_validate (documented : C.Documented)
    (accepted : C.validate (schema C) m = .ok out) :
    ∃ t b, out.get? patternKey = some (.text t) ∧ out.get? enabledKey = some (.bool b) ∧
      TakenFrom m t b ∧ ofMapping C m = .ok ⟨some t, b⟩ := by
  obtain ⟨t, b, entries, taken⟩ := validated_of_validate documented accepted
  have pattern : out.get? patternKey = some (.text t) :=
    Mapping.get?_text_eq_some_iff.2 (entries.mem_iff.2 List.mem_cons_self)
  have enabled : out.get? enabledKey = some (.bool b) :=
    Mapping.get?_text_eq_some_iff.2 (entries.mem_iff.2 (List.mem_cons_of_mem _ List.mem_cons_self))
  have read : ofValidated out = .ok ⟨some t, b⟩ :=
    ofValidated_eq_ok_iff.2 ⟨t, b, pattern, enabled, rfl⟩
  exact ⟨t, b, pattern, enabled, taken, ofMapping_eq_ok_iff.2 ⟨out, accepted, read⟩⟩

/-- Entries that are all allowed give settings. -/
theorem ofMapping_of_not_faulty (documented : C.Documented)
    (allowed : ∀ e ∈ m.entries, ¬ Faulty e) :
    ∃ t b, TakenFrom m t b ∧ ofMapping C m = .ok ⟨some t, b⟩ := by
  cases outcome : C.validate (schema C) m with
  | ok out =>
      obtain ⟨t, b, -, -, taken, read⟩ := ofMapping_of_validate documented outcome
      exact ⟨t, b, taken, read⟩
  | error r =>
      obtain ⟨e, found, faulty⟩ := (exists_validate_eq_error_iff documented).1 ⟨r, outcome⟩
      exact absurd faulty (allowed e found)

/-! ## All together -/

theorem validate_dict (m : Mapping Value) :
    validate C (.dict m.entries) = C.validate (schema C) m :=
  congrArg (C.validate (schema C)) (Mapping.ofList_entries m)

/-- A dictionary is rejected exactly when one of its entries is faulty. It is told of each faulty
entry what has to be told of it, in the order of the entries, and the text of the rejection is that
of the issue of the first faulty one. Otherwise the validated form has a text and a switch under the
two keys and nothing else, and these are what the entries give, or the defaults. In another order,
the entries have the same validated form, or the same issues in another order. -/
theorem validate_judges_entries {C : Checker} (documented : C.Documented) (m : Mapping Value) :
    (∀ es, Mapping.ofList es = m → validate C (.dict es) = validate C (.dict m.entries)) ∧
      ((∃ r, validate C (.dict m.entries) = .error r) ↔ ∃ e ∈ m.entries, Faulty e) ∧
      (∀ r, validate C (.dict m.entries) = .error r →
        List.Forall₂ Noticed (m.entries.filter fun e => Faulty e) r.issues ∧
          ∃ e i, m.entries.find? (fun e => Faulty e) = some e ∧ Noticed e i ∧
            r.issues.head? = some i ∧ C.message r = C.text i ∧ C.text i = i.worded C.quote) ∧
      (∀ out, validate C (.dict m.entries) = .ok out →
        ∃ t b, out.entries.Perm [(patternKey, .text t), (enabledKey, .bool b)] ∧
          TakenFrom m t b) ∧
      ∀ n : Mapping Value, m.entries.Perm n.entries →
        (∀ out, validate C (.dict m.entries) = .ok out →
          ∃ out', validate C (.dict n.entries) = .ok out' ∧ out.entries.Perm out'.entries) ∧
          ∀ r, validate C (.dict m.entries) = .error r →
            ∃ r', validate C (.dict n.entries) = .error r' ∧ r.issues.Perm r'.issues := by
  have pass := defaultsPass_schema documented
  rw [validate_dict]
  refine ⟨?_, ?_, ?_, ?_, ?_⟩
  · rintro es rfl
    rfl
  · exact exists_validate_eq_error_iff documented
  · intro r refused
    constructor
    · rw [← Checker.issues_of_validate_eq_error refused]
      exact forall₂_noticed_issues documented m
    · exact exists_first_noticed documented refused
  · intro out accepted
    exact validated_of_validate documented accepted
  · intro n order
    rw [validate_dict]
    constructor
    · intro out accepted
      exact documented.validate_perm pass order accepted
    · intro r refused
      exact documented.validate_perm_error pass order refused

/-- A wrong key, a word that is no switch and a pattern that is no text: each order of the three
entries is rejected by the standard checker, for three issues. -/
theorem validate_judges_entries_three_faults :
    let C := Checker.standard fun _ => true
    let unknown : Key × Value := (.text (.ofString "x"), .int 1)
    let word : Key × Value := (enabledKey, .text (.ofString "maybe"))
    let number : Key × Value := (patternKey, .int 3)
    ∃ r, validate C (.dict [unknown, word, number]) = .error r ∧
      List.Forall₂ Noticed [unknown, word, number] r.issues ∧
        C.message r = "extra keys not allowed @ data['x']" ∧
        ∃ r', validate C (.dict [number, unknown, word]) = .error r' ∧
          r.issues.Perm r'.issues := by
  intro C unknown word number
  obtain ⟨-, refused_iff, told, -, reordered⟩ :=
    validate_judges_entries (Checker.standard_documented fun _ => true)
      (.ofList [unknown, word, number])
  obtain ⟨r, refused⟩ := refused_iff.2 ⟨unknown, List.mem_cons_self, by decide⟩
  have order : [unknown, word, number].Perm [number, unknown, word] :=
    @List.perm_append_comm _ [unknown, word] [number]
  obtain ⟨-, refused_again⟩ := reordered (.ofList [number, unknown, word]) order
  obtain ⟨noticed, e, i, first, told_first, -, same_text, worded⟩ := told r refused
  refine ⟨r, refused, noticed, ?_, refused_again r refused⟩
  -- The first faulty entry is the one with the wrong key, and it gives the wording.
  obtain rfl : unknown = e := Option.some.inj first
  rw [same_text, worded, told_first.eq_extra (by decide) (by decide)]
  rfl

end Stencil.Settings
