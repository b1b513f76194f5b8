import Mathlib.Data.List.Induction
import Mathlib.Data.List.Nodup
import Stencil.Proofs.Settings.Entries
import Stencil.Validation.Checker

/-!
# Validation of whole mappings

The documentation of a checker speaks of one entry at a time. For a whole mapping it follows that
the issues are those of its entries in their order (`issues_eq_flatMap`), and that the validated
form, if there is one, has the checked value that counts under each key of the schema and nothing
else (`mem_entries_iff`). So another order of the entries changes the order of the issues, and not
the validated entries (`validate_perm`).

All this is for schemas whose defaults pass, since a default that fails adds an issue of its own.
-/

namespace Stencil

/-- A key of a schema is a text, so it has one value only in any mapping. -/
theorem Schema.eq_of_mem {S : Schema} {k : Key} {f : Field} (field : (k, f) ∈ S.fields.entries)
    {α : Type} {m : Mapping α} {v w : α} (hv : (k, v) ∈ m.entries) (hw : (k, w) ∈ m.entries) :
    v = w := by
  obtain ⟨t, rfl⟩ : ∃ t, k = .text t := S.named _ field
  exact Mapping.eq_of_mem_text hv hw

/-- The value that counts for a field under the key `k`: the given one, or the default if there is
none. -/
def Field.Counts (f : Field) (m : Mapping Value) (k : Key) (u : Value) : Prop :=
  (k, u) ∈ m.entries ∨ (k ∉ m.keys ∧ u = f.default)

theorem Field.Counts.unique {S : Schema} {k : Key} {f : Field} {m : Mapping Value} {u v : Value}
    (hu : f.Counts m k u) (field : (k, f) ∈ S.fields.entries) (hv : f.Counts m k v) : u = v := by
  rcases hu with given | ⟨absent, rfl⟩
  · rcases hv with given' | ⟨absent, -⟩
    · exact Schema.eq_of_mem field given given'
    · exact absurd (Mapping.mem_keys_iff.2 ⟨u, given⟩) absent
  · rcases hv with given | ⟨-, rfl⟩
    · exact absurd (Mapping.mem_keys_iff.2 ⟨v, given⟩) absent
    · rfl

namespace Checker

variable {C : Checker} {S : Schema} {m n out : Mapping Value}

/-! ## Issues and outcomes -/

theorem issues_of_validate_eq_error {r : Rejection} (refused : C.validate S m = .error r) :
    C.issues S m = r.issues := by
  rw [issues, refused]

/-- A mapping is validated exactly when it has no issues. -/
theorem issues_eq_nil_iff : C.issues S m = [] ↔ ∃ out, C.validate S m = .ok out := by
  cases outcome : C.validate S m with
  | ok out => simp [issues, outcome]
  | error r => simp [issues, outcome, Rejection.issues]

theorem exists_validate_eq_error_iff :
    (∃ r, C.validate S m = .error r) ↔ C.issues S m ≠ [] := by
  rw [ne_eq, issues_eq_nil_iff]
  cases C.validate S m <;> simp

namespace Documented

variable (documented : C.Documented)

include documented

/-! ## All issues -/

/-- A mapping without entries has no issues, since those of its first entry are all it has then. -/
theorem issues_empty (pass : S.DefaultsPass) : C.issues S .empty = [] := by
  have first := documented.collects (m := .empty) (n := .single .null .null) pass rfl
  exact List.append_left_eq_self.1 first.symm

/-- The issues of a mapping are those of its entries. The induction is on the entries from the end,
where the checker takes up one more. -/
theorem issues_eq_flatMap (pass : S.DefaultsPass) (m : Mapping Value) :
    C.issues S m = m.entries.flatMap fun e => C.issues S (.single e.1 e.2) := by
  generalize given : m.entries = es
  induction es using List.reverseRecOn generalizing m with
  | nil =>
      obtain rfl : m = .empty := Mapping.ext given
      exact documented.issues_empty pass
  | append_singleton es e ih =>
      -- The entries in front of the last one make up a mapping too.
      have apart : es.Pairwise fun e f => ¬ e.1.Same f.1 :=
        (List.pairwise_append.1 (given ▸ m.distinct)).1
      rw [documented.collects (m := ⟨es, apart⟩) pass given, ih ⟨es, apart⟩ rfl,
        List.flatMap_append, List.flatMap_singleton]

theorem issues_perm (pass : S.DefaultsPass) (order : m.entries.Perm n.entries) :
    (C.issues S m).Perm (C.issues S n) := by
  rw [documented.issues_eq_flatMap pass, documented.issues_eq_flatMap pass]
  exact order.flatMap_right _

/-! ## Validated entries -/

/-- The keys of a mapping that is validated are in the schema. -/
theorem mem_fields_of_mem_keys (pass : S.DefaultsPass) (accepted : C.validate S m = .ok out)
    {k : Key} (given : k ∈ m.keys) : k ∈ S.fields.keys := by
  by_contra unknown
  obtain ⟨v, found⟩ := Mapping.mem_keys_iff.1 given
  -- Its issue would be one of the mapping.
  have issue : Issue.extra k ∈ C.issues S m := by
    rw [documented.issues_eq_flatMap pass, List.mem_flatMap]
    refine ⟨(k, v), found, ?_⟩
    rw [documented.excludes pass unknown]
    exact List.mem_singleton_self _
  rw [issues_eq_nil_iff.2 ⟨out, accepted⟩] at issue
  exact nomatch issue

/-- Under each key of the schema, the validated form has the checked form of the value that counts
for it. -/
theorem exists_mem_entries (accepted : C.validate S m = .ok out) {k : Key} {f : Field}
    (field : (k, f) ∈ S.fields.entries) :
    ∃ u w, f.Counts m k u ∧ f.check u = .ok w ∧ (k, w) ∈ out.entries := by
  by_cases given : k ∈ m.keys
  · obtain ⟨v, entry⟩ := Mapping.mem_keys_iff.1 given
    obtain ⟨w, checked, found⟩ := documented.converts accepted field entry
    exact ⟨v, w, Or.inl entry, checked, found⟩
  · obtain ⟨w, checked, found⟩ := documented.completes accepted field given
    exact ⟨f.default, w, Or.inr ⟨given, rfl⟩, checked, found⟩

/-- The validated form of a mapping has a value under each key of the schema and under no other. -/
theorem mem_entries_iff (pass : S.DefaultsPass) (accepted : C.validate S m = .ok out) {k : Key}
    {w : Value} :
    (k, w) ∈ out.entries ↔
      ∃ f, (k, f) ∈ S.fields.entries ∧ ∃ u, f.Counts m k u ∧ f.check u = .ok w := by
  constructor
  · intro found
    have known : k ∈ S.fields.keys := by
      have key : k ∈ out.keys := Mapping.mem_keys_iff.2 ⟨w, found⟩
      rcases documented.invents_none accepted key with given | known
      · exact documented.mem_fields_of_mem_keys pass accepted given
      · exact known
    obtain ⟨f, field⟩ := Mapping.mem_keys_iff.1 known
    obtain ⟨u, w', counts, checked, found'⟩ := documented.exists_mem_entries accepted field
    -- The key has one validated value only, so it is the one that the check gives.
    obtain rfl : w' = w := Schema.eq_of_mem field found' found
    exact ⟨f, field, u, counts, checked⟩
  · rintro ⟨f, field, u, counts, checked⟩
    obtain ⟨u', w', counts', checked', found⟩ := documented.exists_mem_entries accepted field
    obtain rfl : u' = u := counts'.unique field counts
    exact Except.ok.inj (checked'.symm.trans checked) ▸ found

theorem named_of_validate (pass : S.DefaultsPass) (accepted : C.validate S m = .ok out) :
    ∀ e ∈ out.entries, ∃ t, e.1 = .text t := by
  intro e found
  obtain ⟨f, field, -⟩ := (documented.mem_entries_iff pass accepted).1 found
  exact S.named _ field

theorem nodup_entries_of_validate (pass : S.DefaultsPass) (accepted : C.validate S m = .ok out) :
    out.entries.Nodup :=
  List.Nodup.of_map Prod.fst (Mapping.nodup_keys (documented.named_of_validate pass accepted))

/-- The validated form is known, but for its order, from one entry of it under each key of the
schema. -/
theorem perm_of_forall_mem (pass : S.DefaultsPass) (accepted : C.validate S m = .ok out)
    {es : List (Key × Value)} (keys : es.map Prod.fst = S.fields.keys)
    (found : ∀ e ∈ es, e ∈ out.entries) : out.entries.Perm es := by
  have distinct : (es.map Prod.fst).Nodup := keys ▸ Mapping.nodup_keys S.named
  rw [List.perm_ext_iff_of_nodup (documented.nodup_entries_of_validate pass accepted)
    (List.Nodup.of_map Prod.fst distinct)]
  rintro ⟨k, w⟩
  constructor
  · intro entry
    -- There is an entry of the list under the same key, and the key has one value only.
    obtain ⟨f, field, -⟩ := (documented.mem_entries_iff pass accepted).1 entry
    have listed : k ∈ es.map Prod.fst := keys ▸ Mapping.mem_keys_iff.2 ⟨f, field⟩
    obtain ⟨⟨l, w'⟩, entry', rfl⟩ := List.mem_map.1 listed
    obtain rfl : w = w' := Schema.eq_of_mem field entry (found _ entry')
    exact entry'
  · intro entry
    exact found _ entry

/-- Entries in another order have the same validated form, but for its own order. -/
theorem validate_perm (pass : S.DefaultsPass) (order : m.entries.Perm n.entries)
    (accepted : C.validate S m = .ok out) :
    ∃ out', C.validate S n = .ok out' ∧ out.entries.Perm out'.entries := by
  have clean : C.issues S n = [] := by
    have issues := documented.issues_perm pass order
    rw [issues_eq_nil_iff.2 ⟨out, accepted⟩] at issues
    exact issues.symm.eq_nil
  obtain ⟨out', accepted'⟩ := issues_eq_nil_iff.1 clean
  have keys : m.keys.Perm n.keys := order.map Prod.fst
  refine ⟨out', accepted', ?_⟩
  rw [List.perm_ext_iff_of_nodup (documented.nodup_entries_of_validate pass accepted)
    (documented.nodup_entries_of_validate pass accepted')]
  rintro ⟨k, w⟩
  rw [documented.mem_entries_iff pass accepted, documented.mem_entries_iff pass accepted']
  simp only [Field.Counts, order.mem_iff, keys.mem_iff]

/-- Entries in another order have the same issues in another order. -/
theorem validate_perm_error (pass : S.DefaultsPass) (order : m.entries.Perm n.entries)
    {r : Rejection} (refused : C.validate S m = .error r) :
    ∃ r', C.validate S n = .error r' ∧ r.issues.Perm r'.issues := by
  have issues := documented.issues_perm pass order
  rw [issues_of_validate_eq_error refused] at issues
  have some_left : C.issues S n ≠ [] := by
    intro clean
    rw [clean] at issues
    exact List.cons_ne_nil _ _ issues.eq_nil
  obtain ⟨r', refused'⟩ := exists_validate_eq_error_iff.2 some_left
  rw [issues_of_validate_eq_error refused'] at issues
  exact ⟨r', refused', issues⟩

end Documented

end Checker

end Stencil
