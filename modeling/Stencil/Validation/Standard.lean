import Stencil.Validation.Checker

/-!
# Standard checker

A checker that behaves as the documentation says (`Checker.standard_documented`). It puts the
defaults of absent keys behind the entries of a mapping and goes through all of them once. The
validated mapping has the given keys in their order, and then those that were absent.
-/

namespace Stencil.Checker

namespace Standard

/-! ## Entries -/

/-- Entries that stand in for the keys that a mapping lacks. -/
def absent (S : Schema) (m : Mapping Value) : List (Key × Value) :=
  (S.fields.entries.filter fun e => e.1 ∉ m.keys).map fun e => (e.1, e.2.default)

theorem mem_absent_iff {S : Schema} {m : Mapping Value} {e : Key × Value} :
    e ∈ absent S m ↔ ∃ f, (e.1, f) ∈ S.fields.entries ∧ e.1 ∉ m.keys ∧ f.default = e.2 := by
  simp only [absent, List.mem_map, List.mem_filter, decide_eq_true_eq]
  constructor
  · rintro ⟨⟨k, f⟩, ⟨found, missing⟩, rfl⟩
    exact ⟨f, found, missing, rfl⟩
  · rintro ⟨f, found, missing, value⟩
    exact ⟨(e.1, f), ⟨found, missing⟩, Prod.ext rfl value⟩

/-- Mapping with the defaults of the keys that it lacks. -/
def completed (S : Schema) (m : Mapping Value) : Mapping Value where
  entries := m.entries ++ absent S m
  distinct := by
    refine List.pairwise_append.2 ⟨m.distinct, ?_, ?_⟩
    · exact List.pairwise_map.2 (S.fields.distinct.filter _)
    · -- An absent key is a text, which is the same as itself only.
      intro e he e' he' same
      obtain ⟨f, found, missing, -⟩ := mem_absent_iff.1 he'
      obtain ⟨t, name⟩ := S.named _ found
      have equal : e.1 = e'.1 := name ▸ Key.same_text_iff.1 (name ▸ same)
      exact missing (equal ▸ List.mem_map_of_mem he)

/-- Checked value of a key, or what is wrong with it. -/
def judge (S : Schema) (k : Key) (v : Value) : Except Issue Value :=
  match S.fields.get? k with
  | none => .error (.extra k)
  | some f =>
    match f.check v with
    | .ok w => .ok w
    | .error fault => .error (fault.under k)

/-- Issue of an entry, if it has one. -/
def issue? (S : Schema) (e : Key × Value) : Option Issue :=
  match judge S e.1 e.2 with
  | .ok _ => none
  | .error i => some i

/-- Checked value of a key, if nothing is wrong with it. -/
def checked? (S : Schema) (k : Key) (v : Value) : Option Value :=
  match judge S k v with
  | .ok w => some w
  | .error _ => none

/-- Validated form of a mapping, or all its issues in the order of the entries. -/
def validate (S : Schema) (m : Mapping Value) : Except Rejection (Mapping Value) :=
  let whole := completed S m
  match whole.entries.filterMap (issue? S) with
  | [] => .ok (whole.filterMap (checked? S))
  | i :: is => .error ⟨i, is⟩

/-! ## Booleans -/

/-- Boolean that a text names. -/
def ofText? (t : Text) : Option Bool :=
  if t.lowered ∈ Switch.onWords then some true
  else if t.lowered ∈ Switch.offWords then some false
  else none

/-- Boolean that a value stands for. -/
def boolean : Value → Except Fault Value
  | .text t =>
    match ofText? t with
    | some b => .ok (.bool b)
    | none => .error ⟨.notBoolean, "expected boolean"⟩
  | v => .ok (.bool v.truth)

end Standard

/-- The standard checker. The keys in its texts are written with the code points that `printable`
tells. -/
def standard (printable : CodePoint → Bool) : Checker where
  validate := Standard.validate
  notMapping := ⟨⟨.notMapping, "expected a dictionary", none, []⟩, []⟩
  boolean := Standard.boolean
  quote := Key.quoted printable
  text := Issue.worded (Key.quoted printable)
  message r := r.first.worded (Key.quoted printable)

end Stencil.Checker
