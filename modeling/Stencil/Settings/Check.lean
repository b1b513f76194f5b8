import Stencil.Settings.Basic
import Stencil.Settings.Conversion

/-!
# Check of settings

A mapping is held against the schema of settings, which has the two keys with their defaults. The
settings are read from the validated mapping that the checker gives. Loading settings from a value
converts it to a mapping first.
-/

namespace Stencil.Settings

/-- Check of a pattern, which has to be a text. Null stands for the empty one. -/
def checkPattern : Value → Except Fault Value
  | .null => .ok (.text [])
  | .text t => .ok (.text t)
  | v => .error ⟨.invalid, "expected a string pattern, got " ++ v.kind.name⟩

/-- Field of the pattern. -/
def patternField : Field := ⟨textValue ({} : Settings).pattern, checkPattern⟩

variable (C : Checker)

/-- Field of the switch. -/
def enabledField : Field := ⟨.bool ({} : Settings).enabled, C.boolean⟩

/-- Schema of settings. -/
def schema : Schema where
  fields := .ofList [(patternKey, patternField), (enabledKey, enabledField C)]
  named := by
    intro e found
    have either : e ∈ [(patternKey, patternField), (enabledKey, enabledField C)] := found
    rcases List.mem_cons.1 either with rfl | last
    · exact ⟨_, rfl⟩
    · obtain rfl := List.mem_singleton.1 last
      exact ⟨_, rfl⟩

/-- Validated form of a value, which has to be a dictionary. -/
def validate : Value → Except Rejection (Mapping Value)
  | .dict entries => C.validate (schema C) (.ofList entries)
  | _ => .error C.notMapping

/-- Settings of a validated mapping, which needs a text and a switch under the two keys. A value of
another kind counts as missing. -/
def ofValidated (m : Mapping Value) : Except LoadError Settings :=
  match m.get? patternKey with
  | some (.text t) =>
    match m.get? enabledKey with
    | some (.bool b) => .ok ⟨some t, b⟩
    | _ => .error (.missing "enabled")
  | _ => .error (.missing "pattern")

/-- Settings of a mapping. -/
def ofMapping (m : Mapping Value) : Except LoadError Settings :=
  match C.validate (schema C) m with
  | .error r => .error (.rejected r)
  | .ok out => ofValidated out

/-- Settings loaded from a value. -/
def load (v : Value) : Except LoadError Settings :=
  match mappingOf v with
  | .error e => .error e
  | .ok m => ofMapping C m

/-! ## What is loaded -/

variable {C}

/-- Settings of a validated mapping have the text and the switch that it holds. -/
theorem ofValidated_eq_ok_iff {m : Mapping Value} {s : Settings} :
    ofValidated m = .ok s ↔
      ∃ t b, m.get? patternKey = some (.text t) ∧ m.get? enabledKey = some (.bool b) ∧
        s = ⟨some t, b⟩ := by
  constructor
  · intro read
    unfold ofValidated at read
    split at read
    · next t pattern =>
        split at read
        · next b enabled => exact ⟨t, b, pattern, enabled, (Except.ok.inj read).symm⟩
        · cases read
    · cases read
  · rintro ⟨t, b, pattern, enabled, rfl⟩
    simp only [ofValidated, pattern, enabled]

theorem ofMapping_eq_ok_iff {m : Mapping Value} {s : Settings} :
    ofMapping C m = .ok s ↔ ∃ out, C.validate (schema C) m = .ok out ∧ ofValidated out = .ok s := by
  rw [ofMapping]
  cases C.validate (schema C) m <;> simp

theorem load_eq_ok_iff {v : Value} {s : Settings} :
    load C v = .ok s ↔ ∃ m, mappingOf v = .ok m ∧ ofMapping C m = .ok s := by
  rw [load]
  cases mappingOf v <;> simp

theorem load_of_mappingOf_eq_ok {v : Value} {m : Mapping Value} (h : mappingOf v = .ok m) :
    load C v = ofMapping C m := by
  rw [load, h]

theorem load_of_mappingOf_eq_error {v : Value} {e : LoadError} (h : mappingOf v = .error e) :
    load C v = .error e := by
  rw [load, h]

/-- A value that counts as false stands for no entries. -/
theorem mappingOf_of_not_truth {v : Value} (h : v.truth = false) : mappingOf v = .ok .empty :=
  if_neg (h ▸ Bool.false_ne_true)

end Stencil.Settings
