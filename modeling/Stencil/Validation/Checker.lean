import Stencil.Settings.Switch
import Stencil.Settings.Value

/-!
# Checkers of mappings

A schema tells which keys a mapping may have, what is expected of their values, and which value
stands in for one that is absent. Holding a mapping against a schema is not done by this library.
The checker that does it is a parameter (`Checker`), and nothing is known of it but what its
documentation says (`Checker.Documented`). That speaks of schemas and mappings in general, of one
entry at a time, so what a checker makes of a whole mapping has to be proved from it.
-/

namespace Stencil

/-! ## Issues -/

/-- Sorts of issues that a caller can tell apart without their wording: the data is no mapping, a
value stands for no boolean, and anything else. -/
inductive Issue.Kind where
  | notMapping
  | notBoolean
  | invalid
  deriving DecidableEq

/-- What the check of a value finds wrong with it. -/
structure Fault where
  kind : Issue.Kind
  message : String
  deriving DecidableEq

/-- What a checker finds wrong: its sort, its wording, what that is about if it is said, and the
keys that lead to it. -/
structure Issue where
  kind : Issue.Kind
  message : String
  subject? : Option String
  path : List Key
  deriving DecidableEq

/-- Issue of a fault in the value of a key. -/
def Fault.under (f : Fault) (k : Key) : Issue := ⟨f.kind, f.message, some "dictionary value", [k]⟩

/-- Issue of a key that is not expected. -/
def Issue.extra (k : Key) : Issue := ⟨.invalid, "extra keys not allowed", none, [k]⟩

/-- Wording of an issue with its subject and its path, in which the keys have the form that `quote`
gives. -/
def Issue.worded (quote : Key → String) (i : Issue) : String :=
  let subject := match i.subject? with
    | some s => " for " ++ s
    | none => ""
  let place := match i.path with
    | [] => ""
    | keys => " @ data" ++ String.join (keys.map fun k => "[" ++ quote k ++ "]")
  i.message ++ subject ++ place

/-- All issues of some data, of which there is at least one. -/
structure Rejection where
  first : Issue
  others : List Issue
  deriving DecidableEq

/-- Issues in order. -/
def Rejection.issues (r : Rejection) : List Issue := r.first :: r.others

/-! ## Schemas -/

/-- What is expected of the value of a key: the check that it has to pass, which may give another
value for it, and the value that stands in for an absent one. -/
structure Field where
  default : Value
  check : Value → Except Fault Value

/-- Fields that a mapping may have, each under a text. -/
structure Schema where
  fields : Mapping Field
  named : ∀ e ∈ fields.entries, ∃ t, e.1 = .text t

/-- Every default passes the check of its own field. -/
def Schema.DefaultsPass (S : Schema) : Prop :=
  ∀ e ∈ S.fields.entries, ∃ w, e.2.check e.2.default = .ok w

/-! ## Checkers -/

/-- Operations of a checker. -/
structure Checker where
  /-- The validated form of a mapping, or what is wrong with it. -/
  validate : Schema → Mapping Value → Except Rejection (Mapping Value)
  /-- What is wrong with data that is no mapping. -/
  notMapping : Rejection
  /-- The boolean that a value stands for. -/
  boolean : Value → Except Fault Value
  /-- Form of a key in a text. -/
  quote : Key → String
  /-- Text of an issue. -/
  text : Issue → String
  /-- Text of a rejection. -/
  message : Rejection → String

namespace Checker

/-- Issues that a checker finds in a mapping. -/
def issues (C : Checker) (S : Schema) (m : Mapping Value) : List Issue :=
  match C.validate S m with
  | .ok _ => []
  | .error r => r.issues

/-- What the documentation of a checker says. What it says of issues is meant for schemas whose
defaults pass, since a default that fails adds an issue of its own. -/
structure Documented (C : Checker) : Prop where
  /-- An issue does not end the validation: one more entry adds its own issues to those of the
  entries in front of it. -/
  collects {S : Schema} {m n : Mapping Value} {k : Key} {v : Value} : S.DefaultsPass →
    n.entries = m.entries ++ [(k, v)] → C.issues S n = C.issues S m ++ C.issues S (.single k v)
  /-- There is nothing wrong with a value that passes the check of its field. -/
  passes {S : Schema} {k : Key} {f : Field} {v w : Value} : S.DefaultsPass →
    (k, f) ∈ S.fields.entries → f.check v = .ok w → C.issues S (.single k v) = []
  /-- The fault that the check of a field finds is reported as an issue of the value. -/
  refuses {S : Schema} {k : Key} {f : Field} {v : Value} {fault : Fault} : S.DefaultsPass →
    (k, f) ∈ S.fields.entries → f.check v = .error fault →
      C.issues S (.single k v) = [fault.under k]
  /-- A key that is not in the schema is an issue, whatever its value. -/
  excludes {S : Schema} {k : Key} {v : Value} : S.DefaultsPass → k ∉ S.fields.keys →
    C.issues S (.single k v) = [.extra k]
  /-- The validated mapping has the values that the checks give. -/
  converts {S : Schema} {m out : Mapping Value} {k : Key} {f : Field} {v : Value} :
    C.validate S m = .ok out → (k, f) ∈ S.fields.entries → (k, v) ∈ m.entries →
      ∃ w, f.check v = .ok w ∧ (k, w) ∈ out.entries
  /-- The default of an absent key is checked like a given value, and put in. -/
  completes {S : Schema} {m out : Mapping Value} {k : Key} {f : Field} :
    C.validate S m = .ok out → (k, f) ∈ S.fields.entries → k ∉ m.keys →
      ∃ w, f.check f.default = .ok w ∧ (k, w) ∈ out.entries
  /-- No key of the validated mapping is made up. -/
  invents_none {S : Schema} {m out : Mapping Value} {k : Key} :
    C.validate S m = .ok out → k ∈ out.keys → k ∈ m.keys ∨ k ∈ S.fields.keys
  /-- The words for on stand for true, in capital or small letters. -/
  boolean_on {t : Text} : t.lowered ∈ Switch.onWords → C.boolean (.text t) = .ok (.bool true)
  /-- The words for off stand for false, in capital or small letters. -/
  boolean_off {t : Text} : t.lowered ∈ Switch.offWords → C.boolean (.text t) = .ok (.bool false)
  /-- No other text stands for a boolean. -/
  boolean_text {t : Text} : t.lowered ∉ Switch.onWords → t.lowered ∉ Switch.offWords →
    C.boolean (.text t) = .error ⟨.notBoolean, "expected boolean"⟩
  /-- A value that is no text stands for its truth. -/
  boolean_truth {v : Value} : (∀ t, v ≠ .text t) → C.boolean v = .ok (.bool v.truth)
  /-- The text of an issue has its message, what that is about, and the path. -/
  text_worded (i : Issue) : C.text i = i.worded C.quote
  /-- The text of a rejection is that of its first issue. -/
  message_first (r : Rejection) : C.message r = C.text r.first

end Checker

end Stencil
