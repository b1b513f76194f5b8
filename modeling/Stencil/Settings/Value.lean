import Stencil.Settings.Mapping

/-!
# Untrusted values

Settings are read from values of any kind. A value has a kind with a name, it counts as true or
as false, some kinds have elements, and some can be keys. A value made of a key can be a key again,
and it is that key (`toKey_ofKey`).
-/

namespace Stencil

/-- Value of any kind. The entries of a dictionary are listed in the order of insertion, so that the
same key may occur repeatedly. The members of a set are listed in the order in which one meets them
when going through it. That order does not follow from the one of insertion, so it is a part of the
value. A member that is listed repeatedly counts once. -/
inductive Value where
  | null
  | bool (b : Bool)
  | int (n : Int)
  | float (x : Binary64)
  | text (t : Text)
  | bytes (bs : List UInt8)
  | list (vs : List Value)
  | tuple (vs : List Value)
  | set (members : List Key)
  | dict (entries : List (Key × Value))

namespace Value

/-- Kind of a value. -/
inductive Kind where
  | null
  | bool
  | int
  | float
  | text
  | bytes
  | list
  | tuple
  | set
  | dict
  deriving DecidableEq

/-- Name of a kind. -/
def Kind.name : Kind → String
  | null => "NoneType"
  | bool => "bool"
  | int => "int"
  | float => "float"
  | text => "str"
  | bytes => "bytes"
  | list => "list"
  | tuple => "tuple"
  | set => "set"
  | dict => "dict"

/-- Kind of a value. -/
def kind : Value → Kind
  | null => .null
  | bool _ => .bool
  | int _ => .int
  | float _ => .float
  | text _ => .text
  | bytes _ => .bytes
  | list _ => .list
  | tuple _ => .tuple
  | set _ => .set
  | dict _ => .dict

/-- Whether a value counts as true: a number that is not zero, a collection that is not empty. -/
def truth : Value → Bool
  | null => false
  | bool b => b
  | int n => n != 0
  | float x => !x.isZero
  | text t => !t.isEmpty
  | bytes bs => !bs.isEmpty
  | list vs => !vs.isEmpty
  | tuple vs => !vs.isEmpty
  | set members => !members.isEmpty
  | dict entries => !entries.isEmpty

/-! ## Keys -/

mutual

/-- Value of a key. -/
def ofKey : Key → Value
  | .null => null
  | .bool b => bool b
  | .int n => int n
  | .float x => float x
  | .text t => text t
  | .bytes bs => bytes bs
  | .tuple ks => tuple (ofKeys ks)

/-- Values of keys. -/
def ofKeys : List Key → List Value
  | [] => []
  | k :: ks => ofKey k :: ofKeys ks

end

mutual

/-- Key of a value, or the kind of the first part of it that cannot be a key. -/
def toKey : Value → Except Kind Key
  | null => .ok .null
  | bool b => .ok (.bool b)
  | int n => .ok (.int n)
  | float x => .ok (.float x)
  | text t => .ok (.text t)
  | bytes bs => .ok (.bytes bs)
  | tuple vs =>
    match toKeys vs with
    | .error kind => .error kind
    | .ok ks => .ok (.tuple ks)
  | list _ => .error .list
  | set _ => .error .set
  | dict _ => .error .dict

/-- Keys of values, or the kind of the first part of them that cannot be a key. -/
def toKeys : List Value → Except Kind (List Key)
  | [] => .ok []
  | v :: vs =>
    match toKey v with
    | .error kind => .error kind
    | .ok k =>
      match toKeys vs with
      | .error kind => .error kind
      | .ok ks => .ok (k :: ks)

end

/-- A tuple is a key when its members are. -/
theorem toKey_tuple_eq_ok_iff {vs : List Value} {k : Key} :
    (tuple vs).toKey = .ok k ↔ ∃ ks, toKeys vs = .ok ks ∧ .tuple ks = k := by
  rw [toKey]
  cases toKeys vs <;> simp

theorem toKey_tuple_eq_error_iff {vs : List Value} {kind : Kind} :
    (tuple vs).toKey = .error kind ↔ toKeys vs = .error kind := by
  rw [toKey]
  cases toKeys vs <;> simp

theorem toKeys_cons_eq_ok_iff {v : Value} {vs : List Value} {ks : List Key} :
    toKeys (v :: vs) = .ok ks ↔ ∃ l ls, v.toKey = .ok l ∧ toKeys vs = .ok ls ∧ l :: ls = ks := by
  rw [toKeys]
  cases toKey v with
  | error kind => simp
  | ok l => cases toKeys vs <;> simp

/-- The first part that cannot be a key is named. -/
theorem toKeys_cons_eq_error_iff {v : Value} {vs : List Value} {kind : Kind} :
    toKeys (v :: vs) = .error kind ↔
      v.toKey = .error kind ∨ ∃ l, v.toKey = .ok l ∧ toKeys vs = .error kind := by
  rw [toKeys]
  cases toKey v with
  | error kind => simp
  | ok l => cases toKeys vs <;> simp

mutual

@[simp] theorem toKey_ofKey (k : Key) : (ofKey k).toKey = .ok k := by
  cases k with
  | tuple ks => rw [ofKey, toKey, toKeys_ofKeys ks]
  | _ => rfl

theorem toKeys_ofKeys (ks : List Key) : toKeys (ofKeys ks) = .ok ks := by
  cases ks with
  | nil => rfl
  | cons k ks => rw [ofKeys, toKeys, toKey_ofKey k, toKeys_ofKeys ks]

end

/-! ## Elements -/

/-- Elements of a value: the code points of a text as texts, the numbers of bytes, the members of
a list or tuple, the distinct members of a set in the order in which it lists them, the keys of a
dictionary. Null and single numbers have none. -/
def elements? : Value → Option (List Value)
  | text t => some (t.map fun c => text [c])
  | bytes bs => some (bs.map fun b => int b.toNat)
  | list vs => some vs
  | tuple vs => some vs
  | set members => some (ofKeys (Mapping.distinctKeys members))
  | dict entries => some (ofKeys (Mapping.ofList entries).keys)
  | _ => none

/-- Only null, booleans and numbers have no elements. -/
theorem elements?_eq_none_iff {v : Value} :
    v.elements? = none ↔ v.kind = .null ∨ v.kind = .bool ∨ v.kind = .int ∨ v.kind = .float := by
  cases v <;> simp [elements?, kind]

end Value

end Stencil
