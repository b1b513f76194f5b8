import Stencil.Settings.Key

/-!
# Mappings

A mapping is a list of entries whose keys are pairwise different. An inserted key that is present
keeps its position and its writing, and takes the new value; any other key goes to the end. After
`ofList`, a key therefore stands at its first position with its last value (`get?_insert`,
`get?_ofList_append`).
-/

namespace Stencil

variable {α : Type}

/-- Entries in the order of insertion, with pairwise different keys. -/
structure Mapping (α : Type) where
  entries : List (Key × α)
  distinct : entries.Pairwise fun e f => ¬ e.1.Same f.1

namespace Mapping

/-- Mapping without entries. -/
def empty : Mapping α := ⟨[], List.Pairwise.nil⟩

/-- Mapping with one entry. -/
def single (k : Key) (v : α) : Mapping α := ⟨[(k, v)], List.pairwise_singleton _ _⟩

/-- Keys in order. -/
def keys (m : Mapping α) : List Key := m.entries.map Prod.fst

/-- Number of entries. -/
def size (m : Mapping α) : Nat := m.entries.length

/-- Value of the first entry with the key `k`. -/
def lookup (k : Key) : List (Key × α) → Option α
  | [] => none
  | (l, v) :: es => if l.Same k then some v else lookup k es

/-- Value of a key. -/
def get? (m : Mapping α) (k : Key) : Option α := lookup k m.entries

/-- Entries with the value of `k` replaced, or with `k` at the end if it is new. -/
def put (k : Key) (v : α) : List (Key × α) → List (Key × α)
  | [] => [(k, v)]
  | (l, w) :: es => if l.Same k then (l, v) :: es else (l, w) :: put k v es

/-- Every key after `put` was there before, or is the new one. -/
theorem mem_put {k : Key} {v : α} {es : List (Key × α)} {e : Key × α} (h : e ∈ put k v es) :
    (∃ f ∈ es, f.1 = e.1) ∨ e.1 = k := by
  induction es with
  | nil => exact Or.inr (congrArg Prod.fst (List.mem_singleton.1 h))
  | cons f es ih =>
    rcases f with ⟨l, w⟩
    by_cases same : l.Same k
    · rw [put, if_pos same] at h
      rcases List.mem_cons.1 h with rfl | h
      · exact Or.inl ⟨(l, w), List.mem_cons_self, rfl⟩
      · exact Or.inl ⟨e, List.mem_cons_of_mem _ h, rfl⟩
    · rw [put, if_neg same] at h
      rcases List.mem_cons.1 h with rfl | h
      · exact Or.inl ⟨(l, w), List.mem_cons_self, rfl⟩
      · rcases ih h with ⟨g, hg, same_key⟩ | new
        · exact Or.inl ⟨g, List.mem_cons_of_mem _ hg, same_key⟩
        · exact Or.inr new

theorem pairwise_put (k : Key) (v : α) {es : List (Key × α)}
    (h : es.Pairwise fun e f => ¬ e.1.Same f.1) :
    (put k v es).Pairwise fun e f => ¬ e.1.Same f.1 := by
  induction es with
  | nil => exact List.pairwise_singleton _ _
  | cons f es ih =>
    rcases f with ⟨l, w⟩
    obtain ⟨head, tail⟩ := List.pairwise_cons.1 h
    by_cases same : l.Same k
    · -- The present key keeps its place, so nothing changes among the keys.
      rw [put, if_pos same]
      exact List.pairwise_cons.2 ⟨fun e he => head e he, tail⟩
    · -- The head differs from the old keys and from the new one.
      rw [put, if_neg same]
      refine List.pairwise_cons.2 ⟨fun e he => ?_, ih tail⟩
      rcases mem_put he with ⟨g, hg, same_key⟩ | new
      · exact same_key ▸ head g hg
      · exact new ▸ same

/-- Mapping with a value stored under a key. -/
def insert (m : Mapping α) (k : Key) (v : α) : Mapping α :=
  ⟨put k v m.entries, pairwise_put k v m.distinct⟩

/-- Mapping of entries inserted in order. -/
def ofList (es : List (Key × α)) : Mapping α :=
  es.foldl (fun m e => m.insert e.1 e.2) empty

/-- Mapping with the values that `f` gives. An entry is left out if it gives none. -/
def filterMap {β : Type} (f : Key → α → Option β) (m : Mapping α) : Mapping β where
  entries := m.entries.filterMap fun e => (f e.1 e.2).map fun w => (e.1, w)
  distinct := by
    refine List.Pairwise.filterMap _ ?_ m.distinct
    intro e e' different g hg g' hg'
    obtain ⟨w, -, rfl⟩ := Option.map_eq_some_iff.1 hg
    obtain ⟨w', -, rfl⟩ := Option.map_eq_some_iff.1 hg'
    exact different

/-- Keys with only the first of the same ones kept. -/
def distinctKeys (ks : List Key) : List Key := (ofList (ks.map fun k => (k, ()))).keys

@[simp] theorem ofList_nil : (ofList [] : Mapping α) = empty := rfl

theorem lookup_put (k l : Key) (v : α) (es : List (Key × α)) :
    lookup l (put k v es) = if k.Same l then some v else lookup l es := by
  induction es with
  | nil => rfl
  | cons f es ih =>
    rcases f with ⟨m, w⟩
    by_cases same : m.Same k
    · rw [put, if_pos same, lookup, lookup]
      by_cases h : m.Same l
      · rw [if_pos h, if_pos (same.symm.trans h)]
      · rw [if_neg h, if_neg fun h' => h (same.trans h'), if_neg h]
    · rw [put, if_neg same, lookup, lookup, ih]
      by_cases h : m.Same l
      · rw [if_pos h, if_neg fun h' => same (h.trans h'.symm), if_pos h]
      · rw [if_neg h, if_neg h]

/-- An insertion changes the value of its key alone. -/
theorem get?_insert (m : Mapping α) (k l : Key) (v : α) :
    (m.insert k v).get? l = if k.Same l then some v else m.get? l :=
  lookup_put k l v m.entries

/-- An entry gives its key its value, if the key is the same as itself. -/
theorem get?_of_mem {m : Mapping α} {k : Key} {v : α} (h : (k, v) ∈ m.entries) (self : k.Same k) :
    m.get? k = some v := by
  rcases m with ⟨es, distinct⟩
  rw [get?]
  induction es with
  | nil => cases h
  | cons e es ih =>
    obtain ⟨head, tail⟩ := List.pairwise_cons.1 distinct
    rcases List.mem_cons.1 h with rfl | h
    · exact if_pos self
    · rw [lookup, if_neg (head (k, v) h)]
      exact ih tail h

theorem ofList_concat (es : List (Key × α)) (k : Key) (v : α) :
    ofList (es ++ [(k, v)]) = (ofList es).insert k v := by
  rw [ofList, List.foldl_append]
  rfl

/-- The last of the inserted entries gives its key its value. -/
theorem get?_ofList_append (es : List (Key × α)) (k l : Key) (v : α) :
    (ofList (es ++ [(k, v)])).get? l = if k.Same l then some v else (ofList es).get? l := by
  rw [ofList_concat]
  exact get?_insert _ k l v

end Mapping

end Stencil
