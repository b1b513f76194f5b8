import Mathlib.Data.List.Basic
import Mathlib.Data.List.Induction
import Stencil.Settings.Mapping

/-!
# Entries of a mapping

A mapping is made of its entries (`ofList_entries`), and a text is found in it exactly with the
value of its entry (`get?_text_eq_some_iff`).

Of entries that are inserted in order, a mapping keeps each key at its first position with its last
value (`entries_ofList`). A value that is overwritten later is not seen (`ofList_overwritten`).
-/

namespace Stencil.Mapping

variable {α : Type}

/-! ## A mapping from its entries -/

theorem ext {m n : Mapping α} (h : m.entries = n.entries) : m = n := by
  cases m; cases n; cases h; rfl

/-- A new key goes to the end. -/
theorem put_of_new {k : Key} {es : List (Key × α)} (new : ∀ e ∈ es, ¬ e.1.Same k) (v : α) :
    put k v es = es ++ [(k, v)] := by
  induction es with
  | nil => rfl
  | cons e es ih =>
      obtain ⟨l, w⟩ := e
      have different : ¬ l.Same k := new (l, w) List.mem_cons_self
      have rest : ∀ e ∈ es, ¬ e.1.Same k := by
        intro e he
        exact new e (List.mem_cons_of_mem _ he)
      rw [put, if_neg different, ih rest, List.cons_append]

/-- Entries with new keys are added behind those of a mapping. The induction is on the entries
that are added, and the mapping takes them up one by one. -/
theorem entries_foldl_insert (m : Mapping α) {es : List (Key × α)}
    (distinct : (m.entries ++ es).Pairwise fun e f => ¬ e.1.Same f.1) :
    (es.foldl (fun n e => n.insert e.1 e.2) m).entries = m.entries ++ es := by
  induction es generalizing m with
  | nil => exact (List.append_nil _).symm
  | cons e es ih =>
      obtain ⟨-, -, apart⟩ := List.pairwise_append.1 distinct
      have added : (m.insert e.1 e.2).entries = m.entries ++ [e] := by
        apply put_of_new
        intro f hf
        exact apart f hf e List.mem_cons_self
      have whole : (m.insert e.1 e.2).entries ++ es = m.entries ++ e :: es := by
        rw [added, List.append_assoc, List.singleton_append]
      rw [List.foldl_cons, ih (m.insert e.1 e.2) (whole ▸ distinct), whole]

theorem ofList_entries (m : Mapping α) : ofList m.entries = m := by
  apply ext
  exact entries_foldl_insert empty m.distinct

/-! ## What is found -/

theorem mem_keys_iff {m : Mapping α} {k : Key} : k ∈ m.keys ↔ ∃ v, (k, v) ∈ m.entries := by
  simp [keys]

theorem mem_of_lookup_eq_some {k : Key} {v : α} {es : List (Key × α)}
    (h : lookup k es = some v) : ∃ l, l.Same k ∧ (l, v) ∈ es := by
  induction es with
  | nil => exact nomatch h
  | cons e es ih =>
      obtain ⟨l, w⟩ := e
      by_cases same : l.Same k
      · rw [lookup, if_pos same] at h
        obtain rfl : w = v := Option.some.inj h
        exact ⟨l, same, List.mem_cons_self⟩
      · rw [lookup, if_neg same] at h
        obtain ⟨l', same', found⟩ := ih h
        exact ⟨l', same', List.mem_cons_of_mem _ found⟩

theorem mem_filterMap_iff {β : Type} {f : Key → α → Option β} {m : Mapping α} {k : Key} {w : β} :
    (k, w) ∈ (m.filterMap f).entries ↔ ∃ v, (k, v) ∈ m.entries ∧ f k v = some w := by
  show (k, w) ∈ m.entries.filterMap _ ↔ _
  rw [List.mem_filterMap]
  constructor
  · rintro ⟨⟨l, v⟩, found, given⟩
    obtain ⟨w', value, same⟩ := Option.map_eq_some_iff.1 given
    obtain ⟨rfl, rfl⟩ := Prod.mk.inj same
    exact ⟨v, found, value⟩
  · rintro ⟨v, found, value⟩
    exact ⟨(k, v), found, Option.map_eq_some_iff.2 ⟨w, value, rfl⟩⟩

/-- A text is the same as no other key, so it is found with the value of its own entry. -/
theorem get?_text_eq_some_iff {m : Mapping α} {t : Text} {v : α} :
    m.get? (.text t) = some v ↔ (.text t, v) ∈ m.entries := by
  constructor
  · intro h
    obtain ⟨l, same, found⟩ := mem_of_lookup_eq_some h
    rwa [Key.same_text_iff.1 same] at found
  · intro h
    exact get?_of_mem h (Key.same_text t)

/-- A text has one value only. -/
theorem eq_of_mem_text {m : Mapping α} {t : Text} {v w : α} (hv : (.text t, v) ∈ m.entries)
    (hw : (.text t, w) ∈ m.entries) : v = w := by
  have same := (get?_text_eq_some_iff.2 hv).symm.trans (get?_text_eq_some_iff.2 hw)
  exact Option.some.inj same

/-- No key occurs twice if all are texts. -/
theorem nodup_keys {m : Mapping α} (named : ∀ e ∈ m.entries, ∃ t, e.1 = .text t) :
    m.keys.Nodup := by
  refine List.pairwise_map.2 (m.distinct.imp_of_mem ?_)
  rintro e f found - different equal
  obtain ⟨t, name⟩ := named e found
  apply different
  rw [← equal, name]
  exact Key.same_text t

/-! ## First positions and last values -/

/-- Last value that entries give to the key `k`, or `v` if there is none. -/
def lastValue (k : Key) (v : α) (es : List (Key × α)) : α :=
  ((es.filter fun e => k.Same e.1).map Prod.snd).getLastD v

/-- Entries with each key at its first position and with its last value. -/
def condensed : List (Key × α) → List (Key × α)
  | [] => []
  | (k, v) :: es => (k, lastValue k v es) :: (condensed es).filter fun e => ¬ k.Same e.1

theorem lastValue_cons (k l : Key) (v w : α) (es : List (Key × α)) :
    lastValue k v ((l, w) :: es) = lastValue k (if k.Same l then w else v) es := by
  rw [lastValue, lastValue]
  by_cases same : k.Same l
  · rw [List.filter_cons_of_pos (by simpa using same), List.map_cons, List.getLastD_cons,
      if_pos same]
  · rw [List.filter_cons_of_neg (by simpa using same), if_neg same]

theorem lastValue_append (k : Key) (v : α) (es fs : List (Key × α)) :
    lastValue k v (es ++ fs) = lastValue k (lastValue k v es) fs := by
  induction es generalizing v with
  | nil => rfl
  | cons e es ih =>
      obtain ⟨l, w⟩ := e
      rw [List.cons_append, lastValue_cons, lastValue_cons, ih]

/-- Among entries with the key, it does not matter which value it had before. -/
theorem lastValue_eq_of_mem {k : Key} {es : List (Key × α)} (later : ∃ e ∈ es, k.Same e.1)
    (v w : α) : lastValue k v es = lastValue k w es := by
  obtain ⟨e, found, same⟩ := later
  have given : e ∈ es.filter fun e => k.Same e.1 := by
    rw [List.mem_filter]
    exact ⟨found, decide_eq_true same⟩
  obtain ⟨f, fs, split⟩ := List.exists_cons_of_ne_nil (List.ne_nil_of_mem given)
  rw [lastValue, lastValue, split, List.map_cons, List.getLastD_cons, List.getLastD_cons]

/-- An insertion is not seen among the keys that differ from its own. -/
theorem filter_put_of_same {k l : Key} (same : k.Same l) (v : α) (es : List (Key × α)) :
    (put l v es).filter (fun e => ¬ k.Same e.1) = es.filter fun e => ¬ k.Same e.1 := by
  induction es with
  | nil => simp [put, same]
  | cons e es ih =>
      obtain ⟨m, w⟩ := e
      by_cases h : m.Same l
      · -- The replaced entry has the key itself, so neither form of it is left.
        have gone : k.Same m := same.trans h.symm
        rw [put, if_pos h, List.filter_cons_of_neg (by simpa using gone),
          List.filter_cons_of_neg (by simpa using gone)]
      · rw [put, if_neg h, List.filter_cons, List.filter_cons, ih]

/-- An insertion under another key may be made before or after the entries of a key are removed. -/
theorem filter_put_of_not_same {k l : Key} (different : ¬ k.Same l) (v : α)
    (es : List (Key × α)) :
    (put l v es).filter (fun e => ¬ k.Same e.1) = put l v (es.filter fun e => ¬ k.Same e.1) := by
  induction es with
  | nil => simp [put, different]
  | cons e es ih =>
      obtain ⟨m, w⟩ := e
      by_cases h : m.Same l
      · have stays : ¬ k.Same m := fun same => different (same.trans h)
        rw [put, if_pos h, List.filter_cons_of_pos (by simpa using stays),
          List.filter_cons_of_pos (by simpa using stays), put, if_pos h]
      · rw [put, if_neg h]
        by_cases gone : k.Same m
        · rw [List.filter_cons_of_neg (by simpa using gone),
            List.filter_cons_of_neg (by simpa using gone), ih]
        · rw [List.filter_cons_of_pos (by simpa using gone),
            List.filter_cons_of_pos (by simpa using gone), ih, put, if_neg h]

/-- One more entry is put into the condensed ones. The induction is on the entries in front of it,
of which the first either has its key or leaves it to the others. -/
theorem condensed_concat (es : List (Key × α)) (k : Key) (v : α) :
    condensed (es ++ [(k, v)]) = put k v (condensed es) := by
  induction es with
  | nil => rfl
  | cons e es ih =>
      obtain ⟨l, w⟩ := e
      rw [List.cons_append, condensed, condensed, put, ih, lastValue_append, lastValue_cons]
      by_cases same : l.Same k
      · rw [if_pos same, if_pos same, filter_put_of_same same]
        rfl
      · rw [if_neg same, if_neg same, filter_put_of_not_same same]
        rfl

/-- Of the entries it is made of, a mapping has each key at its first position with its last
value. -/
theorem entries_ofList (es : List (Key × α)) : (ofList es).entries = condensed es := by
  induction es using List.reverseRecOn with
  | nil => rfl
  | append_singleton es e ih =>
      obtain ⟨k, v⟩ := e
      rw [ofList_concat, condensed_concat, ← ih]
      rfl

/-- The key is written as in the first entry, although the later one writes it as a number. -/
example :
    condensed [(.bool true, 5), (.null, 6), (.int 1, 7)] = [(.bool true, 7), (.null, 6)] := rfl

/-- The value of an entry does not matter if a later one has the same key. -/
theorem ofList_overwritten {k : Key} {behind : List (Key × α)} (later : ∃ e ∈ behind, k.Same e.1)
    (before : List (Key × α)) (v w : α) :
    ofList (before ++ (k, v) :: behind) = ofList (before ++ (k, w) :: behind) := by
  apply ext
  rw [entries_ofList, entries_ofList]
  induction before with
  | nil =>
      rw [List.nil_append, List.nil_append, condensed, condensed, lastValue_eq_of_mem later v w]
  | cons e before ih =>
      obtain ⟨l, u⟩ := e
      have value : lastValue l u (before ++ (k, v) :: behind) =
          lastValue l u (before ++ (k, w) :: behind) := by
        rw [lastValue_append, lastValue_append, lastValue_cons, lastValue_cons]
        by_cases same : l.Same k
        · -- The later entry gives a value to this key too.
          obtain ⟨f, found, same'⟩ := later
          exact lastValue_eq_of_mem ⟨f, found, same.trans same'⟩ _ _
        · rw [if_neg same, if_neg same]
      rw [List.cons_append, List.cons_append, condensed, condensed, ih, value]

end Stencil.Mapping
