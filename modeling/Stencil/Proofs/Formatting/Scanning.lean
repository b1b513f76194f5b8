import Mathlib.Data.List.Basic
import Stencil.Formatting.Log
import Stencil.Proofs.Loop

/-!
# Scanning a text

The units of a text as a loop over an index: each round looks at the code point at the index and at
the one behind it, puts one unit behind those found so far, and goes on by one or by two. A pair is
recorded together with the index at which it was found.

The loop ends with the units of the text and with the events of its pairs
(`Scanning.reaches_units`). These events are known without a scan: there is one for each index at
which a high surrogate stands in front of a low one, and no other (`joins_units`). The index that is
skipped at a pair holds a low surrogate, where no pair starts.
-/

namespace Stencil

/-! ## Pairs by index -/

namespace Text

/-- The two halves of the pair that starts at an index, if one does. -/
def halvesAt? (t : Text) (i : Nat) : Option (CodePoint × CodePoint) :=
  match t[i]?, t[i + 1]? with
  | some c, some d => if c.IsHigh ∧ d.IsLow then some (c, d) else none
  | _, _ => none

theorem halvesAt?_zero {c d : CodePoint} (h : c.IsHigh ∧ d.IsLow) (t : Text) :
    halvesAt? (c :: d :: t) 0 = some (c, d) := if_pos h

/-- No pair starts where the next code point does not complete one. -/
theorem halvesAt?_zero_eq_none {c : CodePoint} {t : Text}
    (h : ∀ d ∈ t.head?, ¬ (c.IsHigh ∧ d.IsLow)) : halvesAt? (c :: t) 0 = none := by
  cases t with
  | nil => rfl
  | cons d t => exact if_neg (h d rfl)

/-- Events of the pairs of a text whose first code point has the index `start`, one for each index
at which a pair starts. -/
def pairEvents (start : Nat) (t : Text) : List Event :=
  (List.range t.length).filterMap fun i =>
    (t.halvesAt? i).map fun h => .joined (start + i) h.1 h.2

/-- A pair that starts at the first code point comes before those behind. -/
theorem pairEvents_cons (start : Nat) (c : CodePoint) (t : Text) :
    pairEvents start (c :: t) =
      ((halvesAt? (c :: t) 0).map fun h => .joined start h.1 h.2).toList ++
        pairEvents (start + 1) t := by
  have behind : ((List.range t.length).map Nat.succ).filterMap
        (fun i => (halvesAt? (c :: t) i).map fun h => .joined (start + i) h.1 h.2) =
      pairEvents (start + 1) t := by
    rw [List.filterMap_map]
    apply List.filterMap_congr
    intro i _
    rw [Nat.add_right_comm start 1 i]
    rfl
  rw [pairEvents, List.length_cons, List.range_succ_eq_map, List.filterMap_cons, behind]
  cases halvesAt? (c :: t) 0 <;> rfl

/-- Pairs among the units of a text are its pairs by index. The induction is on the scan: the index
that it skips at a pair holds a low surrogate, where no pair starts. -/
theorem joins_units (start : Nat) (t : Text) :
    Event.joins start t.units = pairEvents start t := by
  fun_induction units t generalizing start with
  | case1 => rfl
  | case2 c => rfl
  | case3 c d rest h ih =>
      have low : halvesAt? (d :: rest) 0 = none := by
        apply halvesAt?_zero_eq_none
        intro e _ halves
        exact CodePoint.not_isLow_of_isHigh halves.1 h.2
      rw [pairEvents_cons, pairEvents_cons, halvesAt?_zero h, low, Event.joins, ih]
      rfl
  | case4 c d rest h ih =>
      have alone : halvesAt? (c :: d :: rest) 0 = none := by
        apply halvesAt?_zero_eq_none
        intro e he
        obtain rfl : d = e := Option.some.inj he
        exact h
      rw [pairEvents_cons, alone, Event.joins, ih]
      rfl

end Text

/-! ## The loop -/

/-- Index of the next code point, the units found so far, and the pairs recorded so far. -/
structure Scanning where
  index : Nat
  units : List TextUnit
  events : List Event
  deriving DecidableEq

namespace Scanning

/-- State before the first round. -/
def start : Scanning := ⟨0, [], []⟩

/-- One round of the loop. -/
def step (t : Text) (s : Scanning) : Scanning :=
  match t.drop s.index with
  | [] => s
  | [c] => ⟨s.index + 1, s.units ++ [.single c], s.events⟩
  | c :: d :: _ =>
      if h : c.IsHigh ∧ d.IsLow then
        ⟨s.index + 2, s.units ++ [.pair c d h], s.events ++ [.joined s.index c d]⟩
      else ⟨s.index + 1, s.units ++ [.single c], s.events⟩

/-- The loop goes on while there are code points. -/
def loop (t : Text) : Loop Scanning := ⟨fun s => s.index < t.length, step t⟩

/-- State in which the units of the remaining text leave the loop. -/
def outcome (t : Text) (s : Scanning) : Scanning :=
  let rest := Text.units (t.drop s.index)
  ⟨max s.index t.length, s.units ++ rest, s.events ++ Event.joins s.index rest⟩

variable {t : Text}

/-- A scan that goes on inside the text leaves at its end, like one that has not gone on. -/
theorem outcome_add {i n : Nat} (units : List TextUnit) (events : List Event)
    (inside : n ≤ (t.drop i).length) :
    outcome t ⟨i + n, units, events⟩ =
      let rest := Text.units ((t.drop i).drop n)
      ⟨max i t.length, units ++ rest, events ++ Event.joins (i + n) rest⟩ := by
  have last : max (i + n) t.length = max i t.length := by
    rw [List.length_drop] at inside
    omega
  rw [outcome, last, List.drop_drop]

/-- A round keeps the state with which the loop will end. -/
theorem outcome_step (t : Text) (s : Scanning) : (s.step t).outcome t = s.outcome t := by
  fun_cases step t s with
  | case1 rest => rfl
  | case2 c rest =>
      have inside : 1 ≤ (t.drop s.index).length := by
        rw [rest]
        exact Nat.le_refl 1
      rw [outcome_add _ _ inside, outcome, rest]
      simp [Event.joins]
  | case3 c d rest front h =>
      have inside : 2 ≤ (t.drop s.index).length := by
        rw [front]
        exact Nat.le_add_left 2 _
      rw [outcome_add _ _ inside, outcome, front, Text.units_pair h]
      simp [Event.joins]
  | case4 c d rest front h =>
      have inside : 1 ≤ (t.drop s.index).length := by
        rw [front]
        exact Nat.le_add_left 1 _
      rw [outcome_add _ _ inside, outcome, front, Text.units_single h]
      simp [Event.joins]

/-- A round goes on by one code point at least. -/
theorem index_lt_step {s : Scanning} (h : s.index < t.length) : s.index < (s.step t).index := by
  fun_cases step t s with
  | case1 rest => exact absurd (List.drop_eq_nil_iff.1 rest) (Nat.not_le.2 h)
  | case2 c rest => exact Nat.lt_succ_self _
  | case3 c d rest front h => exact Nat.lt_add_of_pos_right (by decide)
  | case4 c d rest front h => exact Nat.lt_succ_self _

/-- The loop ends with the units of the text, and has recorded its pairs by index. -/
theorem reaches_units (t : Text) :
    (loop t).Reaches start ⟨t.length, t.units, t.pairEvents 0⟩ := by
  have reaches : (loop t).Reaches start (start.outcome t) := by
    apply (loop t).reaches_outcome (outcome t) (fun s => t.length - s.index) (outcome_step t)
    · intro s more
      exact Nat.sub_lt_sub_left more (index_lt_step more)
    · intro s ended
      have past : t.length ≤ s.index := Nat.not_lt.1 ended
      rw [outcome, List.drop_eq_nil_of_le past, Nat.max_eq_left past, Text.units_nil, Event.joins,
        List.append_nil, List.append_nil]
  have found : start.outcome t = ⟨t.length, t.units, t.pairEvents 0⟩ := by
    rw [← Text.joins_units, outcome, start, List.drop_zero, Nat.zero_max]
    rfl
  rwa [found] at reaches

end Scanning

end Stencil
