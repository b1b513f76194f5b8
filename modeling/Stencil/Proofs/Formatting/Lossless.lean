import Mathlib.Data.Set.Function
import Stencil.Proofs.Formatting.WellFormed

/-!
# Losslessness

A formatting gives different results for different messages exactly when its pattern drops nothing,
as long as the messages have a unit for every copy (`formatBy_injOn_iff`).

Where something is dropped, two messages that differ there only collide. Where nothing is, two
messages with the same result are compared directive by directive. Their first units can differ
only if one is a pair and the other its high half; then the two results are shifted against each
other by the low half, the literals pass the shift on, and the next unit of the message would have
to start with the low half (`output_run_ne_cons_low`).
-/

namespace Stencil

namespace TextUnit

/-- Two texts that start with a unit each are equal only if the units are, or if one of them is a
pair and the other one its high half. -/
theorem toText_append_cases {u v : TextUnit} {s t : Text}
    (h : u.toText ++ s = v.toText ++ t) :
    (u = v ∧ s = t) ∨
      (∃ high low, high.IsHigh ∧ low.IsLow ∧ u = single high ∧ s = low :: t) ∨
        ∃ high low, high.IsHigh ∧ low.IsLow ∧ v = single high ∧ t = low :: s := by
  cases u with
  | single c =>
      cases v with
      | single d =>
          obtain ⟨rfl, rest⟩ := List.cons.inj h
          exact Or.inl ⟨rfl, rest⟩
      | pair high low sur =>
          obtain ⟨rfl, rest⟩ := List.cons.inj h
          exact Or.inr (Or.inl ⟨c, low, sur.1, sur.2, rfl, rest⟩)
  | pair high low sur =>
      cases v with
      | single d =>
          obtain ⟨rfl, rest⟩ := List.cons.inj h
          exact Or.inr (Or.inr ⟨high, low, sur.1, sur.2, rfl, rest.symm⟩)
      | pair high' low' sur' =>
          obtain ⟨rfl, rest⟩ := List.cons.inj h
          obtain ⟨rfl, same⟩ := List.cons.inj rest
          exact Or.inl ⟨rfl, same⟩

/-- A shift by a low surrogate goes through a unit that both texts start with. -/
theorem eq_cons_of_toText_append {u : TextUnit} {low : CodePoint} (hl : low.IsLow) {s t : Text}
    (h : u.toText ++ s = low :: (u.toText ++ t)) : s = low :: t := by
  cases u with
  | single c =>
      obtain ⟨rfl, rest⟩ := List.cons.inj h
      exact rest
  | pair high low' sur =>
      obtain ⟨rfl, -⟩ := List.cons.inj h
      exact absurd hl (CodePoint.not_isLow_of_isHigh sur.1)

theorem first_eq_of_toText_append {u : TextUnit} {c : CodePoint} {s t : Text}
    (h : u.toText ++ s = c :: t) : u.first = c := by
  have heads := congrArg List.head? h
  rw [List.head?_append, head?_toText] at heads
  exact Option.some.inj heads

/-- Behind a lone high surrogate no unit starts with a low one. -/
theorem Canonical.not_isLow_first {high : CodePoint} (hh : high.IsHigh) {us : List TextUnit}
    (h : Canonical (single high :: us)) : ∀ v ∈ us.head?, ¬ v.first.IsLow := by
  intro v hv low
  exact (List.isChain_cons.1 h).1 v hv (halves_of_first_isLow hh low)

end TextUnit

open TextUnit (Canonical)

namespace Pattern

/-! ## Where nothing is dropped -/

/-- Patterns that leave out no unit of a message. -/
def KeepsAll (p : Pattern) : Prop := .drop ∉ p ∧ .dropRest ∉ p

theorem KeepsAll.tail {d : Directive} {p : Pattern} (h : KeepsAll (d :: p)) : KeepsAll p :=
  ⟨mt (List.mem_cons_of_mem d) h.1, mt (List.mem_cons_of_mem d) h.2⟩

/-- Two results of a pattern are not shifted against each other by a low surrogate, unless the
message itself starts with one. The induction is on the pattern: what it writes passes the shift
on, and the first unit of the message that comes out stops it. -/
theorem output_run_ne_cons_low {p : Pattern} (keeps : p.KeepsAll) {us : List TextUnit}
    (enough : p.countP Directive.takesUnit ≤ us.length)
    (first : ∀ v ∈ us.head?, ¬ v.first.IsLow) {low : CodePoint} (hl : low.IsLow)
    (vs : List TextUnit) : (p.run us).output ≠ low :: (p.run vs).output := by
  -- A unit of the message in front of all else is not the low surrogate.
  have stopped : ∀ v ∈ us.head?, ∀ s t : Text, v.toText ++ s ≠ low :: t := by
    intro v hv s t h
    exact first v hv (TextUnit.first_eq_of_toText_append h ▸ hl)
  intro shifted
  induction p with
  | nil =>
      cases us with
      | nil => exact nomatch shifted
      | cons v us =>
          -- The whole message is left over, and its first unit comes out first.
          exact stopped v rfl _ _ shifted
  | cons d p ih =>
      rw [List.countP_cons] at enough
      cases d with
      | write u =>
          -- Both results start with `u`, so the shift is still there behind it.
          rw [output_write, output_write] at shifted
          exact ih keeps.tail enough (TextUnit.eq_cons_of_toText_append hl shifted)
      | unfinished =>
          rw [output_unfinished, output_unfinished] at shifted
          exact ih keeps.tail enough (TextUnit.eq_cons_of_toText_append hl shifted)
      | copy =>
          obtain ⟨v, us, rfl⟩ := List.exists_cons_of_length_pos (Nat.zero_lt_of_lt enough)
          rw [output_copy] at shifted
          exact stopped v rfl _ _ shifted
      | drop => exact keeps.1 List.mem_cons_self
      | dropRest => exact keeps.2 List.mem_cons_self

/-- Messages with the same result are the same, where nothing is dropped and no copy starves. -/
theorem eq_of_output_run_eq {p : Pattern} (keeps : p.KeepsAll) {us vs : List TextUnit}
    (hu : Canonical us) (hv : Canonical vs)
    (enoughUs : p.countP Directive.takesUnit ≤ us.length)
    (enoughVs : p.countP Directive.takesUnit ≤ vs.length)
    (same : (p.run us).output = (p.run vs).output) : us = vs := by
  induction p generalizing us vs with
  | nil =>
      have texts : Text.ofUnits us = Text.ofUnits vs := same
      rw [← Text.units_ofUnits hu, texts, Text.units_ofUnits hv]
  | cons d p ih =>
      rw [List.countP_cons] at enoughUs enoughVs
      cases d with
      | write w =>
          rw [output_write, output_write] at same
          exact ih keeps.tail hu hv enoughUs enoughVs (List.append_cancel_left same)
      | unfinished =>
          rw [output_unfinished, output_unfinished] at same
          exact ih keeps.tail hu hv enoughUs enoughVs (List.append_cancel_left same)
      | copy =>
          obtain ⟨u, us, rfl⟩ := List.exists_cons_of_length_pos (Nat.zero_lt_of_lt enoughUs)
          obtain ⟨v, vs, rfl⟩ := List.exists_cons_of_length_pos (Nat.zero_lt_of_lt enoughVs)
          have leftUs := Nat.le_of_succ_le_succ enoughUs
          have leftVs := Nat.le_of_succ_le_succ enoughVs
          rw [output_copy, output_copy] at same
          rcases TextUnit.toText_append_cases same with
            ⟨rfl, rest⟩ | ⟨high, low, hh, hl, rfl, shift⟩ | ⟨high, low, hh, hl, rfl, shift⟩
          · -- The same unit came first, so the rest of both messages gives the same result.
            obtain ⟨-, hu⟩ := List.isChain_cons.1 hu
            obtain ⟨-, hv⟩ := List.isChain_cons.1 hv
            rw [ih keeps.tail hu hv leftUs leftVs rest]
          · -- The first message goes on behind a lone high surrogate, so not with the low one.
            apply absurd shift
            exact output_run_ne_cons_low keeps.tail leftUs (hu.not_isLow_first hh) hl vs
          · apply absurd shift
            exact output_run_ne_cons_low keeps.tail leftVs (hv.not_isLow_first hh) hl us
      | drop => exact absurd List.mem_cons_self keeps.1
      | dropRest => exact absurd List.mem_cons_self keeps.2

/-! ## Where something is dropped -/

/-- A run that clears the message behind its first units does not see the others. -/
theorem entries_append_queue_of_dropRest {p : Pattern} (hr : .dropRest ∈ p)
    {front : List TextUnit} (enough : p.countP Directive.takesUnit ≤ front.length)
    (back : List TextUnit) : (p.run (front ++ back)).entries = (p.run front).entries := by
  rw [Run.entries, Run.entries, written_append_queue enough, leftover_run, leftover_run,
    waiting_of_mem hr, waiting_of_mem hr]

/-- A drop does not see the unit that it takes. -/
theorem entries_drop_eq (p q : Pattern) {front : List TextUnit}
    (here : p.countP Directive.takesUnit = front.length) (u v : TextUnit)
    (back : List TextUnit) :
    (run (p ++ .drop :: q) (front ++ u :: back)).entries =
      (run (p ++ .drop :: q) (front ++ v :: back)).entries := by
  rw [entries_append, entries_append, written_append_queue (Nat.le_of_eq here),
    written_append_queue (Nat.le_of_eq here), entries_cons, entries_cons]
  by_cases hr : Directive.dropRest ∈ p
  · rw [waiting_of_mem hr, waiting_of_mem hr]
  · rw [waiting_of_not_mem hr, waiting_of_not_mem hr, here, List.drop_left, List.drop_left]
    rfl

end Pattern

/-- Markers with one other unit between them. -/
def TextUnit.probe (front back : Nat) (u : TextUnit) : List TextUnit :=
  List.replicate front .marker ++ u :: List.replicate back .marker

namespace TextUnit

variable {front back : Nat}

theorem length_probe (u : TextUnit) : (probe front back u).length = front + back + 1 := by
  simp only [probe, List.length_append, List.length_cons, List.length_replicate]
  omega

theorem probe_inj {u v : TextUnit} (h : probe front back u = probe front back v) : u = v :=
  (List.cons.inj (List.append_cancel_left h)).1

theorem units_probe {u : TextUnit} (h : ¬ u.IsLone) :
    (Text.ofUnits (probe front back u)).units = probe front back u := by
  apply Text.units_ofUnits
  apply canonical_of_not_isLone
  intro v hv
  rcases List.mem_append.1 hv with inFront | here
  · rw [List.eq_of_mem_replicate inFront]
    exact not_isLone_marker
  · rcases List.mem_cons.1 here with rfl | behind
    · exact h
    · rw [List.eq_of_mem_replicate behind]
      exact not_isLone_marker

end TextUnit

open TextUnit (probe units_probe)

/-- A pattern that drops does not see one unit of some message as long as it asks for. -/
theorem Pattern.exists_unseen {p : Pattern} (lost : ¬ p.KeepsAll) :
    ∃ front back : Nat, p.countP Directive.takesUnit ≤ front + back ∧ ∀ u v : TextUnit,
      (p.run (probe front back u)).entries = (p.run (probe front back v)).entries := by
  rw [KeepsAll, not_and_or, not_not, not_not] at lost
  rcases lost with hd | hr
  · -- The unit that the drop takes is the one behind those that are asked for before it.
    obtain ⟨before, after, rfl⟩ := List.append_of_mem hd
    refine ⟨before.countP Directive.takesUnit, after.countP Directive.takesUnit + 1, ?_, ?_⟩
    · rw [List.countP_append, List.countP_cons]
      exact Nat.le_refl _
    · intro u v
      exact entries_drop_eq before after List.length_replicate.symm u v _
  · -- Whatever is asked for stands in front, and the last unit is cleared away.
    refine ⟨p.countP Directive.takesUnit, 0, Nat.le_refl _, ?_⟩
    intro u v
    have enough : p.countP Directive.takesUnit ≤
        (List.replicate (p.countP Directive.takesUnit) TextUnit.marker).length :=
      Nat.le_of_eq List.length_replicate.symm
    rw [probe, probe, entries_append_queue_of_dropRest hr enough,
      entries_append_queue_of_dropRest hr enough]

namespace Text

variable {pattern : Text}

/-- Messages with a unit for every copy and every drop of a pattern. -/
def feeding (pattern : Text) : Set Text :=
  {message : Text | message ≠ [] ∧ pattern.summary.consumed ≤ message.units.length}

theorem ofUnits_probe_mem_feeding {front back : Nat} {u : TextUnit} (h : ¬ u.IsLone)
    (enough : (Pattern.ofText pattern).countP Directive.takesUnit ≤ front + back) :
    ofUnits (probe front back u) ∈ feeding pattern := by
  constructor
  · intro empty
    have units : (ofUnits (probe front back u)).units = probe front back u := units_probe h
    rw [empty, units_nil] at units
    exact List.append_ne_nil_of_right_ne_nil _ (List.cons_ne_nil _ _) units.symm
  · rw [units_probe h, TextUnit.length_probe, summary_consumed]
    omega

/-- A pattern that drops has two messages with the same result. -/
theorem not_injOn_feeding (lost : ¬ (Pattern.ofText pattern).KeepsAll) :
    ¬ Set.InjOn (formatBy · pattern) (feeding pattern) := by
  obtain ⟨front, back, enough, unseen⟩ := Pattern.exists_unseen lost
  have fed : ∀ k : Control, ofUnits (probe front back k.unit) ∈ feeding pattern := by
    intro k
    exact ofUnits_probe_mem_feeding (TextUnit.not_isLone_unit k) enough
  have result : ∀ k : Control, formatBy (ofUnits (probe front back k.unit)) pattern =
      ((Pattern.ofText pattern).run (probe front back k.unit)).output := by
    intro k
    rw [formatBy_eq_output (fed k).1, runBy, units_probe (TextUnit.not_isLone_unit k)]
  have same : formatBy (ofUnits (probe front back Control.copy.unit)) pattern =
      formatBy (ofUnits (probe front back Control.drop.unit)) pattern := by
    rw [result, result]
    exact congrArg ofUnits (unseen _ _)
  intro injective
  have units := congrArg Text.units (injective (fed .copy) (fed .drop) same)
  rw [units_probe (TextUnit.not_isLone_unit _), units_probe (TextUnit.not_isLone_unit _)] at units
  exact absurd (Control.unit_inj.1 (TextUnit.probe_inj units)) (by decide)

/-- A pattern that drops nothing gives different results for different messages. -/
theorem injOn_feeding (keeps : (Pattern.ofText pattern).KeepsAll) :
    Set.InjOn (formatBy · pattern) (feeding pattern) := by
  rintro s ⟨hs, enoughS⟩ t ⟨ht, enoughT⟩ same
  rw [summary_consumed] at enoughS enoughT
  have outputs : (s.runBy pattern).output = (t.runBy pattern).output := by
    rw [← formatBy_eq_output hs, ← formatBy_eq_output ht]
    exact same
  apply units_inj.1
  exact Pattern.eq_of_output_run_eq keeps (canonical_units s) (canonical_units t) enoughS enoughT
    outputs

/-- A summary shows whether a pattern leaves out nothing. -/
theorem summary_keepsAll :
    pattern.summary.drops = 0 ∧ pattern.summary.dropsRest = false ↔
      (Pattern.ofText pattern).KeepsAll := by
  refine and_congr List.count_eq_zero ?_
  rw [← summary_dropsRest, Bool.not_eq_true]

/-- A formatting tells all messages apart that have a unit for every copy and drop, exactly when
its pattern drops neither a unit nor the rest. -/
theorem formatBy_injOn_iff (pattern : Text) :
    Set.InjOn (fun message : Text => message.formatBy pattern)
        {message : Text | message ≠ [] ∧ pattern.summary.consumed ≤ message.units.length} ↔
      pattern.summary.drops = 0 ∧ pattern.summary.dropsRest = false := by
  rw [summary_keepsAll]
  constructor
  · intro injective
    by_contra lost
    exact not_injOn_feeding lost injective
  · intro keeps
    exact injOn_feeding keeps

end Text

end Stencil
