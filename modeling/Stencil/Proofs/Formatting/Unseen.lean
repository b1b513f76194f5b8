import Stencil.Proofs.Formatting.Composition
import Stencil.Proofs.Pattern.Clearing
import Stencil.Proofs.Pattern.Parity

/-!
# What a result does not show

A unit that is dropped leaves no trace in the result, and neither does anything behind a drop of the
rest. Two runs of one pattern are compared: what they write is the same as long as they find units
for the same number of copies and drops, and the same unit wherever a copy takes one
(`Pattern.Agree`). One directive keeps that relation (`Pattern.Agree.step`), so both runs keep it,
whether or not the messages go on differently (`Text.formatBy_unseen`).
-/

namespace Stencil

namespace Pattern

/-- Two queues that a pattern cannot tell apart by what it writes: they have the same number of the
units that are asked for, and those that are copied are the same. -/
structure Agree (p : Pattern) (us vs : List TextUnit) : Prop where
  fed : min us.length (p.countP Directive.takesUnit) = min vs.length (p.countP Directive.takesUnit)
  copied : ∀ i < min us.length (p.countP Directive.takesUnit),
    (p.filter Directive.takesUnit)[i]? = some .copy → us[i]? = vs[i]?

/-! ## One directive -/

namespace Agree

variable {p : Pattern} {us vs : List TextUnit}

/-- Where a unit is asked for, either both queues have one or none of them has. -/
theorem cases_of_takesUnit {d : Directive} (hd : d.takesUnit = true) (h : Agree (d :: p) us vs) :
    (us = [] ∧ vs = []) ∨ ∃ u v us' vs', us = u :: us' ∧ vs = v :: vs' ∧ Agree p us' vs' ∧
      (d = .copy → u = v) := by
  obtain ⟨fed, copied⟩ := h
  rw [List.countP_cons_of_pos hd] at fed copied
  rw [List.filter_cons_of_pos hd] at copied
  cases us with
  | nil =>
      cases vs with
      | nil => exact Or.inl ⟨rfl, rfl⟩
      | cons v vs => simp at fed
  | cons u us =>
      cases vs with
      | nil => simp at fed
      | cons v vs =>
          simp only [List.length_cons, Nat.add_min_add_right] at fed copied
          refine Or.inr ⟨u, v, us, vs, rfl, rfl, ⟨Nat.succ.inj fed, ?_⟩, ?_⟩
          · intro i hi taken
            exact copied (i + 1) (Nat.succ_lt_succ hi) taken
          · rintro rfl
            exact Option.some.inj (copied 0 (Nat.succ_pos _) rfl)

/-- A directive writes the same in front of both queues, and leaves two that agree. -/
theorem step {d : Directive} (h : Agree (d :: p) us vs) :
    d.written? us.head? = d.written? vs.head? ∧ Agree p (d.perform us).2 (d.perform vs).2 := by
  cases d with
  | write u => exact ⟨rfl, h.fed, h.copied⟩
  | unfinished => exact ⟨rfl, h.fed, h.copied⟩
  | copy =>
      rcases h.cases_of_takesUnit rfl with
        ⟨rfl, rfl⟩ | ⟨u, v, us, vs, rfl, rfl, rest, same⟩
      · exact ⟨rfl, rfl, fun _ _ _ => rfl⟩
      · obtain rfl := same rfl
        exact ⟨rfl, rest⟩
  | drop =>
      -- The units that are dropped may be different ones.
      rcases h.cases_of_takesUnit rfl with ⟨rfl, rfl⟩ | ⟨u, v, us, vs, rfl, rfl, rest, -⟩
      · exact ⟨rfl, rfl, fun _ _ _ => rfl⟩
      · exact ⟨rfl, rest⟩
  | dropRest => exact ⟨rfl, rfl, fun _ _ _ => rfl⟩

/-! ## A whole run -/

theorem written_eq (h : Agree p us vs) : (p.run us).written = (p.run vs).written := by
  induction p generalizing us vs with
  | nil => rfl
  | cons d p ih =>
      obtain ⟨same, rest⟩ := h.step
      rw [written_cons, written_cons, same, ih rest]

/-- When nothing is cleared, the units behind those that are asked for have to be the same. -/
theorem output_eq (h : Agree p us vs) (kept : .dropRest ∉ p)
    (behind : us.drop (p.countP Directive.takesUnit) = vs.drop (p.countP Directive.takesUnit)) :
    (p.run us).output = (p.run vs).output := by
  rw [Run.output, Run.output, Run.entries, Run.entries, h.written_eq, leftover_run, leftover_run,
    waiting_of_not_mem kept, waiting_of_not_mem kept, behind]

/-- What comes behind a drop of the rest shows nothing of the queues. -/
theorem output_append_dropRest (h : Agree p us vs) (q : Pattern) :
    (run (p ++ .dropRest :: q) us).output = (run (p ++ .dropRest :: q) vs).output := by
  rw [output_append, output_append, output_dropRest, output_dropRest, h.written_eq]

end Agree

end Pattern

namespace Text

/-! ## By places -/

/-- The directive that takes the unit at `i` belongs to the place that asks for it. -/
theorem getElem?_takesUnit_eq_iff {t : Text} {i : Nat} {k : Control} :
    ((Pattern.ofText t).filter Directive.takesUnit)[i]? = some (.ofUnit k.unit) ↔
      ∃ q, t.asking[i]? = some q ∧ q.Acts k := by
  rw [filter_takesUnit_ofText, List.getElem?_map, Option.map_eq_some_iff]
  constructor
  · rintro ⟨q, hq, same⟩
    have active : q.Active := by
      have asks := (List.mem_filter.1 (List.mem_of_getElem? hq)).2
      rcases of_decide_eq_true asks with acts | acts
      · exact acts.2
      · exact acts.2
    exact ⟨q, hq, TextUnit.single.inj (Directive.ofUnit_inj.1 same), active⟩
  · rintro ⟨q, hq, here, -⟩
    refine ⟨q, hq, ?_⟩
    rw [here]
    rfl

/-- Messages agree for a pattern if they have equally many of the units that it asks for, and the
same one at each place that copies. -/
theorem agree_of_asking {t : Text} {us vs : List TextUnit}
    (fed : min us.length t.asking.length = min vs.length t.asking.length)
    (copied : ∀ i < min us.length t.asking.length, (∃ q, t.asking[i]? = some q ∧ q.Acts .copy) →
      us[i]? = vs[i]?) : (Pattern.ofText t).Agree us vs := by
  rw [length_asking] at fed copied
  refine ⟨fed, ?_⟩
  intro i hi taken
  rw [← Directive.ofUnit_copy] at taken
  exact copied i hi (getElem?_takesUnit_eq_iff.1 taken)

/-- Messages of the same length that are the same but for what is dropped have the same result. -/
theorem formatBy_eq_of_dropped {m₁ m₂ pattern : Text} (h₁ : m₁ ≠ []) (h₂ : m₂ ≠ [])
    (kept : .dropRest ∉ Pattern.ofText pattern) (length : m₁.units.length = m₂.units.length)
    (same : ∀ i : Nat, (∀ q, pattern.asking[i]? = some q → ¬ q.Acts .drop) →
      m₁.units[i]? = m₂.units[i]?) :
    m₁.formatBy pattern = m₂.formatBy pattern := by
  have agree : (Pattern.ofText pattern).Agree m₁.units m₂.units := by
    apply agree_of_asking
    · rw [length]
    · rintro i - ⟨q, hq, copies⟩
      apply same
      intro r hr drops
      obtain rfl : q = r := Option.some.inj (hq.symm.trans hr)
      exact absurd (Control.codePoint_inj.1 (copies.1.symm.trans drops.1)) (by decide)
  have behind : m₁.units.drop ((Pattern.ofText pattern).countP Directive.takesUnit) =
      m₂.units.drop ((Pattern.ofText pattern).countP Directive.takesUnit) := by
    apply List.ext_getElem?
    intro i
    rw [List.getElem?_drop, List.getElem?_drop]
    apply same
    intro q hq
    -- Nothing asks for a unit so far behind.
    rw [← length_asking, List.getElem?_eq_none (Nat.le_add_right _ i)] at hq
    exact nomatch hq
  rw [formatBy_eq_output h₁, formatBy_eq_output h₂, runBy, runBy, agree.output_eq kept behind]

/-- A result does not show what was dropped. Without a drop of the rest, messages with equally many
units have the same result if they are the same wherever no drop takes the unit. If some `!` acts,
there is a first one; the messages then need equally many of the units that are asked for in front
of it, with the same one wherever a copy takes it, and may go on in any way. -/
theorem formatBy_unseen {m₁ m₂ : Text} (h₁ : m₁ ≠ []) (h₂ : m₂ ≠ []) (pattern : Text) :
    (pattern.summary.dropsRest = false → m₁.units.length = m₂.units.length →
        (∀ i : Nat, (∀ q, pattern.asking[i]? = some q → ¬ q.Acts .drop) →
          m₁.units[i]? = m₂.units[i]?) →
        m₁.formatBy pattern = m₂.formatBy pattern) ∧
      (pattern.summary.dropsRest = true ↔ ∃! before, pattern.BeforeDropRest before) ∧
      ∀ before, pattern.BeforeDropRest before →
        let c := before.asking.length
        min m₁.units.length c = min m₂.units.length c →
        (∀ i < min m₁.units.length c, (∃ q, before.asking[i]? = some q ∧ q.Acts .copy) →
          m₁.units[i]? = m₂.units[i]?) →
        m₁.formatBy pattern = m₂.formatBy pattern := by
  refine ⟨?_, summary_dropsRest_iff_existsUnique, ?_⟩
  · intro kept length same
    exact formatBy_eq_of_dropped h₁ h₂ (summary_dropsRest_eq_false.1 kept) length same
  · intro before first c fed copied
    obtain ⟨after, reads⟩ := first.ofText
    have agree : (Pattern.ofText before).Agree m₁.units m₂.units := agree_of_asking fed copied
    rw [formatBy_eq_output h₁, formatBy_eq_output h₂, runBy, runBy, reads,
      agree.output_append_dropRest]

/-- A drop takes a pair from one message and a letter from the other; a drop of the rest behind the
same two units takes what is left, however long it is. -/
theorem formatBy_unseen_pair :
    let m₁ : Text := [.ofChar 'A', ⟨0xD83D, by decide⟩, ⟨0xDE48, by decide⟩, .ofChar 'B']
    let m₂ : Text := ['A', 'X', 'B'].map .ofChar
    let m₃ : Text := ['A', 'X', 'Y', 'Z', 'Z'].map .ofChar
    let second : Text := ['_', '#'].map .ofChar
    let rest : Text := ['_', '#', '!', '_'].map .ofChar
    (m₁ ≠ [] ∧ m₂ ≠ [] ∧ m₃ ≠ []) ∧ m₁.formatBy second = m₂.formatBy second ∧
      rest.BeforeDropRest second ∧ m₁.formatBy rest = m₃.formatBy rest := by
  intro m₁ m₂ m₃ second rest
  have nonempty₁ : m₁ ≠ [] := List.cons_ne_nil _ _
  have nonempty₂ : m₂ ≠ [] := List.cons_ne_nil _ _
  have nonempty₃ : m₃ ≠ [] := List.cons_ne_nil _ _
  have asking : second.asking = [⟨[], .ofChar '_'⟩, ⟨[.ofChar '_'], .ofChar '#'⟩] := by
    decide +kernel
  have first : rest.BeforeDropRest second := ⟨⟨_, rfl⟩, by decide +kernel, by decide +kernel⟩
  obtain ⟨dropped, -, -⟩ := formatBy_unseen nonempty₁ nonempty₂ second
  obtain ⟨-, -, cleared⟩ := formatBy_unseen nonempty₁ nonempty₃ rest
  refine ⟨⟨nonempty₁, nonempty₂, nonempty₃⟩, ?_, first, ?_⟩
  · apply dropped (by decide +kernel) (by decide +kernel)
    rintro (_ | _ | i) unseen
    · rfl
    · -- This is the unit that the drop takes.
      have drops : Place.Acts ⟨[.ofChar '_'], .ofChar '#'⟩ .drop := by decide
      exact absurd drops (unseen _ (by rw [asking]; rfl))
    · rfl
  · apply cleared second first (by decide +kernel)
    rintro (_ | _ | i) hi ⟨q, hq, copies⟩
    · rfl
    · rw [asking] at hq
      obtain rfl := Option.some.inj hq
      exact absurd copies (by decide)
    · rw [asking] at hi
      exact absurd (Nat.lt_of_lt_of_le hi (Nat.min_le_right _ _)) (by simp)

end Text

end Stencil
