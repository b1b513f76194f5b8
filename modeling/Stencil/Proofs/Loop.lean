import Mathlib.Logic.Relation

/-!
# Loops

A loop goes through its rounds as long as a condition holds. A loop whose rounds all keep one
outcome, and each of which makes the state smaller, reaches that outcome (`Loop.reaches_outcome`).
-/

namespace Stencil

/-- Condition to go on, and what one round does. -/
structure Loop (σ : Type) where
  goesOn : σ → Prop
  round : σ → σ

namespace Loop

variable {σ : Type}

/-- Some number of rounds lead from one state to the other. -/
def Reaches (l : Loop σ) : σ → σ → Prop :=
  Relation.ReflTransGen fun s t => l.goesOn s ∧ l.round s = t

/-- A measure that each round lowers leads to the outcome that each round keeps. -/
theorem reaches_outcome (l : Loop σ) (outcome : σ → σ) (size : σ → Nat)
    (keeps : ∀ s, outcome (l.round s) = outcome s)
    (lower : ∀ s, l.goesOn s → size (l.round s) < size s)
    (ended : ∀ s, ¬ l.goesOn s → outcome s = s) (s : σ) : l.Reaches s (outcome s) := by
  -- A round may lower the measure by more than one, so the induction is a strong one.
  generalize hn : size s = n
  induction n using Nat.strongRecOn generalizing s with
  | ind n ih =>
      by_cases more : l.goesOn s
      · have rest : l.Reaches (l.round s) (outcome (l.round s)) :=
          ih (size (l.round s)) (hn ▸ lower s more) (l.round s) rfl
        rw [keeps] at rest
        exact Relation.ReflTransGen.head ⟨more, rfl⟩ rest
      · rw [ended s more]
        exact Relation.ReflTransGen.refl

end Loop

end Stencil
