import Stencil.Pattern.Basic

/-!
# Summary of a pattern

What a pattern does with any message, counted from its directives alone. Counts are natural for a
summary read off a pattern; a summary stated by hand may hold any integers, so the type of the
counts is a parameter. The summary of two patterns in a row is the sum of theirs
(`summary_append`).
-/

namespace Stencil

/-- Counts of the directives of each kind, and whether the message is cleared and the last escape
is unfinished. -/
structure Summary (N : Type) where
  copies : N
  drops : N
  dropsRest : Bool
  literals : N
  unfinished : Bool
  deriving DecidableEq

namespace Summary

variable {M N : Type}

/-- Message units asked for from the front of the message. -/
def consumed [Add N] (s : Summary N) : N := s.copies + s.drops

/-- Summary of a pattern that does nothing. -/
def empty [OfNat N 0] : Summary N := ⟨0, 0, false, 0, false⟩

/-- Summary with each count mapped. -/
def map (f : M → N) (s : Summary M) : Summary N :=
  ⟨f s.copies, f s.drops, s.dropsRest, f s.literals, s.unfinished⟩

/-- Summary of one pattern followed by another. -/
def append [Add N] (s t : Summary N) : Summary N :=
  ⟨s.copies + t.copies, s.drops + t.drops, s.dropsRest || t.dropsRest, s.literals + t.literals,
    s.unfinished || t.unfinished⟩

/-- Natural counts as integers. -/
def toInt (s : Summary Nat) : Summary Int := s.map Int.ofNat

end Summary

namespace Pattern

/-- Summary of a pattern. -/
def summary (p : Pattern) : Summary Nat where
  copies := p.count .copy
  drops := p.count .drop
  dropsRest := p.contains .dropRest
  literals := p.countP Directive.isWrite
  unfinished := p.contains .unfinished

@[simp] theorem summary_nil : summary [] = .empty := rfl

theorem summary_append (p q : Pattern) : summary (p ++ q) = p.summary.append q.summary := by
  simp [summary, Summary.append]

/-- The units asked for are counted by the directives that take one. -/
theorem consumed_summary (p : Pattern) : p.summary.consumed = p.countP Directive.takesUnit := by
  induction p with
  | nil => rfl
  | cons d p ih =>
    simp only [Summary.consumed, summary] at ih
    rw [List.countP_cons, ← ih]
    cases d <;> simp [Summary.consumed, summary, Directive.takesUnit] <;> omega

end Pattern

/-- Summary of a text read as a pattern. -/
def Text.summary (t : Text) : Summary Nat := (Pattern.ofText t).summary

/-- Summary of a text that may be missing; a missing pattern does nothing. -/
def Text.summaryOf : Option Text → Summary Nat
  | none => .empty
  | some t => t.summary

/-- Whether a stated summary is that of a text. -/
def Summary.describes (s : Summary Int) (t : Option Text) : Bool := s = (Text.summaryOf t).toInt

end Stencil
