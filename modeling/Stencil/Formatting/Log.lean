import Stencil.Formatting.Basic
import Stencil.Text.Hexadecimal

/-!
# Log of a formatting

The account of a formatting: each surrogate pair joined in the message, then in the pattern, then
the sizes of both, and at the end the units left over, if there are any. Nothing is recorded when
the message is returned as it is.
-/

namespace Stencil

/-- Recorded event. An index counts code points of the text. -/
inductive Event where
  | joined (index : Nat) (high low : CodePoint)
  | applying (patternUnits messageUnits : Nat)
  | appending (leftover : Nat)
  | disabled
  deriving DecidableEq

/-- Part of the library that an event belongs to. -/
inductive Event.Source where
  | segmentation
  | formatting
  | settings
  deriving DecidableEq

namespace Event

/-- Source of an event. -/
def source : Event → Source
  | joined _ _ _ => .segmentation
  | applying _ _ => .formatting
  | appending _ => .formatting
  | disabled => .settings

/-- Code point in the form of the standard, with at least four digits. -/
def label (c : CodePoint) : String := "U+" ++ String.ofList (Hexadecimal.upper 4 c.toNat)

/-- Wording of an event. -/
def message : Event → String
  | joined index high low => s!"Surrogate pair at index {index}: {label high} {label low}"
  | applying patternUnits messageUnits =>
    s!"Applying pattern of {patternUnits} units to message of {messageUnits} units"
  | appending leftover => s!"Appending {leftover} leftover message units"
  | disabled => "Message pattern disabled; returning message unchanged"

/-- Pairs among units, the first of which starts at `index`. -/
def joins (index : Nat) : List TextUnit → List Event
  | [] => []
  | .single _ :: us => joins (index + 1) us
  | .pair high low _ :: us => .joined index high low :: joins (index + 2) us

/-- The units left over at the end of a run, if there are any. -/
def leftovers (r : Run) : List Event :=
  if r.leftover = [] then [] else [.appending r.leftover.length]

end Event

/-- Result of an operation together with what was recorded during it. -/
structure Logged (α : Type) where
  result : α
  events : List Event

namespace Text

/-- Events of a formatting. -/
def formatEvents (message pattern : Text) : List Event :=
  if message = [] ∨ pattern = [] then []
  else Event.joins 0 message.units ++ Event.joins 0 pattern.units ++
    .applying pattern.units.length message.units.length ::
      Event.leftovers (message.runBy pattern)

/-- Events of a formatting where message or pattern may be missing. -/
def formatEvents? : Option Text → Option Text → List Event
  | some message, some pattern => message.formatEvents pattern
  | _, _ => []

/-- Formatting with its log. -/
def formatLogged (message pattern : Option Text) : Logged (Option Text) :=
  ⟨formatBy? message pattern, formatEvents? message pattern⟩

end Text

/-! ## How many pairs -/

/-- A text has as many pairs as it has code points more than units. -/
theorem Event.length_joins (index : Nat) (us : List TextUnit) :
    (joins index us).length + us.length = (Text.ofUnits us).length := by
  induction us generalizing index with
  | nil => rfl
  | cons u us ih =>
    cases u with
    | single c =>
      have h := ih (index + 1)
      simp [joins]
      omega
    | pair high low s =>
      have h := ih (index + 2)
      simp [joins]
      omega

end Stencil
