import Stencil.Formatting.Log
import Stencil.Pattern.Summary
import Stencil.Settings.Mapping
import Stencil.Settings.Value

/-!
# Settings

The pattern that messages are formatted by, and the switch that turns formatting on. Settings that
were read from a mapping always have a pattern, which may be empty; the pattern of settings
changed by hand may also be missing, and a missing pattern formats as an empty one does.
-/

namespace Stencil

/-- Pattern and switch. -/
structure Settings where
  pattern : Option Text := some []
  enabled : Bool := true
  deriving DecidableEq

namespace Settings

/-- Key of the pattern. -/
def patternKey : Key := .text (.ofString "pattern")

/-- Key of the switch. -/
def enabledKey : Key := .text (.ofString "enabled")

theorem patternKey_ne_enabledKey : patternKey ≠ enabledKey := by
  decide

/-- Value of a text that may be missing. -/
def textValue : Option Text → Value
  | none => .null
  | some t => .text t

/-- Entries of settings. -/
def entries (s : Settings) : List (Key × Value) :=
  [(patternKey, textValue s.pattern), (enabledKey, .bool s.enabled)]

/-- Settings as a mapping. -/
def toMapping (s : Settings) : Mapping Value := .ofList s.entries

/-- Message formatted by the pattern, or the message as it is when formatting is off. -/
def format (s : Settings) (message : Option Text) : Option Text :=
  if s.enabled then Text.formatBy? message s.pattern else message

/-- Events of a formatting under these settings. -/
def formatEvents (s : Settings) (message : Option Text) : List Event :=
  if s.enabled then Text.formatEvents? message s.pattern else [.disabled]

/-- Formatting with its log. -/
def formatLogged (s : Settings) (message : Option Text) : Logged (Option Text) :=
  ⟨s.format message, s.formatEvents message⟩

/-- Summary of the pattern. -/
def summary (s : Settings) : Summary Nat := Text.summaryOf s.pattern

/-- The mapping of settings holds exactly the two keys, in this order. -/
theorem keys_toMapping (s : Settings) : s.toMapping.keys = [patternKey, enabledKey] := rfl

end Settings

end Stencil
