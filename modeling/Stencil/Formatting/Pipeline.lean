import Stencil.Formatting.Basic
import Stencil.Pattern.Literal

/-!
# Pipelines

A pipeline is a list of stages, each of which replaces a text by another one. The states after
the stages are kept (`states`), one for each stage.
-/

namespace Stencil

/-- Operation on a text: format it as a message, use it as the pattern of a message, escape it, or
drop units from its front. -/
inductive Stage where
  | formatBy (pattern : Text)
  | patternFor (message : Text)
  | escape
  | dropUnits (n : Nat)
  deriving DecidableEq

namespace Stage

/-- Text after a stage. -/
def apply : Stage → Text → Text
  | formatBy pattern, t => t.formatBy pattern
  | patternFor message, t => message.formatBy t
  | escape, t => t.escaped
  | dropUnits n, t => Text.ofUnits (t.units.drop n)

/-- Texts after each of the stages in order. -/
def states : List Stage → Text → List Text
  | [], _ => []
  | s :: stages, t => s.apply t :: states stages (s.apply t)

end Stage

end Stencil
