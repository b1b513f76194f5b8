import Stencil.CodePoint
import Stencil.Number.Binary64
import Stencil.Number.Shortest
import Stencil.Text.Basic
import Stencil.Text.TextUnit
import Stencil.Text.Fragment
import Stencil.Text.Hexadecimal
import Stencil.Text.Quoted
import Stencil.Pattern.Control
import Stencil.Pattern.Basic
import Stencil.Pattern.Literal
import Stencil.Pattern.Summary
import Stencil.Formatting.Run
import Stencil.Formatting.Basic
import Stencil.Formatting.Log
import Stencil.Formatting.Pipeline
import Stencil.Settings.Key
import Stencil.Settings.Mapping
import Stencil.Settings.Value
import Stencil.Settings.Switch
import Stencil.Validation.Checker
import Stencil.Validation.Standard
import Stencil.Settings.Error
import Stencil.Settings.Conversion
import Stencil.Settings.Basic
import Stencil.Settings.Check
import Stencil.Settings.Session
import Stencil.Proofs.Formatting.Indexed
import Stencil.Proofs.Text.Canonical
import Stencil.Proofs.Formatting.Composition
import Stencil.Proofs.Formatting.Draining
import Stencil.Proofs.Pattern.Counting
import Stencil.Proofs.Formatting.Account
import Stencil.Proofs.Formatting.Literal
import Stencil.Proofs.Formatting.Expansion
import Stencil.Proofs.Text.Merging
import Stencil.Proofs.Text.Junction
import Stencil.Proofs.Formatting.WellFormed
import Stencil.Proofs.Formatting.Lossless
import Stencil.Proofs.Formatting.Continuation
import Stencil.Proofs.Formatting.Prefixes
import Stencil.Proofs.Pattern.Place
import Stencil.Proofs.Pattern.Parity
import Stencil.Proofs.Formatting.Acting
import Stencil.Proofs.Formatting.Starvation
import Stencil.Proofs.Formatting.Rewriting
import Stencil.Proofs.Formatting.Unseen
import Stencil.Proofs.Text.Locality
import Stencil.Proofs.Pattern.Concatenation
import Stencil.Proofs.Formatting.Escaping
import Stencil.Proofs.Formatting.Scanning
import Stencil.Proofs.Formatting.Recording
import Stencil.Proofs.Settings.Reloading
import Stencil.Proofs.Settings.Entries
import Stencil.Proofs.Validation.Collecting
import Stencil.Proofs.Validation.Standard
import Stencil.Proofs.Settings.Acceptance
import Stencil.Proofs.Settings.Keys
import Stencil.Proofs.Settings.Loading
