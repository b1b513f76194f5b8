import Stencil.Settings.Check

/-!
# Sessions

A session holds settings and answers commands. Only loading, reloading and the two assignments
change the settings, and a command that fails leaves them as they were (`perform_failed`). A reload
reads the settings back from their own mapping.
-/

namespace Stencil.Settings

/-- Command of a session. -/
inductive Command where
  | format (message : Option Text)
  | formatLogged (message : Option Text)
  | summary
  | toMapping
  | load (data : Value)
  | reload
  | compare (data : Value)
  | setPattern (pattern : Option Text)
  | setEnabled (enabled : Bool)

/-- Answer to a command. -/
inductive Reply where
  | formatted (result : Option Text)
  | logged (result : Logged (Option Text))
  | summary (s : Summary Nat)
  | mapping (m : Mapping Value)
  | done
  | same (b : Bool)
  | failed (e : LoadError)

/-- Value of settings. -/
def toValue (s : Settings) : Value := .dict s.entries

variable (C : Checker)

/-- Answer to a command, and the settings after it. -/
def perform (s : Settings) : Command → Reply × Settings
  | .format message => (.formatted (s.format message), s)
  | .formatLogged message => (.logged (s.formatLogged message), s)
  | .summary => (.summary s.summary, s)
  | .toMapping => (.mapping s.toMapping, s)
  | .load data =>
    match load C data with
    | .ok t => (.done, t)
    | .error e => (.failed e, s)
  | .reload =>
    match load C s.toValue with
    | .ok t => (.same (s = t), t)
    | .error e => (.failed e, s)
  | .compare data =>
    match load C data with
    | .ok t => (.same (s = t), s)
    | .error e => (.failed e, s)
  | .setPattern pattern => (.done, { s with pattern })
  | .setEnabled enabled => (.done, { s with enabled })

/-- Answers to commands in order, each with the settings after it. -/
def performAll (s : Settings) : List Command → List (Reply × Settings)
  | [] => []
  | c :: cs =>
    let answered := s.perform C c
    answered :: performAll answered.2 cs

/-! ## What changes the settings -/

variable {C}

/-- A command that fails leaves the settings as they were. -/
theorem perform_failed {s t : Settings} {c : Command} {e : LoadError}
    (h : s.perform C c = (.failed e, t)) : t = s := by
  cases c with
  | load data =>
    simp only [perform] at h
    split at h
    · cases h
    · exact (congrArg Prod.snd h).symm
  | reload =>
    simp only [perform] at h
    split at h
    · cases h
    · exact (congrArg Prod.snd h).symm
  | compare data =>
    simp only [perform] at h
    split at h
    · cases h
    · exact (congrArg Prod.snd h).symm
  | _ => cases h

end Stencil.Settings
