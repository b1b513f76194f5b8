import Mathlib.Data.List.Induction
import Stencil.Proofs.Settings.Acceptance
import Stencil.Settings.Session

/-!
# Reloading in a session

The entries of settings are accepted by every checker that behaves as documented, and give the
settings back (`load_toValue`). So a reload puts an empty pattern in the place of a missing one and
changes nothing else (`perform_reload`). The two patterns format and are summed up alike, so
settings before and after a reload are told apart by no message and by no summary. One command keeps
this relation (`Alike.perform`), and so does a whole session, in which reloads may be added or left
out anywhere (`shown_eq_of_alike`).
-/

namespace Stencil.Settings

/-! ## Kinds of commands -/

namespace Command

/-- Commands whose answers show what the settings do to messages. -/
def shows : Command → Bool
  | format _ => true
  | formatLogged _ => true
  | summary => true
  | _ => false

/-- Commands that ask for something and change nothing. -/
def asks : Command → Bool
  | toMapping => true
  | compare _ => true
  | c => c.shows

def isReload : Command → Bool
  | reload => true
  | _ => false

/-- Commands that leave settings with a pattern, whatever the settings were. -/
def GivesPattern (C : Checker) : Command → Prop
  | load data => ∃ s, Settings.load C data = .ok s
  | reload => True
  | setPattern pattern => pattern ≠ none
  | _ => False

end Command

/-! ## Reading settings back -/

/-- Settings with an empty pattern in the place of a missing one. -/
def filled (s : Settings) : Settings := { s with pattern := some (s.pattern.getD []) }

/-- A missing pattern is written as null, which gives the empty text. -/
theorem givesText_textValue_iff {pattern : Option Text} {t : Text} :
    GivesText (textValue pattern) t ↔ t = pattern.getD [] := by
  cases pattern with
  | none => exact givesText_null_iff
  | some s => exact givesText_text_iff

/-- Settings never have a faulty entry. -/
theorem not_faulty_of_mem_toMapping {s : Settings} {e : Key × Value}
    (h : e ∈ s.toMapping.entries) : ¬ Faulty e := by
  rcases List.mem_cons.1 h with rfl | last
  · exact (givesText_textValue_iff.2 rfl).not_faulty
  · obtain rfl := List.mem_singleton.1 last
    exact (givesSwitch_bool_iff.2 rfl).not_faulty

variable {C : Checker}

/-- Settings read back from their own value have an empty pattern for a missing one. -/
theorem load_toValue (documented : C.Documented) (s : Settings) :
    load C s.toValue = .ok s.filled := by
  have read : mappingOf s.toValue = .ok s.toMapping := rfl
  obtain ⟨t, b, taken, loaded⟩ := ofMapping_of_not_faulty documented
    (m := s.toMapping) fun e => not_faulty_of_mem_toMapping
  obtain rfl : t = s.pattern.getD [] :=
    givesText_textValue_iff.1 (taken.pattern _ List.mem_cons_self)
  obtain rfl : b = s.enabled :=
    givesSwitch_bool_iff.1 (taken.enabled _ (List.mem_cons_of_mem _ List.mem_cons_self))
  rw [load_of_mappingOf_eq_ok read, loaded, filled]

/-! ## One command -/

/-- A reload succeeds, and finds the settings unchanged if they had a pattern. -/
theorem perform_reload (documented : C.Documented) (s : Settings) :
    s.perform C .reload = (.same s.pattern.isSome, s.filled) := by
  have same : decide (s = s.filled) = s.pattern.isSome := by
    rcases s with ⟨_ | t, enabled⟩ <;> simp [filled]
  simp only [perform, load_toValue documented]
  exact congrArg (fun b => (Reply.same b, s.filled)) same

theorem format_filled (s : Settings) (message : Option Text) :
    s.filled.format message = s.format message := by
  rcases s with ⟨_ | t, _ | _⟩
  · rfl
  · -- The missing pattern and the empty one give the message back.
    cases message with
    | none => rfl
    | some m => exact congrArg some (Text.formatBy_nil m)
  · rfl
  · rfl

theorem formatEvents_filled (s : Settings) (message : Option Text) :
    s.filled.formatEvents message = s.formatEvents message := by
  rcases s with ⟨_ | t, _ | _⟩
  · rfl
  · -- Nothing is recorded for an empty pattern either.
    cases message with
    | none => rfl
    | some m => exact if_pos (Or.inr rfl)
  · rfl
  · rfl

theorem summary_filled (s : Settings) : s.filled.summary = s.summary := by
  rcases s with ⟨_ | t, enabled⟩
  · show Pattern.summary (Pattern.ofUnits (Text.units [])) = .empty
    rw [Text.units_nil, Pattern.ofUnits_nil, Pattern.summary_nil]
  · rfl

/-- Settings that differ at most in a missing and an empty pattern. -/
def Alike (s t : Settings) : Prop := s.filled = t.filled

theorem Alike.format {s t : Settings} (h : s.Alike t) (message : Option Text) :
    s.format message = t.format message := by
  rw [← format_filled s, h, format_filled]

theorem Alike.formatEvents {s t : Settings} (h : s.Alike t) (message : Option Text) :
    s.formatEvents message = t.formatEvents message := by
  rw [← formatEvents_filled s, h, formatEvents_filled]

theorem Alike.summary {s t : Settings} (h : s.Alike t) : s.summary = t.summary := by
  rw [← summary_filled s, h, summary_filled]

/-- Alike settings show the same. -/
theorem Alike.perform_fst {s t : Settings} (h : s.Alike t) {c : Command} (hc : c.shows = true) :
    (s.perform C c).1 = (t.perform C c).1 := by
  cases c with
  | format message => exact congrArg Reply.formatted (h.format message)
  | formatLogged message =>
      show Reply.logged ⟨_, _⟩ = Reply.logged ⟨_, _⟩
      rw [h.format, h.formatEvents]
  | summary => exact congrArg Reply.summary h.summary
  | _ => exact absurd hc Bool.false_ne_true

/-- A command that asks leaves the settings as they are. -/
theorem perform_snd_of_asks (s : Settings) {c : Command} (hc : c.asks = true) :
    (s.perform C c).2 = s := by
  cases c with
  | compare data =>
      simp only [perform]
      cases Settings.load C data <;> rfl
  | format message => rfl
  | formatLogged message => rfl
  | summary => rfl
  | toMapping => rfl
  | _ => exact absurd hc Bool.false_ne_true

theorem alike_perform_reload (documented : C.Documented) (s : Settings) :
    s.Alike (s.perform C .reload).2 := by
  rw [perform_reload documented]
  exact rfl

/-- Commands keep settings alike. -/
theorem Alike.perform (documented : C.Documented) {s t : Settings} (h : s.Alike t) (c : Command) :
    (s.perform C c).2.Alike (t.perform C c).2 := by
  cases c with
  | load data =>
      -- Both sides take the loaded settings, or both keep their own.
      simp only [Settings.perform]
      cases Settings.load C data with
      | ok u => exact rfl
      | error e => exact h
  | reload =>
      rw [perform_reload documented, perform_reload documented]
      exact h
  | setPattern pattern =>
      have enabled : s.filled.enabled = t.filled.enabled := congrArg Settings.enabled h
      exact congrArg (fun b => Settings.filled ⟨pattern, b⟩) enabled
  | setEnabled enabled =>
      have pattern : s.filled.pattern = t.filled.pattern := congrArg Settings.pattern h
      exact congrArg (fun p => Settings.mk p enabled) pattern
  | _ =>
      rw [perform_snd_of_asks s rfl, perform_snd_of_asks t rfl]
      exact h

/-! ## Sessions -/

/-- Settings after commands in order. -/
def after (C : Checker) (s : Settings) : List Command → Settings
  | [] => s
  | c :: cs => after C (s.perform C c).2 cs

/-- Answers to those commands of a session that show something. -/
def shown (C : Checker) (s : Settings) (cs : List Command) : List Reply :=
  ((cs.zip (s.performAll C cs)).filter fun answered => answered.1.shows).map fun answered =>
    answered.2.1

/-- A session goes on with the settings that its first part leaves. -/
theorem performAll_append (s : Settings) (cs ds : List Command) :
    s.performAll C (cs ++ ds) = s.performAll C cs ++ (s.after C cs).performAll C ds := by
  induction cs generalizing s with
  | nil => rfl
  | cons c cs ih => exact congrArg (s.perform C c :: ·) (ih (s.perform C c).2)

theorem after_concat (s : Settings) (cs : List Command) (c : Command) :
    s.after C (cs ++ [c]) = ((s.after C cs).perform C c).2 := by
  induction cs generalizing s with
  | nil => rfl
  | cons d cs ih => exact ih (s.perform C d).2

theorem shown_cons_of_shows (s : Settings) {c : Command} (hc : c.shows = true)
    (cs : List Command) :
    s.shown C (c :: cs) = (s.perform C c).1 :: (s.perform C c).2.shown C cs := by
  simp [shown, performAll, hc]

theorem shown_cons_of_not_shows (s : Settings) {c : Command} (hc : c.shows = false)
    (cs : List Command) : s.shown C (c :: cs) = (s.perform C c).2.shown C cs := by
  simp [shown, performAll, hc]

/-- Alike settings show the same in a whole session, and reloads add nothing to it. The induction
is on the session, with the settings on both sides general, since a reload is performed on one of
them alone. -/
theorem shown_eq_of_alike (documented : C.Documented) {s t : Settings} (h : s.Alike t)
    (cs : List Command) : s.shown C cs = t.shown C (cs.filter fun c => !c.isReload) := by
  induction cs generalizing s t with
  | nil => rfl
  | cons c cs ih =>
      cases hr : c.isReload with
      | true =>
          obtain rfl : c = .reload := by
            cases c with
            | reload => rfl
            | _ => exact absurd hr Bool.false_ne_true
          have kept : (s.perform C .reload).2.Alike t :=
            (alike_perform_reload documented s).symm.trans h
          rw [shown_cons_of_not_shows s rfl, List.filter_cons_of_neg (by simp [hr])]
          exact ih kept
      | false =>
          rw [List.filter_cons_of_pos (by simp [hr])]
          cases hc : c.shows with
          | true =>
              rw [shown_cons_of_shows s hc, shown_cons_of_shows t hc, h.perform_fst hc,
                ih (h.perform documented c)]
          | false =>
              rw [shown_cons_of_not_shows s hc, shown_cons_of_not_shows t hc,
                ih (h.perform documented c)]

/-! ## Missing patterns -/

/-- Loaded settings have a pattern. -/
theorem pattern_ne_none_of_load {data : Value} {s : Settings} (h : Settings.load C data = .ok s) :
    s.pattern ≠ none := by
  obtain ⟨m, -, read⟩ := load_eq_ok_iff.1 h
  obtain ⟨out, -, held⟩ := ofMapping_eq_ok_iff.1 read
  obtain ⟨t, b, -, -, rfl⟩ := ofValidated_eq_ok_iff.1 held
  exact Option.some_ne_none t

/-- A pattern is missing after a command that took it away, or if it was missing before and the
command gives none. -/
theorem pattern_perform_eq_none_iff (documented : C.Documented) (s : Settings) (c : Command) :
    (s.perform C c).2.pattern = none ↔
      c = .setPattern none ∨ ¬ c.GivesPattern C ∧ s.pattern = none := by
  cases c with
  | load data =>
      simp only [perform]
      cases h : Settings.load C data with
      | ok t => simp [Command.GivesPattern, h, pattern_ne_none_of_load h]
      | error e => simp [Command.GivesPattern, h]
  | reload => simp [perform_reload documented, filled, Command.GivesPattern]
  | setPattern pattern => cases pattern <;> simp [perform, Command.GivesPattern]
  | setEnabled enabled => simp [perform, Command.GivesPattern]
  | _ =>
      rw [perform_snd_of_asks s rfl]
      simp [Command.GivesPattern]

/-- The pattern was taken away at some time in a session, and no command after that gives one. -/
def TakenAway (C : Checker) (cs : List Command) : Prop :=
  ∃ before behind, cs = before ++ .setPattern none :: behind ∧ ∀ c ∈ behind, ¬ c.GivesPattern C

theorem takenAway_concat_iff {cs : List Command} {c : Command} :
    TakenAway C (cs ++ [c]) ↔ c = .setPattern none ∨ ¬ c.GivesPattern C ∧ TakenAway C cs := by
  constructor
  · rintro ⟨before, behind, split, quiet⟩
    rcases List.eq_nil_or_concat behind with rfl | ⟨behind, d, rfl⟩
    · exact Or.inl (List.append_singleton_inj.1 split).2
    · -- The last command is one of those behind the assignment.
      rw [List.concat_eq_append] at split quiet
      rw [← List.cons_append, ← List.append_assoc] at split
      obtain ⟨rfl, rfl⟩ := List.append_singleton_inj.1 split
      refine Or.inr ⟨quiet c (by simp), before, behind, rfl, ?_⟩
      intro d hd
      exact quiet d (List.mem_append_left _ hd)
  · rintro (rfl | ⟨quiet, before, behind, rfl, others⟩)
    · exact ⟨cs, [], rfl, fun c hc => nomatch hc⟩
    · refine ⟨before, behind ++ [c], by simp, ?_⟩
      intro d hd
      rcases List.mem_append.1 hd with hd | hd
      · exact others d hd
      · exact List.mem_singleton.1 hd ▸ quiet

/-- Settings that start with a pattern are without one exactly while it is taken away. -/
theorem pattern_after_eq_none_iff (documented : C.Documented) {s : Settings}
    (h : s.pattern ≠ none) (cs : List Command) :
    (s.after C cs).pattern = none ↔ TakenAway C cs := by
  induction cs using List.reverseRecOn with
  | nil =>
      constructor
      · intro missing
        exact absurd missing h
      · rintro ⟨before, behind, split, -⟩
        exact absurd split.symm (List.append_ne_nil_of_right_ne_nil _ (List.cons_ne_nil _ _))
  | append_singleton cs c ih =>
      rw [after_concat, pattern_perform_eq_none_iff documented, takenAway_concat_iff, ih]

/-! ## All together -/

/-- Settings as a session finds them: the defaults, or settings loaded from a value. -/
def Started (C : Checker) (s : Settings) : Prop := s = {} ∨ ∃ data, Settings.load C data = .ok s

theorem Started.pattern_ne_none {s : Settings} (h : s.Started C) : s.pattern ≠ none := by
  rcases h with rfl | ⟨data, loaded⟩
  · exact Option.some_ne_none _
  · exact pattern_ne_none_of_load loaded

/-- A command that fails or asks leaves the settings as they are. -/
theorem perform_snd_eq_self (s : Settings) {c : Command}
    (h : c.asks = true ∨ ∃ e, (s.perform C c).1 = .failed e) : (s.perform C c).2 = s := by
  rcases h with asks | ⟨e, failed⟩
  · exact perform_snd_of_asks s asks
  · exact perform_failed (Prod.ext failed rfl)

/-- At any time of a session, a reload succeeds, changes nothing but a missing pattern into the
empty one, tells whether that was so, and finds nothing to change the next time. Two sessions that
differ in reloads alone show the same. Commands that ask or fail leave the settings as they are,
and there is no pattern exactly after one that took it away, until one gives it back. -/
theorem reload_unseen {C : Checker} (documented : C.Documented) {s : Settings}
    (started : s.Started C) (cs : List Command) :
    let t := s.after C cs
    (∀ ds, s.performAll C (cs ++ ds) = s.performAll C cs ++ t.performAll C ds) ∧
      (t.perform C .reload = (.same t.pattern.isSome, ⟨some (t.pattern.getD []), t.enabled⟩) ∧
        (t.perform C .reload).2.perform C .reload = (.same true, (t.perform C .reload).2)) ∧
      (∀ ds, cs.filter (fun c => !c.isReload) = ds.filter (fun c => !c.isReload) →
        s.shown C cs = s.shown C ds) ∧
      (∀ c, c.asks = true ∨ (∃ e, (t.perform C c).1 = .failed e) → (t.perform C c).2 = t) ∧
      (t.pattern = none ↔ ∃ before behind, cs = before ++ .setPattern none :: behind ∧
        ∀ c ∈ behind, ¬ c.GivesPattern C) := by
  intro t
  refine ⟨?_, ⟨perform_reload documented t, ?_⟩, ?_, ?_, ?_⟩
  · intro ds
    exact performAll_append s cs ds
  · rw [perform_reload documented t]
    exact perform_reload documented t.filled
  · intro ds same
    have alike : s.Alike s := rfl
    rw [shown_eq_of_alike documented alike cs, same, ← shown_eq_of_alike documented alike ds]
  · intro c h
    exact perform_snd_eq_self t h
  · exact pattern_after_eq_none_iff documented started.pattern_ne_none cs

/-- Loaded settings lose their pattern, and a reload in between is seen by none of the commands that
show something, although the next reload tells that a pattern was missing. -/
theorem reload_unseen_missing :
    let C := Checker.standard fun _ => true
    let s : Settings := ⟨some [.ofChar '#'], true⟩
    let message : Option Text := some (['A', 'B'].map .ofChar)
    let cs : List Command := [.format message, .setPattern none, .formatLogged message, .summary]
    let ds : List Command :=
      [.reload, .format message, .setPattern none, .reload, .formatLogged message, .summary]
    s.Started C ∧ cs.filter (fun c => !c.isReload) = ds.filter (fun c => !c.isReload) ∧
      s.shown C cs = s.shown C ds ∧ (s.after C cs).pattern = none ∧
        (s.after C cs).perform C .reload = (.same false, ⟨some [], true⟩) := by
  intro C s message cs ds
  have documented : C.Documented := Checker.standard_documented _
  have started : s.Started C := Or.inr ⟨.dict [(patternKey, .text [.ofChar '#'])], rfl⟩
  have same : cs.filter (fun c => !c.isReload) = ds.filter (fun c => !c.isReload) := rfl
  obtain ⟨-, ⟨reloaded, -⟩, shown, -, missing⟩ := reload_unseen documented started cs
  have taken : (s.after C cs).pattern = none := by
    apply missing.2
    refine ⟨[.format message], [.formatLogged message, .summary], rfl, ?_⟩
    simp [Command.GivesPattern]
  exact ⟨started, same, shown ds same, taken, reloaded⟩

end Stencil.Settings
