/-
The two usual line ends are one.

If the settings leave the separator open, a script is cut at line feeds,
or, where a line feed stands behind a carriage return anywhere, at these
pairs. A text with a carriage return put in front of each of its line
feeds is cut at the pairs in the places where the text itself is cut at
line feeds (`Text.splitOn_withReturns`), whatever else there is in it:
what is put in front of a line feed is never itself one, so a pair begins
exactly where one was put in. A text with other carriage returns keeps
them, and they stay in their lines.

So the two texts have the same lines, and lines are all that a script is
from there on: what is prepared is the same, and so is every run.
-/
import LineScript.Proofs.Preparation
import LineScript.Proofs.Session

set_option autoImplicit false

namespace LineScript

-- =========================================================== two texts

namespace Text

/-- A text with a carriage return in front of each line feed. -/
def withReturns (text : Text) : Text := replace ['\n'] ['\r', '\n'] text

theorem withReturns_cons_feed (rest : Text) :
    withReturns ('\n' :: rest) = '\r' :: '\n' :: withReturns rest := rfl

theorem withReturns_cons {c : Char} (hc : c ≠ '\n') (rest : Text) :
    withReturns (c :: rest) = c :: withReturns rest := by
  unfold withReturns
  rw [replace_singleton, replace_singleton, List.flatMap_cons, if_neg hc]
  rfl

/-- No text with the returns put in begins with a line feed. -/
theorem startsWith_feed_withReturns (text : Text) :
    startsWith (withReturns text) ['\n'] = false := by
  cases text with
  | nil => rfl
  | cons c rest =>
      by_cases hc : c = '\n'
      · subst hc
        rfl
      · rw [withReturns_cons hc]
        exact startsWith_cons_of_ne _ _ hc

/-- In front of a text with the returns put in, a character begins no
pair. -/
theorem startsWith_pair_withReturns (c : Char) (text : Text) :
    startsWith (c :: withReturns text) ['\r', '\n'] = false := by
  by_cases hc : c = '\r'
  · subst hc
    exact startsWith_feed_withReturns text
  · exact startsWith_cons_of_ne _ _ hc

/-- With a line feed there is a pair. -/
theorem contains_pair_withReturns {text : Text} (h : '\n' ∈ text) :
    contains (withReturns text) ['\r', '\n'] = true := by
  induction text with
  | nil => cases h
  | cons c rest ih =>
      by_cases hc : c = '\n'
      · subst hc
        rfl
      · have hrest : '\n' ∈ rest :=
          (List.mem_cons.1 h).resolve_left (Ne.symm hc)
        rw [withReturns_cons hc, contains, ih hrest, Bool.or_true]

/-- Cut at the pairs, a text with the returns put in has the pieces that
the text has cut at line feeds. -/
theorem splitOn_withReturns (text : Text) :
    splitOn ['\r', '\n'] (withReturns text) = splitOn ['\n'] text := by
  unfold splitOn
  induction text with
  | nil => rfl
  | cons c rest ih =>
      by_cases hc : c = '\n'
      · subst hc
        rw [withReturns_cons_feed]
        exact congrArg ([] :: ·) ih
      · rw [withReturns_cons hc, piecesFrom, startsWith_pair_withReturns,
          piecesFrom, startsWith_cons_of_ne rest [] hc, ih]
        rfl

end Text

/-- A text without pairs and the same with the returns put in have the
same lines, if the settings leave the separator open. -/
theorem Engine.pieces_withReturns {σ : Type} {engine : Engine σ}
    {source : Text} (hseparator : engine.settings.separator = none)
    (hpairs : Text.contains source ['\r', '\n'] = false) :
    engine.pieces (Text.withReturns source) = engine.pieces source := by
  have hsource : engine.settings.separatorFor source = ['\n'] := by
    unfold Settings.separatorFor Settings.detectSeparator
    rw [hseparator, hpairs]
    rfl
  by_cases hfeed : '\n' ∈ source
  · have hreturns : engine.settings.separatorFor (Text.withReturns source)
        = ['\r', '\n'] := by
      unfold Settings.separatorFor Settings.detectSeparator
      rw [hseparator, Text.contains_pair_withReturns hfeed]
      rfl
    unfold pieces
    rw [hreturns, hsource, Text.splitOn_withReturns]
  · rw [Text.withReturns, Text.replace_singleton_of_not_mem _ hfeed]

-- ================================================================ runs

namespace Interpreter

variable {η : Type} [Host η] {interpreter : Interpreter} {source : Text}

/-- The two usual line ends are one. If the settings leave the separator
open, a text in which no line feed stands behind a carriage return and the
same text with a carriage return in front of each line feed are the same
script. In every language they are prepared alike: the same lines, labels
and own state, or the same failure, at the same line and with the same
text. With the same number of steps they run alike. So the one ends if and
only if the other does, in the same way: with the same verdict, variables
and labels, the same lines put out, and the same files. -/
theorem runSource_withReturns
    (hpairs : Text.contains source ['\r', '\n'] = false) :
    (∀ {σ : Type} (engine : Engine σ), engine.settings.separator = none →
        ∀ (state : State σ) (host : η),
          (engine.preprocess (Text.withReturns source) state).result host
              = (engine.preprocess source state).result host
            ∧ ∀ fuel, (engine.runSource fuel (Text.withReturns source)
                  state).result host
                = (engine.runSource fuel source state).result host)
      ∧ (interpreter.engine.settings.separator = none →
        ∀ (host : η) after verdict host',
          interpreter.RunsTo (Text.withReturns source) host after verdict host'
            ↔ interpreter.RunsTo source host after verdict host') := by
  have hengine : ∀ {σ : Type} (engine : Engine σ),
      engine.settings.separator = none →
      ∀ own, engine.read (Text.withReturns source) own
        = engine.read source own := by
    intro σ engine hseparator own
    unfold Engine.read
    rw [Engine.pieces_withReturns hseparator hpairs]
  constructor
  · intro σ engine hseparator state host
    rw [Engine.result_preprocess, Engine.result_preprocess,
      hengine engine hseparator]
    refine ⟨rfl, fun fuel => ?_⟩
    rw [Engine.result_runSource, Engine.result_runSource,
      hengine engine hseparator]
  · intro hseparator host after verdict host'
    unfold RunsTo
    simp only [result_runSource, Engine.result_runSource,
      hengine interpreter.engine hseparator]

/-- For instance, a script with a carriage return of its own inside a
string, which fails at its last line. -/
theorem runSource_withReturns_of_lone_return :
    Text.contains "set a, 'x\ry'\n:l\necho a\nboom".toList ['\r', '\n'] = false
      ∧ Text.withReturns "set a, 'x\ry'\n:l\necho a\nboom".toList
          = "set a, 'x\ry'\r\n:l\r\necho a\r\nboom".toList
      ∧ ∃ after failure,
          standard.RunsTo "set a, 'x\ry'\r\n:l\r\necho a\r\nboom".toList
              (⟨.empty⟩ : MemoryHost) after (.error failure) ⟨.empty⟩
            ∧ after.output = ["x\ry".toList] ∧ after.label? "l".toList = some 1
            ∧ failure.line? = some 4 ∧ failure.raw? = some "boom".toList := by
  have hpairs : Text.contains "set a, 'x\ry'\n:l\necho a\nboom".toList
      ['\r', '\n'] = false := by
    decide
  have hrun : standard.RunsTo "set a, 'x\ry'\n:l\necho a\nboom".toList
      (⟨.empty⟩ : MemoryHost)
      _ (.error _) ⟨.empty⟩ := runsTo_of_stepsWithin rfl 5 rfl
  have hends := (@runSource_withReturns MemoryHost _ standard _ hpairs).2
  exact ⟨hpairs, rfl, _, _, (hends rfl _ _ _ _).2 hrun, rfl, rfl, rfl, rfl⟩

end Interpreter

end LineScript
