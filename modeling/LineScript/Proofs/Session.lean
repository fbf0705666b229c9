/-
Interpreters at work: the ways to start a script, and how a run that was
started ends.

An interpreter is taken in any state, not only in those that earlier
runs can have left it in. A run ends in one of two ways (`RunsTo.inv`):
the script is refused while it is read, or the run stops in one of the
situations that it comes through (`Visits`).
-/
import LineScript.Proofs.Reading

set_option autoImplicit false

namespace LineScript

open StateTransition

variable {η : Type} [Host η]

namespace Interpreter

variable {interpreter after : Interpreter} {settings : Settings}
  {source : Text} {host host' : η} {verdict : Verdict}

/-- An interpreter for some settings, in whatever state. -/
def BuiltFor (interpreter : Interpreter) (settings : Settings) : Prop :=
  scriptLanguage.engine settings = .ok interpreter.engine

theorem BuiltFor.isScript (h : interpreter.BuiltFor settings) :
    interpreter.engine.IsScript :=
  (isScript_of_engine h).1

theorem BuiltFor.settings_eq (h : interpreter.BuiltFor settings) :
    interpreter.engine.settings = settings :=
  (isScript_of_engine h).2

theorem BuiltFor.valid (h : interpreter.BuiltFor settings) :
    settings.fault? = none :=
  (Dialect.engine_eq_ok_iff.1 h).1

/-- The interpreter that the settings by default build. -/
def standard : Interpreter :=
  ⟨⟨{}, cutComment, scriptLanguage.bound⟩, { own := .empty }⟩

theorem builtFor_standard : standard.BuiltFor {} := rfl

-- ======================================================= runs of a text

/-- What reading a script's text leaves behind. -/
def reading (interpreter : Interpreter) (source : Text) : Reading Output :=
  interpreter.engine.read source interpreter.state.own

/-- The reading of a script keeps what was put out. -/
theorem own_reading (built : interpreter.BuiltFor settings) (source : Text) :
    (interpreter.reading source).own = interpreter.state.own :=
  congrArg Reading.own
    (Engine.readFrom_own built.isScript interpreter.state.own
    interpreter.state.own (interpreter.engine.pieces source) 0 .empty)

/-- The reason to refuse a script is in its lines. -/
theorem refusal_of_reading (built : interpreter.BuiltFor settings)
    {source : Text} {failure : Failure}
    (hread : (interpreter.reading source).listing = .error failure) :
    ∃ site name, failure = .preprocessing site (.labelDefined name) :=
  Engine.refusal_of_readFrom built.isScript (map_eq_error_iff.1 hread)

/-- The situations in which a run of a script's text looks at a line, one
for each turn of its loop, with the lines of the script. -/
def Visits (interpreter : Interpreter) (source : Text) (host : η)
    (listing : Listing) (here : State Output × η) : Prop :=
  (interpreter.reading source).listing = .ok listing
    ∧ Reaches (interpreter.engine.advance? listing)
        ((interpreter.reading source).state.entering listing, host) here

/-- A run of a script's text that ends. -/
def RunsTo (interpreter : Interpreter) (source : Text) (host : η)
    (after : Interpreter) (verdict : Verdict) (host' : η) : Prop :=
  ∃ fuel, (interpreter.runSource fuel source).result host
    = (some (after, verdict), host')

theorem result_runSource (interpreter : Interpreter) (fuel : Nat)
    (source : Text) (host : η) :
    (interpreter.runSource fuel source).result host
      = (interpreter.after
            ((interpreter.engine.runSource fuel source
              interpreter.state).result host).1,
          ((interpreter.engine.runSource fuel source interpreter.state).result
            host).2) := by
  simp only [runSource, Plan.bind_eq, Plan.result_bind, Plan.pure_eq_done,
    Plan.result_done]

/-- A run of an interpreter is a run of its engine from its state. -/
theorem runsTo_iff :
    interpreter.RunsTo source host after verdict host'
      ↔ after.engine = interpreter.engine
        ∧ ((∃ failure, (interpreter.reading source).listing = .error failure
              ∧ after.state = (interpreter.reading source).state
              ∧ verdict = .error failure
              ∧ host' = host)
          ∨ ∃ listing, (interpreter.reading source).listing = .ok listing
              ∧ interpreter.engine.Ends listing
                  ((interpreter.reading source).state.entering listing, host)
                  (after.state, host') verdict) := by
  unfold reading
  rw [← Engine.runSource_eq_some_iff]
  unfold RunsTo
  simp only [result_runSource]
  obtain ⟨engine, state⟩ := interpreter
  obtain ⟨engine', final⟩ := after
  constructor
  · rintro ⟨fuel, h⟩
    rcases hrun : (engine.runSource fuel source state).result
      host with ⟨ended, hostAfter⟩
    rw [hrun] at h
    cases ended with
    | none => cases h
    | some pair =>
        cases h
        exact ⟨rfl, fuel, hrun⟩
  · rintro ⟨rfl, fuel, h⟩
    exact ⟨fuel, by rw [h]; rfl⟩

/-- A script that is read is run as its lines are carried out. -/
theorem result_runSource_of_stepsWithin {listing : Listing}
    {final : State Output}
    (hread : (interpreter.reading source).listing = .ok listing) {fuel : Nat}
    (h : (interpreter.engine.stepsWithin listing fuel
        ((interpreter.reading source).state.entering listing)).result host
      = (some (final, verdict), host')) :
    (interpreter.runSource fuel source).result host
      = (some (⟨interpreter.engine, final⟩, verdict), host') := by
  unfold reading at hread h
  rw [result_runSource, Engine.result_runSource, hread]
  simp only [h]
  rfl

/-- A script that is read and whose lines can be carried out in a number
of steps is run. -/
theorem runsTo_of_stepsWithin {listing : Listing} {final : State Output}
    (hread : (interpreter.reading source).listing = .ok listing) (fuel : Nat)
    (h : (interpreter.engine.stepsWithin listing fuel
        ((interpreter.reading source).state.entering listing)).result host
      = (some (final, verdict), host')) :
    interpreter.RunsTo source host ⟨interpreter.engine, final⟩ verdict host' :=
  ⟨fuel, result_runSource_of_stepsWithin hread h⟩

/-- A script that is refused is run to its end at once. -/
theorem runsTo_of_refused {failure : Failure} (host : η)
    (hread : (interpreter.reading source).listing = .error failure) :
    interpreter.RunsTo source host
      ⟨interpreter.engine, (interpreter.reading source).state⟩
      (.error failure) host :=
  runsTo_iff.2 ⟨rfl, .inl ⟨failure, hread, rfl, rfl, rfl⟩⟩

/-- A run ends in one way only. -/
theorem RunsTo.unique {after₁ after₂ : Interpreter} {v₁ v₂ : Verdict}
    {host₁ host₂ : η} (h₁ : interpreter.RunsTo source host after₁ v₁ host₁)
    (h₂ : interpreter.RunsTo source host after₂ v₂ host₂) :
    after₁ = after₂ ∧ v₁ = v₂ ∧ host₁ = host₂ := by
  obtain ⟨engine₁, state₁⟩ := after₁
  obtain ⟨engine₂, state₂⟩ := after₂
  obtain ⟨he₁, h₁⟩ := runsTo_iff.1 h₁
  obtain ⟨he₂, h₂⟩ := runsTo_iff.1 h₂
  simp only at he₁ he₂
  subst he₁ he₂
  rcases h₁ with ⟨f₁, hread₁, hs₁, rfl, rfl⟩ | ⟨l₁, hread₁, hends₁⟩
  · rcases h₂ with ⟨f₂, hread₂, hs₂, rfl, rfl⟩ | ⟨l₂, hread₂, hends₂⟩
    · rw [hread₁] at hread₂
      cases hread₂
      simp only at hs₁ hs₂
      rw [hs₁, hs₂]
      exact ⟨rfl, rfl, rfl⟩
    · rw [hread₁] at hread₂
      cases hread₂
  · rcases h₂ with ⟨f₂, hread₂, hs₂, rfl, rfl⟩ | ⟨l₂, hread₂, hends₂⟩
    · rw [hread₁] at hread₂
      cases hread₂
    · rw [hread₁] at hread₂
      cases hread₂
      obtain ⟨hthere, rfl⟩ := hends₁.unique hends₂
      cases hthere
      exact ⟨rfl, rfl, rfl⟩

/-- How a run ends: the script is refused, or the run stops where it is. -/
theorem RunsTo.inv (built : interpreter.BuiltFor settings)
    (h : interpreter.RunsTo source host after verdict host') :
    (∃ failure, (interpreter.reading source).listing = .error failure
        ∧ after.state = (interpreter.reading source).state
        ∧ verdict = .error failure
        ∧ host' = host)
      ∨ ∃ listing, interpreter.Visits source host listing (after.state, host')
          ∧ interpreter.engine.Stops listing (after.state, host')
            (after.state, host') verdict := by
  obtain ⟨-, hrefused | ⟨listing, hread, last, hreach, hstop⟩⟩ :=
    runsTo_iff.1 h
  · exact .inl hrefused
  · obtain ⟨hlast, -⟩ := Engine.stops_inv built.isScript hstop
    subst hlast
    exact .inr ⟨listing, ⟨hread, hreach⟩, hstop⟩

/-- A run ends in a refusal only if the script was refused. -/
theorem RunsTo.listing_eq_of_preprocessing
    (built : interpreter.BuiltFor settings) {site : Site}
    {fault : ListingFault}
    (h : interpreter.RunsTo source host after
      (.error (.preprocessing site fault)) host') :
    (interpreter.reading source).listing
      = .error (.preprocessing site fault) := by
  rcases h.inv built with ⟨failure, hread, -, hverdict, -⟩
    | ⟨listing, -, hstop⟩
  · cases hverdict
    exact hread
  · obtain ⟨-,
      ⟨-, hverdict⟩ | ⟨_, _, -, -, -, hverdict⟩ | ⟨_, _, _, -, -, hverdict⟩⟩ :=
      Engine.stops_inv built.isScript hstop
    · cases hverdict
    · cases hverdict
    · cases hverdict

-- ============================================================ starting

end Interpreter

/-- The three ways to start a script. -/
inductive Start where
  /-- From an input: a file's path, or a script's text. -/
  | input (given : Text)
  | file (path : Text)
  | source (script : Text)

/-- The text of the script to start, on a host. -/
def Start.text (engine : Engine Output) (host : η) :
    Start → Except Failure Text
  | .input given => ((engine.load given).result host).1
  | .file path => ((Engine.loadFile path).result host).1
  | .source script => .ok script

/-- Start a script, in at most `fuel` steps. -/
def Interpreter.start (interpreter : Interpreter) (fuel : Nat) :
    Start → Plan (Option (Interpreter × Verdict))
  | .input given => interpreter.run fuel given
  | .file path => interpreter.runFile fuel path
  | .source script => interpreter.runSource fuel script

namespace Engine

/-- Loading a file asks for its text and changes nothing. -/
theorem result_loadFile (path : Text) (host : η) :
    (loadFile path).result host
      = ((Host.read host path).mapError (.load path), host) := by
  simp only [loadFile, Plan.bind_eq, Plan.result_bind, Plan.result_log,
    Plan.result_askRead]
  cases Host.read host path with
  | ok source => rfl
  | error fault => rfl

/-- Loading an input changes nothing, and fails only as loading a file. -/
theorem result_load (engine : Engine Output) (input : Text) (host : η) :
    ((engine.load input).result host).2 = host
      ∧ ∀ failure, ((engine.load input).result host).1 = .error failure →
          ∃ path fault, failure = .load path fault := by
  unfold load
  split
  · rw [result_loadFile]
    refine ⟨rfl, fun failure h => ?_⟩
    cases hread : Host.read host input with
    | ok source =>
        rw [hread] at h
        cases h
    | error fault =>
        rw [hread] at h
        cases h
        exact ⟨input, fault, rfl⟩
  · refine ⟨rfl, fun failure h => ?_⟩
    cases h

end Engine

namespace Interpreter

/-- Starting a script is running its text, if that can be loaded; if not,
all stays as it was. -/
theorem result_start (interpreter : Interpreter) (fuel : Nat) (start : Start)
    (host : η) :
    (interpreter.start fuel start).result host
      = match start.text interpreter.engine host with
        | .error failure => (some (interpreter, .error failure), host)
        | .ok source => (interpreter.runSource fuel source).result host := by
  cases start with
  | input given =>
      obtain ⟨hhost, -⟩ := Engine.result_load interpreter.engine given host
      simp only [start, run, Engine.run, Start.text, Plan.bind_eq,
        Plan.result_bind, hhost]
      cases ((interpreter.engine.load given).result host).1 with
      | error failure => rfl
      | ok source => exact (result_runSource interpreter fuel source host).symm
  | file path =>
      simp only [start, runFile, Engine.runFile, Start.text, Plan.bind_eq,
        Plan.result_bind, Engine.result_loadFile]
      cases (Host.read host path).mapError (Failure.load path) with
      | error failure => rfl
      | ok source => exact (result_runSource interpreter fuel source host).symm
  | source script => rfl

end Interpreter

/-- A script that has no text could not be loaded. -/
theorem Start.load_of_text {engine : Engine Output} {host : η}
    {failure : Failure} {start : Start}
    (h : start.text engine host = .error failure) :
    ∃ path fault, failure = .load path fault := by
  cases start with
  | input given => exact (Engine.result_load engine given host).2 failure h
  | file path =>
      simp only [text, Engine.result_loadFile] at h
      cases hread : Host.read host path with
      | ok source =>
          rw [hread] at h
          cases h
      | error fault =>
          rw [hread] at h
          cases h
          exact ⟨path, fault, rfl⟩
  | source script => cases h

end LineScript
