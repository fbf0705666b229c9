/-
Runs of scripts: from a text, from a file, or from an input that is a
file's path when it ends with the suffix of script files and a script's
text when it does not.

A script that cannot be loaded leaves everything as it was. A script that
is loaded starts from a machine without variables and labels, whatever
was run before.
-/
import LineScript.Engine.Dispatch

set_option autoImplicit false

namespace LineScript

variable {σ : Type}

namespace Engine

/-- Run a script's text. -/
def runSource (engine : Engine σ) (fuel : Nat) (source : Text)
    (state : State σ) : Plan (Option (State σ × Verdict)) := do
  let (state, lines) ← engine.preprocess source state
  match lines with
  | .error failure => return some (state, .error failure)
  | .ok listing =>
    Plan.log (.running listing.size state.machine.labels.size)
    match ← engine.interpret fuel listing state with
    | none => return none
    | some (state, .error failure) => return some (state, .error failure)
    | some (state, .ok ()) =>
      Plan.log (.finished state.machine.vars.size)
      return some (state, .ok ())

/-- The text of a script file. -/
def loadFile (path : Text) : Plan (Except Failure Text) := do
  Plan.log (.loading path)
  match ← Plan.askRead path with
  | .ok source => return .ok source
  | .error fault => return .error (.load path fault)

/-- The text of the script that an input stands for. -/
def load (engine : Engine σ) (input : Text) : Plan (Except Failure Text) :=
  if Text.endsWith input engine.settings.suffix then loadFile input
  else .done (.ok input)

/-- Run a script that was loaded, if it was. -/
def runLoaded (engine : Engine σ) (fuel : Nat) (loaded : Except Failure Text)
    (state : State σ) : Plan (Option (State σ × Verdict)) :=
  match loaded with
  | .error failure => .done (some (state, .error failure))
  | .ok source => engine.runSource fuel source state

/-- Run the script in a file, whatever the file's name. -/
def runFile (engine : Engine σ) (fuel : Nat) (path : Text) (state : State σ) :
    Plan (Option (State σ × Verdict)) := do
  engine.runLoaded fuel (← loadFile path) state

/-- Run the script that an input stands for. -/
def run (engine : Engine σ) (fuel : Nat) (input : Text) (state : State σ) :
    Plan (Option (State σ × Verdict)) := do
  engine.runLoaded fuel (← engine.load input) state

end Engine

end LineScript
