/-
The interpreter of the script language: an engine for the instruction
set, with the state that passes from one run to the next.

Each run starts without variables and labels. The lines put out stay
until they are taken.
-/
import LineScript.Engine.Run
import LineScript.Instruction.Perform

set_option autoImplicit false

namespace LineScript

/-- The hook of the script language: a trailing comment is cut off. -/
def cutComment : Hook Output := fun settings _ line output =>
  (.ok (Line.stripComment? settings.marker line), output)

/-- The script language. -/
def scriptLanguage : Dialect Output where
  hook := cutComment
  commands := Instruction.commands
  handlers := Instruction.handlers

/-- An interpreter: an engine for the script language and its state. -/
structure Interpreter where
  engine : Engine Output
  state : State Output

namespace Interpreter

/-- The interpreter with some settings, before its first run. -/
def ofSettings (settings : Settings) : Except Failure Interpreter := do
  let engine ← scriptLanguage.engine settings
  return ⟨engine, { own := .empty }⟩

/-- An interpreter after a run that ended. -/
def after (interpreter : Interpreter)
    (ended : Option (State Output × Verdict)) :
    Option (Interpreter × Verdict) :=
  ended.map fun (state, verdict) =>
    ({ interpreter with state := state }, verdict)

/-- Run the script that an input stands for, in at most `fuel` steps. -/
def run (interpreter : Interpreter) (fuel : Nat) (input : Text) :
    Plan (Option (Interpreter × Verdict)) := do
  return interpreter.after
    (← interpreter.engine.run fuel input interpreter.state)

/-- Run the script in a file, in at most `fuel` steps. -/
def runFile (interpreter : Interpreter) (fuel : Nat) (path : Text) :
    Plan (Option (Interpreter × Verdict)) := do
  return interpreter.after
    (← interpreter.engine.runFile fuel path interpreter.state)

/-- Run a script's text, in at most `fuel` steps. -/
def runSource (interpreter : Interpreter) (fuel : Nat) (source : Text) :
    Plan (Option (Interpreter × Verdict)) := do
  return interpreter.after
    (← interpreter.engine.runSource fuel source interpreter.state)

/-- The variables. -/
def vars (interpreter : Interpreter) : Table Value :=
  interpreter.state.machine.vars

/-- The index of the line with a label. -/
def label? (interpreter : Interpreter) (name : Text) : Option Nat :=
  interpreter.state.machine.label? name

/-- The interpreter with a variable set. The next run forgets it. -/
def assign (interpreter : Interpreter) (name : Text) (value : Value) :
    Interpreter :=
  { interpreter with
    state :=
      { interpreter.state with
        machine := interpreter.state.machine.assign name value } }

/-- The lines put out and not yet taken. -/
def output (interpreter : Interpreter) : List Text :=
  interpreter.state.own.lines

/-- The lines put out, and the interpreter without them. -/
def takeOutput (interpreter : Interpreter) : List Text × Interpreter :=
  (interpreter.output,
    { interpreter with state := { interpreter.state with own := .empty } })

end Interpreter

end LineScript
