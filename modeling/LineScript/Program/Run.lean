/-
The program: from its arguments and environment to its exit code, what it
prints, and what it complains about.

The exit code is 2 for arguments that are refused, 1 for any other
failure, 0 otherwise. Lines put out before a failure are printed all the
same, and after them, if asked for, the variables by ascending name.
-/
import LineScript.Interpreter
import LineScript.Pattern.Plain
import LineScript.Program.Arguments
import LineScript.Program.Locate
import LineScript.Settings.File

set_option autoImplicit false

namespace LineScript

/-- What the program leaves behind when it ends. -/
structure Report where
  code : Nat
  /-- The lines of standard output. -/
  output : List Text := []
  /-- The last lines of standard error, below the notices. -/
  complaints : List String := []

namespace Program

/-- A complaint in the program's name. -/
def named (message : String) : String := s!"lscript: {message}"

/-- The report of refused arguments. -/
def usageReport (fault : UsageFault) : Report where
  code := 2
  complaints :=
    [named fault.message,
     "Usage: lscript [-dv] [-f[<file>]] <script>",
     "       lscript [-dv] [-f[<file>]] -c<source>"]

/-- The settings in a file, if it can be read. Every line that cannot be
understood is complained about. -/
def loadSettings (path : Text) : Plan (Option Settings) := do
  match ← Plan.askRead path with
  | .error fault =>
    Plan.complain (named s!"{String.ofList path}: {fault.message}")
    return none
  | .ok text =>
    let (settings, complaints) := Settings.ofFile text
    Plan.complainAll (complaints.map fun complaint =>
      named s!"warning: {String.ofList path}: {complaint.display}")
    Plan.log (.settingsLoaded path)
    return some settings

/-- The settings of a run; none if the file asked for cannot be read. A
file that was only found may be unreadable: the defaults are taken. -/
def chooseSettings (environment : Environment) :
    SettingsSource → Plan (Option Settings)
  | .skip => return some {}
  | .explicit path => loadSettings path
  | .search => do
    match ← environment.locateSettings with
    | none => return some {}
    | some path => return some ((← loadSettings path).getD {})

/-- A variable as the program shows it. -/
def variableLine (entry : Text × Value) : Text :=
  entry.1 ++ " = ".toList ++ entry.2.display

/-- The report of a run that ended. -/
def runReport (showVariables : Bool) (interpreter : Interpreter)
    (verdict : Verdict) : Report :=
  let vars :=
    if showVariables then interpreter.vars.toList.map variableLine else []
  let output := interpreter.output ++ vars
  match verdict with
  | .ok () => { code := 0, output }
  | .error failure =>
    { code := 1, output, complaints := [named failure.message] }

/-- Run the script of an invocation, in at most `fuel` steps. -/
def runScript (fuel : Nat) (interpreter : Interpreter) :
    ScriptSource → Plan (Option (Interpreter × Verdict))
  | .file path => interpreter.runFile fuel path
  | .inline text => interpreter.runSource fuel text

/-- Carry out an invocation. -/
def carryOut (fuel : Nat) (environment : Environment)
    (invocation : Invocation) : Plan (Option Report) := do
  match ← chooseSettings environment invocation.settings with
  | none => return some { code := 1 }
  | some settings =>
    match Interpreter.ofSettings settings with
    | .error failure =>
      return some { code := 1, complaints := [named failure.message] }
    | .ok interpreter =>
      let ended ← runScript fuel interpreter invocation.script
      return ended.map fun (interpreter, verdict) =>
        runReport invocation.showVariables interpreter verdict

/-- The program: nothing if the script's run takes more than `fuel`
steps. -/
def run (fuel : Nat) (environment : Environment) (arguments : List Text) :
    Plan (Option Report) :=
  match Invocation.ofArguments arguments with
  | .error fault => return some (usageReport fault)
  | .ok invocation => carryOut fuel environment invocation

/-- Whether the arguments ask for the whole log. -/
def debugAsked (arguments : List Text) : Bool :=
  match Invocation.ofArguments arguments with
  | .error _ => false
  | .ok invocation => invocation.debug

/-- What goes to standard error for a notice, if it is shown: complaints
and warnings always, the rest of the log on demand. -/
def shown? (debug : Bool) : Notice → Option Text
  | .complaint line => some (line.toList ++ ['\n'])
  | .event event =>
    if debug ∨ event.level = .warn then some event.record else none

end Program

end LineScript
