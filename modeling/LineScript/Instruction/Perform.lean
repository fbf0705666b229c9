/-
Carrying out actions: the handlers of the script language.

The language's own state is the lines put out so far. An action that
fails, as only actions on files can, leaves variables and output as they
were.
-/
import LineScript.Instruction.Action

set_option autoImplicit false

namespace LineScript

/-- The lines put out, the newest first. -/
structure Output where
  newestFirst : List Text := []
  deriving DecidableEq

namespace Output

/-- The output without lines. -/
def empty : Output := {}

/-- The lines put out, the oldest first. -/
def lines (output : Output) : List Text := output.newestFirst.reverse

/-- The output with one more line. -/
def emit (output : Output) (line : Text) : Output :=
  ⟨line :: output.newestFirst⟩

@[simp] theorem lines_empty : empty.lines = [] := rfl

@[simp] theorem lines_emit (output : Output) (line : Text) :
    (output.emit line).lines = output.lines ++ [line] := by
  simp [lines, emit]

end Output

namespace Action

/-- A reply that changes neither variables nor output. -/
def unchanged (machine : Machine) (output : Output)
    (next : Except Failure Nat) : Reply Output :=
  ⟨machine.vars, output, next⟩

/-- Carry out an action. -/
def perform (action : Action) (call : Call) (machine : Machine)
    (output : Output) : Plan (Reply Output) :=
  let set (name : Text) (value : Value) : Reply Output :=
    ⟨machine.vars.insert name value, output, .ok call.next⟩
  let refuse (fault : CommandFault) : Reply Output :=
    unchanged machine output (.error (call.failure fault))
  match action with
  | .assign name value => return set name value
  | .emit line => do
    Plan.log (.echoed line)
    return ⟨machine.vars, output.emit line, .ok call.next⟩
  | .goTo index => return unchanged machine output (.ok index)
  | .readFile path target => do
    if ← Plan.askIsFile path then
      match ← Plan.askRead path with
      | .ok contents => return set target (.string contents)
      | .error fault => return refuse (.unreadable path fault)
    else return refuse (.missingFile path)
  | .writeFile path contents => do
    match ← Plan.askWrite path contents with
    | .ok () => return unchanged machine output (.ok call.next)
    | .error fault => return refuse (.unwritable path fault)

end Action

namespace Instruction

/-- The handler of a command. -/
def handler (instruction : Instruction) : Handler Output :=
  fun call machine output =>
  match instruction.action call machine with
  | .ok action => action.perform call machine output
  | .error fault =>
    return Action.unchanged machine output (.error (call.failure fault))

/-- The signatures of all commands, by keyword. -/
def commands : Table Signature :=
  .ofList (all.map fun instruction =>
    (instruction.keyword.toList, instruction.signature))

/-- The handlers of all commands, by keyword. -/
def handlers : Table (Handler Output) :=
  .ofList (all.map fun instruction =>
    (instruction.keyword.toList, instruction.handler))

end Instruction

end LineScript
