/-
The machine that commands work on, and what a command is to it.

A handler is given the machine as it is and answers with new variables,
the language's own state and the next program counter, or with a failure.
Labels, program counter and line count are not its to change. On a
failure the variables and the own state of the reply count as well: a
language may fail in the middle of its work.
-/
import LineScript.Failure
import LineScript.Plan
import LineScript.Table

set_option autoImplicit false

namespace LineScript

/-- The state that handlers see. -/
structure Machine where
  vars : Table Value := .empty
  /-- For each label the index of its line. -/
  labels : Table Nat := .empty
  /-- The index of the line being carried out. -/
  pc : Nat := 0
  /-- How many lines there are; going there ends the run. -/
  lineCount : Nat := 0

namespace Machine

instance : Inhabited Machine := ⟨{}⟩

/-- The machine before a script: no variables, no labels, at line zero of
none. -/
def fresh : Machine := {}

/-- The value of a variable. -/
def value? (machine : Machine) (name : Text) : Option Value :=
  machine.vars.get? name

/-- The index of the line with a label. -/
def label? (machine : Machine) (name : Text) : Option Nat :=
  machine.labels.get? name

/-- The machine with a variable set. -/
def assign (machine : Machine) (name : Text) (value : Value) : Machine :=
  { machine with vars := machine.vars.insert name value }

end Machine

/-- A command line on its way to a handler. -/
structure Call where
  /-- The index of the line. -/
  pc : Nat
  /-- The line, as failures show it. -/
  line : Text
  keyword : Text
  arguments : List Text
  deriving DecidableEq

namespace Call

/-- An argument by position; past the last one the empty text. -/
def argument (call : Call) (position : Nat) : Text :=
  call.arguments.getD position []

/-- The index of the next line. -/
def next (call : Call) : Nat := call.pc + 1

/-- The failure of a command for some cause. -/
def failure (call : Call) (fault : CommandFault) : Failure :=
  .runtime ⟨call.pc, call.line⟩ (.command call.keyword fault)

end Call

/-- A handler's answer. -/
structure Reply (σ : Type) where
  vars : Table Value
  own : σ
  next : Except Failure Nat

/-- The implementation of a command, in a language with own state `σ`. -/
abbrev Handler (σ : Type) := Call → Machine → σ → Plan (Reply σ)

end LineScript
