/-
Failures: why an engine cannot be built, a script cannot be loaded or
read, or a run ends early.

A failure is a cause, not a text; the wording is in one function for
each kind of cause. Failures that concern a line carry the line itself
and its place, and show the line's number counted from one.
-/
import LineScript.Host.Basic
import LineScript.Settings.Basic
import LineScript.Signature
import LineScript.Value

set_option autoImplicit false

namespace LineScript

-- =========================================================== causes

/-- Why an engine is refused. -/
inductive ConfigurationFault where
  | settings (fault : SettingsFault)
  | pattern (fault : PatternFault)
  | emptyTable
  /-- Declared commands without a handler, ascending. -/
  | unbound (keywords : List Text)
  | stated (message : Text)
  deriving DecidableEq

/-- Why a script's lines are refused before the run. -/
inductive ListingFault where
  | labelDefined (name : Text)
  | stated (message : Text)
  deriving DecidableEq

/-- Why a line is no command. -/
inductive DecodingFault where
  | malformed
  | unknownCommand (keyword : Text)
  | arguments (keyword : Text) (fault : ArgumentFault)
  | stated (message : Text)
  deriving DecidableEq

/-- What a command may ask of an operand's kind. -/
inductive Expectation where
  | number
  | string
  | stringOrList
  deriving DecidableEq, Repr

/-- Why a command cannot be carried out. -/
inductive CommandFault where
  | undefinedVariable (name : Text)
  | undefinedLabel (name : Text)
  | wrongKind (name : Text) (found : Value.Kind) (expected : Expectation)
  | notFinite (name : Text)
  /-- The text is none of the operand forms. -/
  | notOperand (text : Text)
  | missingFile (path : Text)
  | unreadable (path : Text) (fault : HostFault)
  | unwritable (path : Text) (fault : HostFault)
  | emptyFileName (name : Text)
  | outOfRange (index : Int) (name : Text) (length : Nat)
  | emptyString (name : Text)
  | noCharacter (code : Double)
  | noByte (number : Double)
  | notAppendable (source target : Value.Kind)
  | notComparable (left right : Value.Kind)
  | divisionByZero
  | moduloByZero
  | stated (message : Text)
  deriving DecidableEq

/-- Why a run ends early. -/
inductive RuntimeFault where
  | command (keyword : Text) (fault : CommandFault)
  | stated (message : Text)
  deriving DecidableEq

-- ========================================================= wordings

/-- The wording of a fault in a configuration. -/
def ConfigurationFault.message : ConfigurationFault → String
  | .settings fault => fault.message
  | .pattern fault => fault.message
  | .emptyTable => "command table is empty"
  | .unbound keywords =>
    let names := ", ".intercalate (keywords.map String.ofList)
    s!"no handler bound for command(s): {names}"
  | .stated message => String.ofList message

/-- The wording of a fault in a listing. -/
def ListingFault.message : ListingFault → String
  | .labelDefined name => s!"label ':{String.ofList name}' is already defined"
  | .stated message => String.ofList message

/-- The wording of a fault in a command line. -/
def DecodingFault.message : DecodingFault → String
  | .malformed => "malformed command line"
  | .unknownCommand keyword => s!"unknown command '{String.ofList keyword}'"
  | .arguments keyword fault => s!"{String.ofList keyword}: {fault.message}"
  | .stated message => String.ofList message

/-- An expectation's name, as messages show it. -/
def Expectation.name : Expectation → String
  | .number => "a number"
  | .string => "a string"
  | .stringOrList => "a string or list"

/-- The wording of a fault in a command. -/
def CommandFault.message : CommandFault → String
  | .undefinedVariable name => s!"undefined variable '{String.ofList name}'"
  | .undefinedLabel name => s!"undefined label ':{String.ofList name}'"
  | .wrongKind name found expected =>
    s!"'{String.ofList name}' is a {found.name}, expected {expected.name}"
  | .notFinite name => s!"'{String.ofList name}' is not a finite number"
  | .notOperand text =>
    s!"`{String.ofList text}` is not a number, string, list or variable name"
  | .missingFile path => s!"file '{String.ofList path}' does not exist"
  | .unreadable path fault =>
    s!"cannot read '{String.ofList path}': {fault.message}"
  | .unwritable path fault =>
    s!"cannot write '{String.ofList path}': {fault.message}"
  | .emptyFileName name => s!"file name in '{String.ofList name}' is empty"
  | .outOfRange index name length =>
    let place := String.ofList (intNumeral index)
    s!"index {place} out of range for '{String.ofList name}' (length {length})"
  | .emptyString name => s!"'{String.ofList name}' is an empty string"
  | .noCharacter code =>
    s!"character code {String.ofList code.text} is outside 0..=255"
  | .noByte number => s!"{String.ofList number.text} does not fit in one byte"
  | .notAppendable source target =>
    s!"cannot append a {source.name} to a {target.name}"
  | .notComparable left right =>
    s!"cannot compare a {left.name} with a {right.name}"
  | .divisionByZero => "division by zero"
  | .moduloByZero => "modulo by zero"
  | .stated message => String.ofList message

/-- The wording of a fault in a run. -/
def RuntimeFault.message : RuntimeFault → String
  | .command keyword fault => s!"{String.ofList keyword}: {fault.message}"
  | .stated message => String.ofList message

-- ========================================================= failures

/-- The place of a failure: the index of a line, from zero, and the line. -/
structure Site where
  index : Nat
  raw : Text
  deriving DecidableEq

/-- The number of the line, from one. -/
def Site.line (site : Site) : Nat := site.index + 1

/-- What ends the work on a script. -/
inductive Failure where
  | configuration (fault : ConfigurationFault)
  | load (path : Text) (fault : HostFault)
  | preprocessing (site : Site) (fault : ListingFault)
  | decoding (site : Site) (fault : DecodingFault)
  | runtime (site : Site) (fault : RuntimeFault)
  deriving DecidableEq

namespace Failure

/-- The place of a failure, if it concerns a line. -/
def site? : Failure → Option Site
  | .configuration _ => none
  | .load _ _ => none
  | .preprocessing site _ => some site
  | .decoding site _ => some site
  | .runtime site _ => some site

/-- The number of the failing line, from one. -/
def line? (failure : Failure) : Option Nat := failure.site?.map Site.line

/-- The failing line. -/
def raw? (failure : Failure) : Option Text := failure.site?.map Site.raw

/-- The wording for a failure of some phase at a line. -/
def lineMessage (phase : String) (site : Site) (message : String) : String :=
  s!"{phase} error on line {site.line}: {message}: `{String.ofList site.raw}`"

/-- The wording of a failure. -/
def message : Failure → String
  | .configuration fault => s!"configuration error: {fault.message}"
  | .load path fault =>
    s!"cannot load script {String.ofList path}: {fault.message}"
  | .preprocessing site fault => lineMessage "preprocessing" site fault.message
  | .decoding site fault => lineMessage "syntax" site fault.message
  | .runtime site fault => lineMessage "runtime" site fault.message

/-- The fault of a file under a failure, if there is one. -/
def hostFault? : Failure → Option HostFault
  | .load _ fault => some fault
  | _ => none

end Failure

end LineScript
