/-
Signatures: how the argument text of a command falls into arguments.

| signature    | argument text                       | arguments            |
|--------------|-------------------------------------|----------------------|
| `names 0`    | nothing                             | none                 |
| `names n`    | `n` identifiers with commas between | the identifiers      |
| `assignment` | an identifier, a comma, any operand | both                 |
| `jump`       | a label name, perhaps after a colon | the name             |
| `branch`     | two identifiers and a jump          | all three            |
| `custom`     | what a pattern of `n` groups takes  | the first `n` groups |

White space may stand around every part. An operand has no line feed in
it.
-/
import LineScript.Line
import LineScript.Pattern.Lexicon
import LineScript.Pattern.Search
import LineScript.Text.Numeral

set_option autoImplicit false

namespace LineScript

/-- The form of a command's arguments. -/
inductive Signature where
  | names (count : Nat)
  | assignment
  | jump
  | branch
  | custom (arity : Nat) (pattern : Pattern.Node)

/-- Why an argument text does not fit a signature. -/
inductive ArgumentFault where
  | unexpected
  | count (expected actual : Nat)
  | notIdentifier (text : Text)
  | mismatch
  deriving DecidableEq

/-- The wording of a fault in an argument text. -/
def ArgumentFault.message : ArgumentFault → String
  | .unexpected => "expects no arguments"
  | .count expected actual => s!"expects {expected} argument(s), got {actual}"
  | .notIdentifier text =>
    s!"`{String.ofList text}` is not a valid variable name "
      ++ s!"(expected {identifierGrammar})"
  | .mismatch => "arguments do not match the command's syntax"

namespace Signature

/-- How many arguments a command has. -/
def arity : Signature → Nat
  | .names count => count
  | .assignment => 2
  | .jump => 1
  | .branch => 3
  | .custom arity _ => arity

/-- The signature of a pattern's source, which has to match the whole
argument text and to have a group for every argument. -/
def ofPattern [Pattern.Lexicon] (arity : Nat) (source : Text) :
    Except PatternFault Signature :=
  match Pattern.compile? ("^(?:".toList ++ source ++ ")$".toList) with
  | none => .error (.malformed source)
  | some pattern =>
    if pattern.groups < arity then
      .error (.tooFewGroups source pattern.groups arity)
    else .ok (.custom arity pattern)

-- ==================================================== the comma grammar

/-- The parts of a text between its commas, trimmed; a blank text has
none. -/
def commaParts (text : Text) : List Text :=
  if Text.isAllBlank text then [] else (Text.splitOn [','] text).map Text.trim

/-- A given number of identifiers. -/
def extractNames (count : Nat) (text : Text) :
    Except ArgumentFault (List Text) :=
  let parts := commaParts text
  if count = 0 then
    if parts.isEmpty then .ok [] else .error .unexpected
  else if parts.length ≠ count then .error (.count count parts.length)
  else
    match parts.find? fun part => !Text.isIdentifier part with
    | some part => .error (.notIdentifier part)
    | none => .ok parts

-- ======================================== operands, targets, branches

/-- An identifier followed by a comma, and what follows the comma. -/
def nameAndComma? (text : Text) : Option (Text × Text) :=
  match Text.splitIdentifier? (Text.trimStart text) with
  | none => none
  | some (name, after) =>
    match Text.trimStart after with
    | ',' :: rest => some (name, rest)
    | _ => none

/-- The operand of an assignment: the text without the white space around
it. Where there is nothing else, the last white space that is no line
feed is the operand. -/
def operand? (text : Text) : Option Text :=
  let core := Text.trim text
  if core.isEmpty then (text.reverse.find? (· != '\n')).map fun c => [c]
  else if '\n' ∈ core then none
  else some core

/-- A label name, perhaps after a colon. -/
def target? (text : Text) : Option Text :=
  let body :=
    match Text.trimStart text with
    | ':' :: rest => rest
    | body => body
  match Text.splitLabelName? body with
  | some (name, after) => if Text.isAllBlank after then some name else none
  | none => none

/-- The two arguments of an assignment. -/
def assignment? (text : Text) : Option (List Text) := do
  let (name, rest) ← nameAndComma? text
  let operand ← operand? rest
  return [name, operand]

/-- The three arguments of a branch. -/
def branch? (text : Text) : Option (List Text) := do
  let (left, rest) ← nameAndComma? text
  let (right, rest) ← nameAndComma? rest
  let name ← target? rest
  return [left, right, name]

-- =========================================================== extraction

/-- The groups of a pattern's match, from the first to the `arity`-th. -/
def groupsOf (arity : Nat) (found : Pattern.Thread) : List Text :=
  (List.range arity).map fun i => found.group (i + 1)

/-- The arguments in an argument text. -/
def extract (signature : Signature) (text : Text) :
    Except ArgumentFault (List Text) :=
  let found? : Option (List Text) → Except ArgumentFault (List Text)
    | some arguments => .ok arguments
    | none => .error .mismatch
  match signature with
  | .names count => extractNames count text
  | .assignment => found? (assignment? text)
  | .jump => found? ((target? text).map ([·]))
  | .branch => found? (branch? text)
  | .custom arity pattern =>
    found? ((pattern.search text).map (groupsOf arity))

end Signature

end LineScript
