/-
Lines: what kind of line a text is, how a command line falls into its
keyword and its arguments, and where a trailing comment begins.

A line is a piece of a script between two separators. Since a script may
choose its separator, a line can contain line feeds; a label line and the
argument text of a command must not.
-/
import LineScript.Text.Blank
import LineScript.Text.Name

set_option autoImplicit false

namespace LineScript

/-- The kinds of lines. -/
inductive LineKind where
  | empty
  | comment
  | label (name : Text)
  /-- Anything else: a matter of the language. -/
  | other
  deriving DecidableEq, Repr

namespace Line

/-- The name that a label line defines: a colon and a label name, then
nothing or a comment on the same line. -/
def label? (marker line : Text) : Option Text :=
  match Text.trimStart line with
  | ':' :: rest =>
    match Text.splitLabelName? rest with
    | none => none
    | some (name, after) =>
      let tail := Text.trimStart after
      if '\n' ∉ tail ∧ (tail.isEmpty ∨ Text.startsWith tail marker) then
        some name
      else none
  | _ => none

/-- The kind of a line, comments starting with `marker`. -/
def classify (marker line : Text) : LineKind :=
  let body := Text.trimStart line
  if body.isEmpty then .empty
  else if Text.startsWith body marker then .comment
  else
    match label? marker line with
    | some name => .label name
    | none => .other

/-- The keyword of a command line and its argument text: an identifier,
then nothing, or white space and the rest of the line, trimmed. -/
def splitCommand? (line : Text) : Option (Text × Text) :=
  match Text.splitIdentifier? (Text.trim line) with
  | none => none
  | some (keyword, after) =>
    let rest := Text.trimStart after
    if '\n' ∈ rest then none
    else if after.isEmpty ∨ rest.length < after.length then
      some (keyword, rest)
    else none

/-- The part of a line before the first marker outside quotes; `quoted`
says whether the beginning is inside quotes. -/
def beforeComment? (marker : Text) (quoted : Bool) : Text → Option Text
  | [] => none
  | c :: rest =>
    if c = '\'' then (beforeComment? marker (!quoted) rest).map (c :: ·)
    else if !quoted && Text.startsWith (c :: rest) marker then some []
    else (beforeComment? marker quoted rest).map (c :: ·)

/-- A line without its trailing comment and the white space before it;
`none` if the line has no trailing comment. -/
def stripComment? (marker line : Text) : Option Text :=
  (beforeComment? marker false line).map Text.trimEnd

end Line

end LineScript
