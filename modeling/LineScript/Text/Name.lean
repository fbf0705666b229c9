/-
The two grammars of names, both over the ASCII letters, the underscore
and the ASCII digits.

An identifier (a variable or a keyword) is a run of letters, then a run
of digits, then a run of letters, the first run not being empty: `x1_`
is one, `a1b2` is not. A label name is a letter followed by letters and
digits in any order, so `a1b2` is a label name. Every identifier is a
label name.
-/
import LineScript.Text.Basic

set_option autoImplicit false

namespace LineScript

/-- An ASCII letter or the underscore. -/
def isNameLetter (c : Char) : Bool := c.isAlpha || c == '_'

/-- A character that may stand in a name. -/
def isNameChar (c : Char) : Bool := isNameLetter c || c.isDigit

namespace Text

/-- The longest identifier at the head of a text, and what follows it. -/
def splitIdentifier? (text : Text) : Option (Text × Text) :=
  let letters := text.takeWhile isNameLetter
  let rest := text.dropWhile isNameLetter
  let digits := rest.takeWhile Char.isDigit
  let rest := rest.dropWhile Char.isDigit
  let more := rest.takeWhile isNameLetter
  if letters.isEmpty then none
  else some (letters ++ digits ++ more, rest.dropWhile isNameLetter)

/-- Whether a text is an identifier. -/
def isIdentifier (text : Text) : Bool :=
  match splitIdentifier? text with
  | some (_, []) => true
  | _ => false

/-- The longest label name at the head of a text, and what follows it. -/
def splitLabelName? (text : Text) : Option (Text × Text) :=
  match text with
  | [] => none
  | c :: _ =>
    if isNameLetter c then
      some (text.takeWhile isNameChar, text.dropWhile isNameChar)
    else none

/-- Whether a text is a label name. -/
def isLabelName (text : Text) : Bool :=
  match text with
  | [] => false
  | c :: rest => isNameLetter c && rest.all isNameChar

end Text

/-- The grammar of identifiers, as messages show it. -/
def identifierGrammar : String := "[A-Za-z_]+[0-9]*[A-Za-z_]*"

end LineScript
