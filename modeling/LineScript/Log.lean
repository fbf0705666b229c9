/-
The log: what an engine and the program report about their work.

An event says what happened; its level, its origin and its wording are
functions of it. Events never influence a run.

The wording may quote any text, line feeds and control included. A record
of the log stays readable all the same: it is plain text, and only its
first line starts at the margin.
-/
import LineScript.Text.Escape
import LineScript.Text.Numeral
import LineScript.Text.Plain

set_option autoImplicit false

namespace LineScript

/-- How much attention an event asks for. -/
inductive LogLevel where
  | trace
  | debug
  | warn
  deriving DecidableEq, Repr

/-- A level's name in log records. -/
def LogLevel.name : LogLevel → String
  | .trace => "TRACE"
  | .debug => "DEBUG"
  | .warn => "WARN"

/-- What is reported. -/
inductive Event where
  /-- A handler is bound to a keyword that is not declared. -/
  | unusedHandler (keyword : Text)
  | loading (path : Text)
  | separator (text : Text)
  /-- A label is defined on the line of an index. -/
  | label (name : Text) (index : Nat)
  | running (lines labels : Nat)
  /-- A command on the line of an index is about to run. -/
  | command (index : Nat) (keyword : Text) (arguments : List Text)
  | echoed (line : Text)
  | finished (vars : Nat)
  | settingsLoaded (path : Text)
  deriving DecidableEq

-- ========================================================== quoting

/-- The hexadecimal digits of a number, without leading zeros. -/
def hexNumeral (n : Nat) : Text :=
  if n < 16 then [hexDigitChar n]
  else hexNumeral (n / 16) ++ [hexDigitChar (n % 16)]
termination_by n

/-- A character as it stands inside a quoted text. -/
def quotedChar (c : Char) : Text :=
  if c = '"' then ['\\', '"']
  else if c = '\\' then ['\\', '\\']
  else if c = '\n' then ['\\', 'n']
  else if c = '\r' then ['\\', 'r']
  else if c = '\t' then ['\\', 't']
  else if c.toNat = 0 then ['\\', '0']
  else if c.toNat < 32 ∨ (127 ≤ c.toNat ∧ c.toNat < 160) then
    "\\u\x7b".toList ++ hexNumeral c.toNat ++ "\x7d".toList
  else [c]

/-- A text in double quotes, quotes, backslashes and control characters
marked. -/
def quoted (text : Text) : Text := '"' :: text.flatMap quotedChar ++ ['"']

/-- A list of texts, each quoted, in brackets. -/
def quotedList (texts : List Text) : Text :=
  '[' :: ", ".toList.intercalate (texts.map quoted) ++ [']']

/-- A numeral at the right end of four places. -/
def rightAligned (n : Nat) : Text :=
  List.replicate (4 - (numeral n).length) ' ' ++ numeral n

-- ========================================================== records

namespace Event

/-- The level of an event. -/
def level : Event → LogLevel
  | .unusedHandler _ => .warn
  | .separator _ => .trace
  | .command _ _ _ => .trace
  | .loading _ | .label _ _ | .running _ _ | .echoed _ | .finished _
  | .settingsLoaded _ => .debug

/-- The part of the program that an event comes from. -/
def origin : Event → String
  | .echoed _ => "lscript::script::interp"
  | .settingsLoaded _ => "lscript"
  | .unusedHandler _ | .loading _ | .separator _ | .label _ _ | .running _ _
  | .command _ _ _ | .finished _ => "lscript::processor"

/-- The wording of an event. -/
def message : Event → String
  | .unusedHandler keyword =>
    s!"handler `{String.ofList keyword}` has no command declaration "
      ++ "and can never run"
  | .loading path => s!"loading script file {String.ofList path}"
  | .separator text => s!"line separator {String.ofList (quoted text)}"
  | .label name index => s!"label :{String.ofList name} -> line {index + 1}"
  | .running lines labels => s!"running {lines} line(s), {labels} label(s)"
  | .command index keyword arguments =>
    String.ofList (rightAligned (index + 1) ++ ':' :: ' ' :: keyword ++
      ' ' :: quotedList arguments)
  | .echoed line => s!"echo: {String.ofList line}"
  | .finished vars => s!"run finished with {vars} variable(s) set"
  | .settingsLoaded path => s!"loaded settings from {String.ofList path}"

/-- What a record begins with, the level in five places. -/
def heading (event : Event) : String :=
  let name := event.level.name
  let padding := "".pushn ' ' (5 - name.length)
  s!"[{name}{padding} {event.origin}] "

/-- An event as a record of the program's log, the final line feed
included. Lines of the wording after the first are indented by four. -/
def record (event : Event) : Text :=
  let wording := Text.replace ['\n'] "\n    ".toList event.message.toList
  Text.plain (event.heading.toList ++ wording ++ ['\n'])

end Event

end LineScript
