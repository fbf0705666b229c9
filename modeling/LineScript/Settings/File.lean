/-
Settings files: lines `key = value`, read on top of the defaults.

| key         | value                                           | default |
|-------------|-------------------------------------------------|---------|
| `comment`   | the comment marker                              | `#`     |
| `separator` | `auto`, `lf`, `crlf`, `cr`; or text, `\r`, `\n` | `auto`  |
| `extension` | the suffix of script files                      | `.ls`   |

A line that is blank or starts with `#` or `;` says nothing. A line that
cannot be understood is reported and passed over, so one slip does not
discard the rest of the file. Lines are read one by one and the last one
for a key wins.
-/
import LineScript.Settings.Basic
import LineScript.Text.Blank

set_option autoImplicit false

namespace LineScript

namespace Settings

/-- Why a line of a settings file is passed over. -/
inductive LineFault where
  | noEquals (line : Text)
  | unknownKey (key : Text)
  | emptySeparator
  deriving DecidableEq

/-- The wording of a fault in a line. -/
def LineFault.message : LineFault → String
  | .noEquals line => s!"expected `key = value`, got `{String.ofList line}`"
  | .unknownKey key => s!"unknown key `{String.ofList key}`"
  | .emptySeparator => "separator must not be empty"

/-- A line that was passed over: its number, from one, and why. -/
structure Complaint where
  line : Nat
  fault : LineFault
  deriving DecidableEq

/-- A complaint with its place. -/
def Complaint.display (complaint : Complaint) : String :=
  s!"line {complaint.line}: {complaint.fault.message}"

/-- What one line of a settings file says. -/
inductive Entry where
  | silent
  | marker (value : Text)
  | separator (value : Option Text)
  | suffix (value : Text)
  | faulty (fault : LineFault)
  deriving DecidableEq

/-- The separator that a value names; `none` if it names the empty one. -/
def separatorNamed? (value : Text) : Option (Option Text) :=
  if value = "auto".toList then some none
  else if value = "lf".toList then some (some ['\n'])
  else if value = "crlf".toList then some (some ['\r', '\n'])
  else if value = "cr".toList then some (some ['\r'])
  else
    let spelled :=
      Text.replace ['\\', 'n'] ['\n'] (Text.replace ['\\', 'r'] ['\r'] value)
    if spelled.isEmpty then none else some (some spelled)

/-- What a line says, white space around it not counting. -/
def readLine (raw : Text) : Entry :=
  match Text.trim raw with
  | [] => .silent
  | c :: rest =>
    if c = '#' ∨ c = ';' then .silent
    else
      match Text.splitAtFirst? '=' (c :: rest) with
      | none => .faulty (.noEquals (c :: rest))
      | some (before, after) =>
        let key := Text.trim before
        let value := Text.trim after
        if key = "comment".toList then .marker value
        else if key = "extension".toList then .suffix value
        else if key = "separator".toList then
          match separatorNamed? value with
          | some separator => .separator separator
          | none => .faulty .emptySeparator
        else .faulty (.unknownKey key)

/-- Settings after an entry. -/
def apply (settings : Settings) : Entry → Settings
  | .marker value => { settings with marker := value }
  | .separator value => { settings with separator := value }
  | .suffix value => { settings with suffix := value }
  | .silent => settings
  | .faulty _ => settings

/-- Read lines on top of settings, the first of them having the number
`line`. -/
def readLines (settings : Settings) (line : Nat) :
    List Text → Settings × List Complaint
  | [] => (settings, [])
  | raw :: rest =>
    let entry := readLine raw
    let (final, complaints) := readLines (settings.apply entry) (line + 1) rest
    match entry with
    | .faulty fault => (final, ⟨line, fault⟩ :: complaints)
    | _ => (final, complaints)

/-- The settings of a file's text and the complaints about it, by line. A
final line feed ends the last line; what follows it is blank and says
nothing. -/
def ofFile (text : Text) : Settings × List Complaint :=
  readLines {} 1 (Text.splitOn ['\n'] text)

end Settings

end LineScript
