/-
The program's arguments.

  lscript [-dv] [-f[<file>]] <script>
  lscript [-dv] [-f[<file>]] -c<source>

A word that starts with a minus sign is a cluster of flags; `-f` and `-c`
take the rest of their cluster as their value, or else the next word. A
lone minus sign is a plain word, and after `--` all words are. `-f` takes
the next word only if that is a plain word and something is left after it
to be the script; otherwise it has no value, which means that no settings
file is read.
-/
import LineScript.Text.Basic

set_option autoImplicit false

namespace LineScript

/-- Where the settings come from. -/
inductive SettingsSource where
  /-- The first settings file that is found. -/
  | search
  /-- The defaults. -/
  | skip
  | explicit (path : Text)
  deriving DecidableEq

/-- Where the script comes from. -/
inductive ScriptSource where
  | file (path : Text)
  | inline (text : Text)
  deriving DecidableEq

/-- What the arguments ask for. -/
structure Invocation where
  settings : SettingsSource
  script : ScriptSource
  /-- Show all variables after the run. -/
  showVariables : Bool
  /-- Show the whole log. -/
  debug : Bool
  deriving DecidableEq

/-- Why arguments are refused. -/
inductive UsageFault where
  | unknownOption (flag : Char)
  | missingSource
  | noScript
  | twoScripts
  | tooMany (count : Nat)
  deriving DecidableEq

/-- The wording of a fault in the arguments. -/
def UsageFault.message : UsageFault → String
  | .unknownOption flag => s!"unknown option: -{flag}"
  | .missingSource => "-c requires a source argument"
  | .noScript => "no script given"
  | .twoScripts => "give either a script file or -c, not both"
  | .tooMany count => s!"too many arguments ({count})"

namespace Invocation

/-- What the words read so far ask for, with the plain words among them. -/
structure Draft where
  settings : SettingsSource := .search
  inline : Option Text := none
  showVariables : Bool := false
  debug : Bool := false
  plain : List Text := []

/-- Whether a word starts with a minus sign. -/
def isDashed (word : Text) : Bool := word.head? = some '-'

/-- Whether some word can supply the script: a plain one, or one with
`-c`. -/
def leavesScript (words : List Text) : Bool :=
  words.any fun word => !isDashed word || Text.startsWith word ['-', 'c']

/-- Read a cluster of flags. The words after it are at hand for a value;
the answer says whether the first of them was taken. -/
def readCluster (draft : Draft) (after : List Text) :
    Text → Except UsageFault (Draft × Bool)
  | [] => .ok (draft, false)
  | 'd' :: flags => readCluster { draft with debug := true } after flags
  | 'v' :: flags =>
    readCluster { draft with showVariables := true } after flags
  | 'f' :: [] =>
    match after with
    | word :: rest =>
      if !isDashed word && leavesScript rest then
        .ok ({ draft with settings := .explicit word }, true)
      else .ok ({ draft with settings := .skip }, false)
    | [] => .ok ({ draft with settings := .skip }, false)
  | 'f' :: c :: value =>
    .ok ({ draft with settings := .explicit (c :: value) }, false)
  | 'c' :: [] =>
    match after with
    | word :: _ => .ok ({ draft with inline := some word }, true)
    | [] => .error .missingSource
  | 'c' :: c :: value =>
    .ok ({ draft with inline := some (c :: value) }, false)
  | flag :: _ => .error (.unknownOption flag)

/-- Read words; if `taken`, the first of them was a value already. -/
def readWords (draft : Draft) :
    (taken : Bool) → List Text → Except UsageFault Draft
  | _, [] => .ok draft
  | true, _ :: words => readWords draft false words
  | false, word :: words =>
    if word = ['-', '-'] then .ok { draft with plain := draft.plain ++ words }
    else if !isDashed word || word = ['-'] then
      readWords { draft with plain := draft.plain ++ [word] } false words
    else
      match readCluster draft words word.tail with
      | .error fault => .error fault
      | .ok (draft, taken) => readWords draft taken words

/-- The invocation of a complete draft: there is one script. -/
def ofDraft (draft : Draft) : Except UsageFault Invocation :=
  let invocation (script : ScriptSource) : Invocation :=
    ⟨draft.settings, script, draft.showVariables, draft.debug⟩
  match draft.plain, draft.inline with
  | [], none => .error .noScript
  | [], some text => .ok (invocation (.inline text))
  | [path], none => .ok (invocation (.file path))
  | [_], some _ => .error .twoScripts
  | words, _ => .error (.tooMany words.length)

/-- The invocation that the arguments write down. -/
def ofArguments (arguments : List Text) : Except UsageFault Invocation := do
  ofDraft (← readWords {} false arguments)

end Invocation

end LineScript
