/-
Where the user's settings file is looked for: at the path in
`LSCRIPTRC`; then in the user's configuration directory; then in the
working directory. The first of these that is a file is taken.

Which directory holds the user's configuration is for the platform to
say. What is asked here is only that it says so, or that there is none;
the usual rule (`usualConfigDirectory?`) stands in where nothing else is
said.
-/
import LineScript.Plan

set_option autoImplicit false

namespace LineScript

/-- A path below another. -/
def joinPath (base path : Text) : Text :=
  if path.head? = some '/' then path
  else if base.isEmpty ∨ base.getLast? = some '/' then base ++ path
  else base ++ '/' :: path

/-- The user's configuration directory by the usual rule: `configHome` if
that is an absolute path, and otherwise `.config` in the home directory. A
home that is the empty text is none. -/
def usualConfigDirectory? (configHome home : Option Text) : Option Text :=
  let usual :=
    (home.filter (· ≠ [])).map fun home => joinPath home ".config".toList
  match configHome with
  | some path => if path.head? = some '/' then some path else usual
  | none => usual

/-- What matters of the environment. -/
structure Environment where
  /-- `LSCRIPTRC` -/
  settingsFile : Option Text := none
  /-- `XDG_CONFIG_HOME` -/
  configHome : Option Text := none
  /-- `HOME` -/
  home : Option Text := none
  /-- The user's configuration directory, as the platform has it. -/
  configDirectory : Option Text := usualConfigDirectory? configHome home

/-- The paths to look at, in order. -/
def Environment.candidates (environment : Environment) : List Text :=
  environment.settingsFile.toList
    ++ (environment.configDirectory.map fun directory =>
        joinPath (joinPath directory "lscript".toList) "config".toList).toList
    ++ ["./.lscriptrc".toList]

/-- The first of some paths that is a file. -/
def firstFile : List Text → Plan (Option Text)
  | [] => .done none
  | path :: paths => do
    if ← Plan.askIsFile path then return some path else firstFile paths

/-- The user's settings file. -/
def Environment.locateSettings (environment : Environment) :
    Plan (Option Text) :=
  firstFile environment.candidates

end LineScript
