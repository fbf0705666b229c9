/-
The command line: the program's plan, carried out on the real file
system. All that is decided here is how the system's faults are named.
-/
import LineScript.Program.Run
import LineScript.Text.Utf8

set_option autoImplicit false

namespace LineScript

/-- The name of a fault of the system, given by its number or the
number's negative. -/
def systemFault (code : UInt32) (details : String) : HostFault :=
  let number :=
    if power 2 31 ≤ code.toNat then power 2 32 - code.toNat else code.toNat
  if number = 2 then .noEntry
  else if number = 20 then .notDirectory
  else if number = 21 then .isDirectory
  else if number = 36 then .nameTooLong
  else .reported s!"{details.capitalize} (os error {number})".toList

/-- The name of an error of an input or output operation. -/
def hostFault : IO.Error → HostFault
  | .noFileOrDirectory _ code details => systemFault code details
  | .inappropriateType _ code details => systemFault code details
  | .invalidArgument _ code details => systemFault code details
  | .permissionDenied _ code details => systemFault code details
  | .resourceExhausted _ code details => systemFault code details
  | .alreadyExists _ code details => systemFault code details
  | .resourceBusy code details => systemFault code details
  | .hardwareFault code details => systemFault code details
  | .unsupportedOperation code details => systemFault code details
  | .otherError code details => systemFault code details
  | error => .reported (toString error).toList

/-- Refuse a path that the system cannot be given. -/
def withPath {α : Type} (path : Text) (operation : String → IO α) :
    IO (Except HostFault α) := do
  if Char.ofNat 0 ∈ path then return .error .nulInPath
  try
    return .ok (← operation (String.ofList path))
  catch error => return .error (hostFault error)

/-- The bytes of a file. -/
def readSystemFile (path : Text) : IO (Except HostFault (List UInt8)) :=
  withPath path fun name => do return (← IO.FS.readBinFile name).toList

/-- Whether the system has a file at a path. -/
def isSystemFile (path : Text) : IO Bool := do
  match ← readSystemFile path with
  | .ok _ => return true
  | .error (.reported _) => return true
  | .error _ => return false

/-- The text of a file. -/
def readSystemText (path : Text) : IO (Except HostFault Text) := do
  match ← readSystemFile path with
  | .error fault => return .error fault
  | .ok bytes =>
    match Utf8.text? bytes with
    | some text => return .ok text
    | none => return .error .notText

/-- Carry out a plan on the real file system, its notices going to
standard error. -/
def perform {α : Type} (debug : Bool) : Plan α → IO α
  | .done value => return value
  | .isFile path next => do perform debug (next (← isSystemFile path))
  | .read path next => do perform debug (next (← readSystemText path))
  | .write path contents next => do
    let reply ← withPath path fun name =>
      IO.FS.writeFile name (String.ofList contents)
    perform debug (next reply)
  | .report notice next => do
    if let some text := Program.shown? debug notice then
      IO.eprint (String.ofList text)
    perform debug (next ())

/-- The steps that a script may take: more than can be taken. -/
def stepLimit : Nat := power 2 62

/-- The program, carried out: its exit code. -/
def runProgram (arguments : List String) : IO UInt32 := do
  let words := arguments.map String.toList
  let lookUp (name : String) : IO (Option Text) := do
    return (← IO.getEnv name).map String.toList
  let configHome ← lookUp "XDG_CONFIG_HOME"
  let home ← lookUp "HOME"
  let environment : Environment :=
    { settingsFile := ← lookUp "LSCRIPTRC"
      configHome, home
      configDirectory := usualConfigDirectory? configHome home }
  let report? ←
    perform (Program.debugAsked words)
      (Program.run stepLimit environment words)
  let report := report?.getD { code := 1 }
  for line in report.output do IO.println (String.ofList line)
  for line in report.complaints do IO.eprintln line
  return UInt32.ofNat report.code

end LineScript

/-- The entry point of the program. -/
def main (arguments : List String) : IO UInt32 :=
  LineScript.runProgram arguments
