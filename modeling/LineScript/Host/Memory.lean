/-
Files in memory: a table from paths to texts. Any text is a path, and
every write succeeds.
-/
import LineScript.Host.Basic
import LineScript.Table

set_option autoImplicit false

namespace LineScript

/-- Files kept in a table. -/
structure MemoryHost where
  files : Table Text

namespace MemoryHost

/-- The text of a file. -/
def get? (host : MemoryHost) (path : Text) : Option Text :=
  host.files.get? path

/-- The host with a file put in. -/
def put (host : MemoryHost) (path contents : Text) : MemoryHost :=
  ⟨host.files.insert path contents⟩

/-- The host of a list of files; of two with one path the later wins. -/
def ofList (files : List (Text × Text)) : MemoryHost := ⟨Table.ofList files⟩

instance : Host MemoryHost where
  isFile host path := host.files.contains path
  read host path :=
    match host.get? path with
    | some contents => .ok contents
    | none => .error (.unknown path)
  write host path contents := .ok (host.put path contents)

end MemoryHost

end LineScript
