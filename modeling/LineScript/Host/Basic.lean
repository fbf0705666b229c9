/-
Hosts: where the files of a script live.

A script sees files only through three operations on whole texts: is
there a file, read it, write it. A host is any type with these. A write
that fails yields a fault and no new host, so it changes nothing.
-/
import LineScript.Text.Basic

set_option autoImplicit false

namespace LineScript

/-- Why a file operation failed. -/
inductive HostFault where
  /-- No file of this name in a table of files. -/
  | unknown (path : Text)
  /-- Nothing at the path. -/
  | noEntry
  /-- Something on the way is not a directory. -/
  | notDirectory
  /-- The path leads to a directory. -/
  | isDirectory
  /-- The path, or a part of it, is too long. -/
  | nameTooLong
  /-- The contents are no text. -/
  | notText
  /-- The path contains the character of code zero. -/
  | nulInPath
  /-- A fault reported in the words of another system. -/
  | reported (message : Text)
  deriving DecidableEq

/-- The wording of a file fault. -/
def HostFault.message : HostFault → String
  | .unknown path => s!"{String.ofList path}: no such file"
  | .noEntry => "No such file or directory (os error 2)"
  | .notDirectory => "Not a directory (os error 20)"
  | .isDirectory => "Is a directory (os error 21)"
  | .nameTooLong => "File name too long (os error 36)"
  | .notText => "stream did not contain valid UTF-8"
  | .nulInPath => "file name contained an unexpected NUL byte"
  | .reported message => String.ofList message

/-- A place where files live. -/
class Host (η : Type) where
  /-- Whether a path leads to a file. -/
  isFile : η → Text → Bool
  /-- The text of the file at a path. -/
  read : η → Text → Except HostFault Text
  /-- The host with a text as the file at a path. -/
  write : η → Text → Text → Except HostFault η

end LineScript
