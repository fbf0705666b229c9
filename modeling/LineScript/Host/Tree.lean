/-
A tree of directories and files, with a working directory.

Paths are resolved part by part. A path that starts with a slash begins
at the root, any other in the working directory; `.` stays and `..` goes
up; every part but the last must lead to a directory. A slash at the end
asks for a directory. Parts of more than 255 bytes and paths of 4096
bytes and more are too long.

The tree is a table: under each absolute path, written without `.` and
`..`, there is a directory or a file. The root is the empty path.
-/
import LineScript.Host.Basic
import LineScript.Table
import LineScript.Text.Utf8

set_option autoImplicit false

namespace LineScript

/-- What a path of a tree leads to. -/
inductive TreeEntry where
  | directory
  | file (bytes : List UInt8)
  deriving DecidableEq

/-- Directories and files. A place in the tree is the list of the names
on the way to it, the last name first. -/
structure Tree where
  entries : Table TreeEntry := .empty
  /-- The working directory. -/
  workingDirectory : List Text := []

namespace Tree

/-- The absolute path of a place. -/
def pathOf (place : List Text) : Text := place.reverse.flatMap ('/' :: ·)

/-- What there is at a place. -/
def entryAt? (tree : Tree) (place : List Text) : Option TreeEntry :=
  if place.isEmpty then some .directory else tree.entries.get? (pathOf place)

-- ======================================================== resolution

/-- The names in a path, with `.` and `..`. -/
def parts (path : Text) : List Text :=
  (Text.splitOn ['/'] path).filter fun part => part ≠ []

/-- Where the resolution of a path begins. -/
def origin (tree : Tree) (path : Text) : List Text :=
  if path.head? = some '/' then [] else tree.workingDirectory

/-- The longest name, in bytes. -/
def nameLimit : Nat := 255

/-- The length that no path reaches, in bytes. -/
def pathLimit : Nat := 4096

/-- The directory that a name leads to from a directory. -/
def enter (tree : Tree) (place : List Text) (name : Text) :
    Except HostFault (List Text) :=
  if name = ['.'] then .ok place
  else if name = ['.', '.'] then .ok place.tail
  else if nameLimit < Utf8.size name then .error .nameTooLong
  else
    match tree.entryAt? (name :: place) with
    | none => .error .noEntry
    | some (.file _) => .error .notDirectory
    | some .directory => .ok (name :: place)

/-- The end of a path: the directory that holds it and its name there, or
a directory without a name of its own. -/
inductive PathEnd where
  | named (place : List Text) (name : Text) (slash : Bool)
  | nameless

/-- The end of a path from a directory, along some names. -/
def endFrom (tree : Tree) (slash : Bool) (place : List Text) :
    List Text → Except HostFault PathEnd
  | [] => .ok .nameless
  | [name] =>
    if name = ['.'] ∨ name = ['.', '.'] then .ok .nameless
    else .ok (.named place name slash)
  | name :: next :: rest =>
    do tree.endFrom slash (← tree.enter place name) (next :: rest)

/-- The end of a path. -/
def pathEnd (tree : Tree) (path : Text) : Except HostFault PathEnd :=
  if Char.ofNat 0 ∈ path then .error .nulInPath
  else if pathLimit ≤ Utf8.size path then .error .nameTooLong
  else if path.isEmpty then .error .noEntry
  else tree.endFrom (path.getLast? = some '/') (tree.origin path) (parts path)

-- ======================================================== operations

/-- The bytes of the file at a path. -/
def readBytes (tree : Tree) (path : Text) : Except HostFault (List UInt8) := do
  match ← tree.pathEnd path with
  | .nameless => throw .isDirectory
  | .named place name slash =>
    if nameLimit < Utf8.size name then throw .nameTooLong
    else
      match tree.entryAt? (name :: place) with
      | none => throw .noEntry
      | some .directory => throw .isDirectory
      | some (.file bytes) =>
        if slash then throw .notDirectory else return bytes

/-- The tree with bytes at a place. -/
def put (tree : Tree) (place : List Text) (bytes : List UInt8) : Tree :=
  { tree with entries := tree.entries.insert (pathOf place) (.file bytes) }

/-- The tree with bytes written to a path. A slash at the end is refused
before the name is looked at. -/
def writeBytes (tree : Tree) (path : Text) (bytes : List UInt8) :
    Except HostFault Tree := do
  match ← tree.pathEnd path with
  | .nameless => throw .isDirectory
  | .named place name slash =>
    if slash then throw .isDirectory
    else if nameLimit < Utf8.size name then throw .nameTooLong
    else
      match tree.entryAt? (name :: place) with
      | some .directory => throw .isDirectory
      | _ => return tree.put (name :: place) bytes

instance : Host Tree where
  isFile tree path :=
    match tree.readBytes path with
    | .ok _ => true
    | .error _ => false
  read tree path :=
    match tree.readBytes path with
    | .error fault => .error fault
    | .ok bytes =>
      match Utf8.text? bytes with
      | some text => .ok text
      | none => .error .notText
  write tree path contents := tree.writeBytes path (Utf8.encode contents)

-- ========================================================== building

/-- The tree with a directory at every place on the way along some names,
and the last of these places. -/
def growFrom (tree : Tree) (place : List Text) : List Text → Tree × List Text
  | [] => (tree, place)
  | name :: rest =>
    if name = ['.'] then tree.growFrom place rest
    else if name = ['.', '.'] then tree.growFrom place.tail rest
    else
      let tree :=
        { tree with
          entries := tree.entries.insert (pathOf (name :: place)) .directory }
      tree.growFrom (name :: place) rest

/-- The tree with a directory and those above it. -/
def addDirectory (tree : Tree) (path : Text) : Tree :=
  (tree.growFrom (tree.origin path) (parts path)).1

/-- The tree with a file and the directories above it. -/
def addFile (tree : Tree) (path : Text) (bytes : List UInt8) : Tree :=
  let names := parts path
  let (tree, place) := tree.growFrom (tree.origin path) names.dropLast
  tree.put (names.getLastD [] :: place) bytes

/-- The tree with nothing in it but its working directory. -/
def emptyAt (path : Text) : Tree :=
  let (tree, place) := growFrom {} [] (parts path)
  { tree with workingDirectory := place }

end Tree

end LineScript
