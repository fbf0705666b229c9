/-
Listings: a script's text as the lines that a run works on.

The text is cut at the separator, and every piece keeps its index, so
that a label leads to the index of its line. Blank lines, comments and
label lines become empty; every other line is offered to the language's
hook. Reading goes from the first line to the last and stops at the
first line that is refused: one that defines a label again, or one that
the hook rejects.
-/
import LineScript.Engine.Basic

set_option autoImplicit false

namespace LineScript

variable {σ : Type}

/-- The lines that a run works on, by index. -/
abbrev Listing := Array Text

/-- What reading some lines leaves behind: the labels defined and the
language's own state, and the lines, unless one of them was refused. -/
structure Reading (σ : Type) where
  labels : Table Nat
  own : σ
  lines : Except Failure (List Text)

namespace Reading

/-- A reading with one more line in front. -/
def consLine (line : Text) (reading : Reading σ) : Reading σ :=
  { reading with lines := reading.lines.map (line :: ·) }

/-- The machine and own state after a reading: no variables, and the
labels of the lines read. -/
def state (reading : Reading σ) : State σ :=
  ⟨{ labels := reading.labels }, reading.own⟩

/-- The lines that a run works on, unless one of them was refused. -/
def listing (reading : Reading σ) : Except Failure Listing :=
  reading.lines.map List.toArray

end Reading

namespace Engine

/-- Read lines, the first of them at an index, with labels defined
before. -/
def readFrom (engine : Engine σ) (index : Nat) (labels : Table Nat) (own : σ) :
    List Text → Reading σ
  | [] => ⟨labels, own, .ok []⟩
  | raw :: rest =>
    match Line.classify engine.settings.marker raw with
    | .empty => (engine.readFrom (index + 1) labels own rest).consLine []
    | .comment => (engine.readFrom (index + 1) labels own rest).consLine []
    | .label name =>
      if labels.contains name then
        ⟨labels, own,
          .error (.preprocessing ⟨index, raw⟩ (.labelDefined name))⟩
      else
        (engine.readFrom (index + 1) (labels.insert name index) own
          rest).consLine []
    | .other =>
      match engine.hook engine.settings index raw own with
      | (.error failure, own) => ⟨labels, own, .error failure⟩
      | (.ok replacement, own) =>
        (engine.readFrom (index + 1) labels own rest).consLine
          (replacement.getD raw)

/-- The pieces of a script's text. -/
def pieces (engine : Engine σ) (text : Text) : List Text :=
  Text.splitOn (engine.settings.separatorFor text) text

/-- Read a script's text. -/
def read (engine : Engine σ) (text : Text) (own : σ) : Reading σ :=
  engine.readFrom 0 .empty own (engine.pieces text)

/-- Labels as they were defined, line by line. -/
def labelEvents (labels : Table Nat) : List Event :=
  (labels.toList.mergeSort fun a b => a.2 ≤ b.2).map fun (name, index) =>
    .label name index

/-- Prepare a run: forget the last one and read the script. -/
def preprocess (engine : Engine σ) (text : Text) (state : State σ) :
    Plan (State σ × Except Failure Listing) := do
  let reading := engine.read text state.own
  Plan.log (.separator (engine.settings.separatorFor text))
  Plan.logAll (labelEvents reading.labels)
  return (reading.state, reading.listing)

end Engine

end LineScript
