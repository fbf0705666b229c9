/-
Expressions: the written form of patterns.

What a token is, is not settled here. It is left to a library of regular
expressions, which has escapes, classes and flags of its own, and limits
to what it takes (`Lexicon`). What is relied on is only that an expression
is read token by token, under flags that hold to the end of a group.

Reading is in two passes: the text is cut into tokens, whose brackets have
to pair off, and the tokens are put together on a stack of open groups.
-/
import LineScript.Pattern.Basic

set_option autoImplicit false

namespace LineScript

namespace Pattern

-- =========================================================== tokens

/-- What a group does beside holding together what is in it. -/
inductive Grouping where
  | plain
  /-- Its text is remembered under the next number. -/
  | numbered
  /-- Its text is remembered under the next number and a name. -/
  | named (name : Text)
  deriving DecidableEq, Repr

/-- A token of an expression. -/
inductive Token where
  | one (set : CharSet)
  | look (look : Look)
  | opening (grouping : Grouping)
  | closing
  | bar
  | repeated (least : Nat) (most : Option Nat) (greedy : Bool)
  /-- Flags, for the rest of the group. -/
  | setting
  /-- White space or a comment, where flags allow it. -/
  | skipped
  deriving DecidableEq, Repr

/-- A library of regular expressions: how it reads tokens. -/
class Lexicon where
  /-- What flags there are, each set or not. -/
  Flags : Type
  /-- The flags at the beginning of an expression. -/
  initial : Flags
  /-- The token at the head of a text under the flags in force, the flags
  behind it, and what follows it. Behind a bracket that opens a group these
  are the flags inside. -/
  token? (flags : Flags) (text : Text) : Option (Token × Flags × Text)
  /-- Whether an expression keeps to the limits on its size. -/
  admits (tokens : List Token) : Bool

section

variable [Lexicon]

/-- The flags in force, and those around each open group, the innermost
first. -/
structure Modes where
  here : Lexicon.Flags := Lexicon.initial
  around : List Lexicon.Flags := []

/-- The flags behind a token. A bracket that closes a group brings back
the flags around it; there has to be such a group. -/
def Modes.after? (modes : Modes) (flags : Lexicon.Flags) : Token → Option Modes
  | .opening _ => some ⟨flags, modes.here :: modes.around⟩
  | .closing =>
    match modes.around with
    | [] => none
    | outer :: around => some ⟨outer, around⟩
  | _ => some { modes with here := flags }

/-- The tokens of a text, at most `fuel` of them. All groups have to be
closed at its end. -/
def tokensWithin : (fuel : Nat) → Modes → Text → Option (List Token)
  | _, modes, [] => if modes.around.isEmpty then some [] else none
  | 0, _, _ :: _ => none
  | fuel + 1, modes, c :: rest =>
    match Lexicon.token? modes.here (c :: rest) with
    | none => none
    | some (token, flags, after) =>
      match modes.after? flags token with
      | none => none
      | some modes => (tokensWithin fuel modes after).map (token :: ·)

/-- The tokens of a text. Every token takes at least one character, so
there are no more tokens than characters. -/
def tokens? (text : Text) : Option (List Token) :=
  tokensWithin text.length {} text

end

-- ======================================================= assembling

/-- A sequence of patterns. -/
def sequenceOf : List Node → Node
  | [] => .empty
  | [node] => node
  | node :: next :: rest => .sequence node (sequenceOf (next :: rest))

/-- An ordered choice, the branches before the last one given from the
last to the first. -/
def choiceOf (last : Node) : List Node → Node
  | [] => last
  | branch :: earlier => choiceOf (.choice branch last) earlier

/-- The part of a pattern inside the innermost open group: the finished
branches and the items of the open branch, both with the latest first, and
whether an item has just been read, so that it may be repeated. -/
structure Part where
  branches : List Node := []
  items : List Node := []
  repeatable : Bool := false

/-- The pattern of a part. -/
def Part.node (part : Part) : Node :=
  choiceOf (sequenceOf part.items.reverse) part.branches

/-- A part with one more item. -/
def Part.push (part : Part) (node : Node) : Part :=
  { part with items := node :: part.items, repeatable := true }

/-- A part whose open branch is finished. -/
def Part.close (part : Part) : Part where
  branches := sequenceOf part.items.reverse :: part.branches

/-- A part whose last item is repeated, if there is one. -/
def Part.repeat? (part : Part) (least : Nat) (most : Option Nat)
    (greedy : Bool) : Option Part :=
  match part.repeatable, part.items with
  | true, node :: items =>
    some { part with items := .repetition node least most greedy :: items }
  | _, _ => none

/-- A pattern under construction: the innermost part, the parts around
the open groups with the numbers of those that are remembered, how many of
these there were, and the names of groups. -/
structure Assembly where
  inner : Part := {}
  outer : List (Option Nat × Part) := []
  groups : Nat := 0
  names : List Text := []

/-- Begin a group. No two groups may have the same name. -/
def Assembly.begin? (assembly : Assembly) (grouping : Grouping) :
    Option Assembly :=
  let opened :=
    { assembly with
      inner := {}, outer := (none, assembly.inner) :: assembly.outer }
  let next := assembly.groups + 1
  let remembered : Assembly :=
    { opened with
      outer := (some next, assembly.inner) :: assembly.outer, groups := next }
  match grouping with
  | .plain => some opened
  | .numbered => some remembered
  | .named name =>
    if name ∈ assembly.names then none
    else some { remembered with names := name :: assembly.names }

/-- End the innermost group. -/
def Assembly.end? (assembly : Assembly) : Option Assembly :=
  match assembly.outer with
  | [] => none
  | (index?, part) :: outer =>
    let node :=
      match index? with
      | some index => .group index assembly.inner.node
      | none => assembly.inner.node
    some { assembly with inner := part.push node, outer }

/-- Take in one token. -/
def Assembly.take (assembly : Assembly) : Token → Option Assembly
  | .one set => some { assembly with inner := assembly.inner.push (.one set) }
  | .look look =>
    some { assembly with inner := assembly.inner.push (.look look) }
  | .bar => some { assembly with inner := assembly.inner.close }
  | .opening grouping => assembly.begin? grouping
  | .closing => assembly.end?
  | .repeated least most greedy =>
    (assembly.inner.repeat? least most greedy).map
      ({ assembly with inner := · })
  | .setting =>
    some { assembly with inner := { assembly.inner with repeatable := false } }
  | .skipped => some assembly

/-- The pattern of a list of tokens. -/
def assemble? (tokens : List Token) : Option Node :=
  match tokens.foldlM Assembly.take {} with
  | some ⟨part, [], _, _⟩ => some part.node
  | _ => none

-- ========================================================== reading

variable [Lexicon]

/-- The pattern that a text writes down. -/
def read? (text : Text) : Option Node := (tokens? text).bind assemble?

/-- The pattern that a text writes down, if the library takes it. -/
def compile? (text : Text) : Option Node :=
  ((tokens? text).filter Lexicon.admits).bind assemble?

end Pattern

end LineScript
