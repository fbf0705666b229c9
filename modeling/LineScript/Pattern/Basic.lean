/-
Command patterns: the expressions by which a language describes the
arguments of a command of its own.

A pattern is a tree. Its leaves are single characters (out of a set) and
looks, which take nothing and ask what stands on the two sides of a place;
its branches are sequence, ordered choice, numbered group and repetition.
The order matters: of two ways to match, the one that takes the earlier
branch, or the longer repetition when it is greedy, is preferred. How a
text is searched for a match is in `Pattern.Search`.
-/
import LineScript.Text.Blank
import LineScript.Text.Word

set_option autoImplicit false

namespace LineScript

namespace Pattern

-- ================================================ sets of characters

/-- The named classes of characters. -/
inductive CharClass where
  /-- Every character but the line feed. -/
  | any
  | word
  | digit
  | blank
  deriving DecidableEq, Repr

/-- Whether a character is in a class. -/
def CharClass.has : CharClass → Char → Bool
  | .any, c => c != '\n'
  | .word, c => isWordChar c
  | .digit, c => isDecimalDigit c
  | .blank, c => isBlank c

/-- One item of a set. -/
inductive SetItem where
  /-- The characters from `low` to `high`, both included. -/
  | range (low high : Char)
  /-- A named class, or its complement. -/
  | named (cls : CharClass) (complement : Bool)
  deriving DecidableEq, Repr

/-- Whether an item covers a character. -/
def SetItem.has : SetItem → Char → Bool
  | .range low high, c => low ≤ c && c ≤ high
  | .named cls complement, c => cls.has c != complement

/-- A set of characters: what one of its items covers, or the complement
of that. -/
structure CharSet where
  items : List SetItem
  complement : Bool := false
  deriving DecidableEq, Repr

/-- Whether a character is in a set. -/
def CharSet.has (set : CharSet) (c : Char) : Bool :=
  set.items.any (·.has c) != set.complement

/-- The set of one character. -/
def CharSet.single (c : Char) : CharSet := { items := [.range c c] }

/-- The set of a named class. -/
def CharSet.named (cls : CharClass) (complement : Bool) : CharSet :=
  { items := [.named cls complement] }

-- ============================================================= looks

/-- How the word characters on the two sides of a place may lie. -/
inductive WordSide where
  /-- A word begins or ends here. -/
  | edge
  /-- Neither. -/
  | inner
  | start
  | stop
  /-- No word character is before. -/
  | startHalf
  /-- No word character is behind. -/
  | stopHalf
  deriving DecidableEq, Repr

/-- What a place in a text may be asked to be. -/
inductive Look where
  /-- The beginning of the text. -/
  | textStart
  /-- The end of the text. -/
  | textEnd
  /-- The beginning of a line; a line may also end with a carriage return
  and a line feed. -/
  | lineStart (returns : Bool)
  /-- The end of a line. -/
  | lineEnd (returns : Bool)
  /-- A place between words; in ASCII, or in all scripts. -/
  | word (side : WordSide) (ascii : Bool)
  deriving DecidableEq, Repr

/-- Whether a character is an ASCII word character. -/
def isAsciiWordChar (c : Char) : Bool := c.isAlphanum || c == '_'

/-- Whether a place is of a kind, by the word characters beside it. -/
def WordSide.holds (before after : Bool) : WordSide → Bool
  | .edge => before != after
  | .inner => before == after
  | .start => !before && after
  | .stop => before && !after
  | .startHalf => !before
  | .stopHalf => !after

/-- Whether a place is what a look asks, by the characters beside it. -/
def Look.holds (before after : Option Char) : Look → Bool
  | .textStart => before.isNone
  | .textEnd => after.isNone
  | .lineStart false => before.all (· == '\n')
  | .lineStart true =>
    before.all (· == '\n') || (before == some '\r' && after != some '\n')
  | .lineEnd false => after.all (· == '\n')
  | .lineEnd true =>
    after.all (· == '\r') || (after == some '\n' && before != some '\r')
  | .word side ascii =>
    let isWord := if ascii then isAsciiWordChar else isWordChar
    side.holds (before.any isWord) (after.any isWord)

/-- The character before a place in a text, of which `rest` is left
there. -/
def charBefore? (text rest : Text) : Option Char :=
  (text.take (text.length - rest.length)).getLast?

/-- Whether the place in a text at which `rest` is left is what a look
asks. -/
def Look.isAt (look : Look) (text rest : Text) : Bool :=
  look.holds (charBefore? text rest) rest.head?

-- ============================================================= trees

/-- A pattern. -/
inductive Node where
  /-- The empty text. -/
  | empty
  /-- One character of a set. -/
  | one (set : CharSet)
  /-- The empty text, where a look allows it. -/
  | look (look : Look)
  | sequence (first second : Node)
  /-- The first branch, or else the second. -/
  | choice (first second : Node)
  /-- What the body matches, remembered under a number. -/
  | group (index : Nat) (body : Node)
  /-- The body at least `least` times and at most `most` times, as often
  as possible if `greedy`, as seldom as possible if not. -/
  | repetition (body : Node) (least : Nat) (most : Option Nat) (greedy : Bool)
  deriving DecidableEq, Repr

/-- The greatest group number in a pattern, zero if there is none. A body
that occurs zero times at most is no part of the pattern, so its groups
do not count. -/
def Node.groups : Node → Nat
  | .empty | .one _ | .look _ => 0
  | .sequence first second => max first.groups second.groups
  | .choice first second => max first.groups second.groups
  | .group index body => max index body.groups
  | .repetition body _ most _ => if most = some 0 then 0 else body.groups

end Pattern

/-- Why a command pattern is refused. -/
inductive PatternFault where
  /-- The source is no pattern. -/
  | malformed (source : Text)
  /-- The pattern has fewer groups than the command has arguments. -/
  | tooFewGroups (source : Text) (groups arity : Nat)
  deriving DecidableEq

/-- The wording of a fault in a pattern. -/
def PatternFault.message : PatternFault → String
  | .malformed source => s!"invalid command pattern `{String.ofList source}`"
  | .tooFewGroups source groups arity =>
    s!"command pattern `{String.ofList source}` has {groups} capture groups, "
      ++ s!"needs {arity}"

end LineScript
