/-
Searching a text for a pattern.

The machine keeps a list of threads. A thread is a place in the code and
a place in the text, with the groups found on the way. The first thread
goes on; where it may go two ways, the preferred one comes first and the
other waits behind it; where it cannot go on, it is dropped. The first
thread to leave the code is the match. So the match starts as early as
possible, and of all matches that start there it is the preferred one.

No pair of places is visited twice. A second visit could not succeed
where the first one fails, and a thread that comes back to where it was
without taking a character would do so for ever. Hence the search takes
no more steps than there are pairs, twice, and threads to start with.
-/
import LineScript.Pattern.Code
import LineScript.Power

set_option autoImplicit false

namespace LineScript

namespace Pattern

/-- A match under way: an address, what is left of the text, where groups
began (as what was left there), and the groups that ended, the latest
first. -/
structure Thread where
  address : Nat
  rest : Text
  begun : List (Nat × Text) := []
  groups : List (Nat × Text) := []

/-- A thread at another address. -/
def Thread.goTo (thread : Thread) (address : Nat) : Thread :=
  { thread with address }

/-- The text of a group that ends at a thread's place. -/
def Thread.groupText (thread : Thread) (index : Nat) : Text :=
  match thread.begun.lookup index with
  | some start => start.take (start.length - thread.rest.length)
  | none => []

/-- The ways on from an instruction in a text, in order of preference. -/
def Thread.ways (thread : Thread) (text : Text) : Instr → List Thread
  | .one set next =>
    match thread.rest with
    | c :: rest =>
      if set.has c then [{ thread with address := next, rest }] else []
    | [] => []
  | .look look next =>
    if look.isAt text thread.rest then [thread.goTo next] else []
  | .goOn next => [thread.goTo next]
  | .split first second => [thread.goTo first, thread.goTo second]
  | .openGroup index next =>
    [{ thread with
      address := next, begun := (index, thread.rest) :: thread.begun }]
  | .closeGroup index next =>
    [{ thread with
      address := next,
      groups := (index, thread.groupText index) :: thread.groups }]

/-- The number of a thread's pair of places in a text. -/
def Thread.key (thread : Thread) (text : Text) : Nat :=
  thread.address * (text.length + 1) + thread.rest.length

/-- The first thread to leave the code, within `fuel` steps. The pairs
visited are the bits of a number. -/
def searchFrom (code : Array Instr) (text : Text) :
    (fuel visited : Nat) → List Thread → Option Thread
  | 0, _, _ => none
  | _, _, [] => none
  | fuel + 1, visited, thread :: others =>
    match code[thread.address]? with
    | none => some thread
    | some instr =>
      let key := thread.key text
      if visited.testBit key then searchFrom code text fuel visited others
      else
        searchFrom code text fuel (visited ||| power 2 key)
          (thread.ways text instr ++ others)

/-- A thread at every place of a text, the earliest first. -/
def starts : Text → List Thread
  | [] => [{ address := 0, rest := [] }]
  | c :: rest => { address := 0, rest := c :: rest } :: starts rest

/-- The match of a pattern in a text. -/
def Node.search (node : Node) (text : Text) : Option Thread :=
  let code := (node.code 0 node.size).toArray
  let pairs := code.size * (text.length + 1)
  searchFrom code text (2 * pairs + text.length + 2) 0 (starts text)

/-- What a group matched; the empty text if it took no part. -/
def Thread.group (thread : Thread) (index : Nat) : Text :=
  (thread.groups.lookup index).getD []

end Pattern

end LineScript
