/-
The plain lexicon: expressions without flags.

| written                 | meaning                                           |
|-------------------------|---------------------------------------------------|
| `.`                     | any character but a line feed                     |
| `\w` `\d` `\s`          | word character, digit, white space (capital: not) |
| `[a-z_]` `[^a-z_]`      | one of these characters, none of these            |
| `^` `$` `\A` `\z`       | beginning and end of the text                     |
| `\b` `\B` `\<` `\>`     | an edge of a word or none; its beginning, its end |
| `(p)` `(?:p)`           | a group that is remembered, one that is not       |
| `p*` `p+` `p?`          | any number, at least one, at most one             |
| `p{m}` `p{m,}` `p{m,n}` | by count; a `?` after any of these six: the least |
| `p|q`                   | the first, or else the second                     |
| `\` and a mark          | that mark                                         |

All other characters stand for themselves. What begins with `(?` but for
the group above, names of classes and characters by number, and sets in
sets are for a library with tables; they are no tokens here.
-/
import LineScript.Pattern.Lexicon
import LineScript.Power

set_option autoImplicit false

namespace LineScript

namespace Pattern

-- ========================================================== escapes

/-- A mark: an ASCII character that is no letter and no digit. The two
angle brackets are kept for other uses. -/
def isMark (c : Char) : Bool :=
  c.toNat < 128 && !c.isAlphanum && c != '<' && c != '>'

/-- The item that an escaped character stands for. -/
def escapedItem? (c : Char) : Option SetItem :=
  match c with
  | 'w' => some (.named .word false)
  | 'W' => some (.named .word true)
  | 'd' => some (.named .digit false)
  | 'D' => some (.named .digit true)
  | 's' => some (.named .blank false)
  | 'S' => some (.named .blank true)
  | 'n' => some (.range '\n' '\n')
  | 'r' => some (.range '\r' '\r')
  | 't' => some (.range '\t' '\t')
  | 'a' => some (.range '\x07' '\x07')
  | 'v' => some (.range '\x0b' '\x0b')
  | 'f' => some (.range '\x0c' '\x0c')
  | _ => if isMark c then some (.range c c) else none

/-- What an escaped letter asks of a place. -/
def escapedLook? : Char → Option Look
  | 'A' => some .textStart
  | 'z' => some .textEnd
  | 'b' => some (.word .edge false)
  | 'B' => some (.word .inner false)
  | '<' => some (.word .start false)
  | '>' => some (.word .stop false)
  | _ => none

/-- The token of an escaped character. A brace behind an edge of a word
would name a kind of edge. -/
def escapedToken? (c : Char) (rest : Text) : Option Token :=
  if c = 'b' ∧ rest.head? = some '{' then none
  else
    match escapedLook? c with
    | some look => some (.look look)
    | none => (escapedItem? c).map fun item => .one { items := [item] }

-- ============================================================= sets

/-- An item at the head of a text, and what follows it. -/
def item? : Text → Option (SetItem × Text)
  | [] => none
  | '\\' :: c :: rest => (escapedItem? c).map (·, rest)
  | ['\\'] => none
  | c :: rest => some (.range c c, rest)

/-- The range between two items, if both are single characters in order. -/
def rangeBetween? : SetItem → SetItem → Option SetItem
  | .range low low', .range high high' =>
    if low = low' ∧ high = high' ∧ low ≤ high then some (.range low high)
    else none
  | _, _ => none

theorem item?_length {text rest : Text} {item : SetItem}
    (h : item? text = some (item, rest)) :
    rest.length < text.length := by
  unfold item? at h
  split at h
  · cases h
  · obtain ⟨_, _, heq⟩ := Option.map_eq_some_iff.1 h
    simp only [Prod.mk.injEq] at heq
    rw [← heq.2]
    simp only [List.length_cons]
    omega
  · cases h
  · simp only [Option.some.injEq, Prod.mk.injEq] at h
    rw [← h.2]
    exact Nat.lt_succ_self _

/-- Whether a text starts with a mark that sets are joined or nested by. -/
def startsSetOperation : Text → Bool
  | '[' :: _ => true
  | '&' :: '&' :: _ => true
  | '-' :: '-' :: _ => true
  | '~' :: '~' :: _ => true
  | _ => false

/-- The items up to the closing bracket, and what follows it. A minus
sign before the bracket or before another minus sign makes no range. -/
def items? (text : Text) : Option (List SetItem × Text) :=
  match text with
  | [] => none
  | ']' :: rest => some ([], rest)
  | c :: tail =>
    if startsSetOperation (c :: tail) then none
    else
      match _hfirst : item? (c :: tail) with
      | none => none
      | some (first, '-' :: rest) =>
        if rest.head? = some ']' ∨ rest.head? = some '-' then
          (items? ('-' :: rest)).map fun (items, after) =>
            (first :: items, after)
        else
          match _hsecond : item? rest with
          | none => none
          | some (second, rest') =>
            match rangeBetween? first second with
            | none => none
            | some range =>
              (items? rest').map fun (items, after) => (range :: items, after)
      | some (first, rest) =>
        (items? rest).map fun (items, after) => (first :: items, after)
termination_by text.length
decreasing_by
  · exact item?_length _hfirst
  · have h1 := item?_length _hfirst
    have h2 := item?_length _hsecond
    simp only [List.length_cons] at h1 ⊢
    omega
  · exact item?_length _hfirst

/-- The minus signs at the head of a text, as items, and what follows. -/
def leadingMinus : Text → List SetItem × Text
  | '-' :: rest =>
    let (items, after) := leadingMinus rest
    (.range '-' '-' :: items, after)
  | text => ([], text)

/-- Whether a set begins with the sign of a complement, and what follows. -/
def complementSign : Text → Bool × Text
  | '^' :: rest => (true, rest)
  | text => (false, text)

/-- The items at the head of a set behind its leading minus signs: if there
are none, a bracket that comes first is an item. -/
def leadingBracket : List SetItem → Text → List SetItem × Text
  | [], ']' :: rest => ([.range ']' ']'], rest)
  | minus, text => (minus, text)

/-- A set whose opening bracket has just been passed. Minus signs at its
head are plain characters, and so is a bracket that comes first. -/
def set? (text : Text) : Option (CharSet × Text) :=
  let (complement, body) := complementSign text
  let (minus, body) := leadingMinus body
  let (first, body) := leadingBracket minus body
  (items? body).map fun (items, rest) => (⟨first ++ items, complement⟩, rest)

-- ====================================================== repetitions

/-- Whether a repetition is greedy, read off what follows it. -/
def greediness : Text → Bool × Text
  | '?' :: rest => (false, rest)
  | text => (true, text)

/-- A count at the head of a text, white space around it, and what
follows. Counts are below two to the thirty-second power. -/
def count? (text : Text) : Option (Nat × Text) :=
  let body := Text.trimStart text
  let digits := body.takeWhile Char.isDigit
  let value := digits.foldl (fun n c => 10 * n + (c.toNat - 48)) 0
  if digits.isEmpty ∨ power 2 32 ≤ value then none
  else some (value, Text.trimStart (body.dropWhile Char.isDigit))

/-- The bounds of a counted repetition whose opening brace has just been
passed. -/
def bounds? (text : Text) : Option ((Nat × Option Nat) × Text) :=
  match count? text with
  | none => none
  | some (least, '}' :: rest) => some ((least, some least), rest)
  | some (least, ',' :: '}' :: rest) => some ((least, none), rest)
  | some (least, ',' :: rest) =>
    match count? rest with
    | some (most, '}' :: after) =>
      if least ≤ most then some ((least, some most), after) else none
    | _ => none
  | some _ => none

-- =========================================================== tokens

/-- The repetition token with its greediness. -/
def repetition (least : Nat) (most : Option Nat) (text : Text) :
    Token × Text :=
  let (greedy, rest) := greediness text
  (.repeated least most greedy, rest)

/-- The token at the head of a text, and what follows it. -/
def token? : Text → Option (Token × Text)
  | [] => none
  | '\\' :: rest =>
    match rest with
    | c :: after => (escapedToken? c after).map (·, after)
    | [] => none
  | '.' :: rest => some (.one (.named .any false), rest)
  | '^' :: rest => some (.look .textStart, rest)
  | '$' :: rest => some (.look .textEnd, rest)
  | '|' :: rest => some (.bar, rest)
  | ')' :: rest => some (.closing, rest)
  | '(' :: '?' :: ':' :: rest => some (.opening .plain, rest)
  | '(' :: '?' :: _ => none
  | '(' :: rest => some (.opening .numbered, rest)
  | '*' :: rest => some (repetition 0 none rest)
  | '+' :: rest => some (repetition 1 none rest)
  | '?' :: rest => some (repetition 0 (some 1) rest)
  | '{' :: rest =>
    (bounds? rest).map fun ((least, most), after) =>
      repetition least most after
  | '[' :: rest => (set? rest).map fun (set, after) => (.one set, after)
  | c :: rest => some (.one (.single c), rest)

/-- The plain lexicon. It has no flags and no limits. -/
instance Lexicon.plain : Lexicon where
  Flags := Unit
  initial := ()
  token? _ text :=
    (Pattern.token? text).map fun (token, rest) => (token, (), rest)
  admits _ := true

end Pattern

end LineScript
