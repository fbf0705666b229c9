/-
Plain text: what is left of a text when control is taken out of it.

Control is of two kinds. Single control characters are taken out, except
for the four that lay a text out: tab, line feed, form feed and carriage
return. And an escape begins a sequence, all of which is taken out; how
far it reaches depends on what follows the escape:

- `[`: parameters, then a final character from `@` to `~`;
- `]`: a command, up to a bell;
- `P`: a header, then a string of any length;
- `X`, `^`, `_`: a string;
- anything else: intermediates, then a final character from `0` to `~`.

A string ends at the byte 9C, wherever in a character it stands. Another
escape begins a new sequence, and a cancel or a substitute ends any. A
character that means nothing where it stands is taken out and changes
nothing.

A layout character is kept where no command, header or string surrounds
it, and suspends the sequence there: what follows is kept as if no
sequence were under way, until the next control resumes it. A character
beyond ASCII that is kept ends the suspended sequence.

What reaches the end of a text unfinished is taken out with the rest, so
that a text may lose its last line feed.
-/
import LineScript.Text.Utf8

set_option autoImplicit false

namespace LineScript

/-- How far into a control sequence a text is. -/
inductive ControlPart where
  /-- Not in a sequence. -/
  | outside
  /-- Right after an escape. -/
  | escape
  /-- After an escape and intermediates. -/
  | intermediates
  /-- In the parameters that `[` begins. -/
  | parameters
  /-- In the command that `]` begins. -/
  | command
  /-- At the start of the header that `P` begins. -/
  | header
  /-- In the parameters of a header. -/
  | headerParameters
  /-- In the intermediates of a header. -/
  | headerIntermediates
  /-- In a string. -/
  | string
  deriving DecidableEq, Repr

/-- Whether a control character lays a text out. -/
def isLayout (c : Char) : Bool :=
  c = '\t' || c = '\n' || c = '\x0c' || c = '\r'

namespace ControlPart

/-- Whether a character that follows such a part is kept. -/
def keeps (part : ControlPart) (c : Char) : Bool :=
  match part with
  | outside => isLayout c || (' ' ≤ c && c ≠ '\x7f')
  | escape | intermediates | parameters => isLayout c
  | command | header | headerParameters | headerIntermediates | string => false

/-- Whether a character is one from `low` to `high`. -/
def within (low high c : Char) : Bool := low ≤ c && c ≤ high

/-- The part after a character, if that neither restarts nor cancels the
sequence. -/
def advance (part : ControlPart) (c : Char) : ControlPart :=
  match part with
  | outside => outside
  | escape =>
    if within ' ' '/' c then intermediates
    else if c = '[' then parameters
    else if c = ']' then command
    else if c = 'P' then header
    else if c = 'X' ∨ c = '^' ∨ c = '_' then string
    else if within '0' '~' c then outside
    else escape
  | intermediates => if within '0' '~' c then outside else intermediates
  | parameters => if within '@' '~' c then outside else parameters
  | command => if c = '\x07' then outside else command
  | header =>
    if within ' ' '/' c then headerIntermediates
    else if within '0' '?' c then headerParameters
    else if within '@' '~' c then string
    else header
  | headerParameters =>
    if within ' ' '/' c then headerIntermediates
    else if within '<' '~' c then string
    else headerParameters
  | headerIntermediates =>
    if within '0' '~' c then string else headerIntermediates
  | string => if 0x9C ∈ Utf8.encode [c] then outside else string

/-- The part that a kept character leaves behind. -/
def afterKept (part : ControlPart) (c : Char) : ControlPart :=
  if c.toNat < 0x80 then part else outside

/-- The part after a character that is not kept. -/
def next (part : ControlPart) (c : Char) : ControlPart :=
  if c = '\x1b' then escape
  else if c = '\x18' ∨ c = '\x1a' then outside
  else part.advance c

end ControlPart

namespace Text

/-- What is plain in a text that follows some part of a sequence, which
is suspended or not. -/
def plainFrom : ControlPart → (suspended : Bool) → Text → Text
  | _, _, [] => []
  | part, suspended, c :: rest =>
    if (if suspended then ControlPart.outside else part).keeps c then
      c :: plainFrom (part.afterKept c) true rest
    else
      plainFrom (part.next c) false rest

/-- A text without control. -/
def plain (text : Text) : Text := plainFrom .outside false text

-- ====================================================== small lemmas

/-- What is kept inside a sequence is kept outside of one. -/
theorem keeps_outside_of_keeps {part : ControlPart} {c : Char}
    (h : part.keeps c = true) :
    ControlPart.outside.keeps c = true := by
  cases part <;> simp_all [ControlPart.keeps]

/-- Plain text holds no control. -/
theorem keeps_of_mem_plainFrom {part : ControlPart} {suspended : Bool}
    {text : Text} {c : Char} (h : c ∈ plainFrom part suspended text) :
    ControlPart.outside.keeps c = true := by
  induction text generalizing part suspended with
  | nil => simp [plainFrom] at h
  | cons d rest ih =>
    by_cases hd :
        (if suspended then ControlPart.outside else part).keeps d = true
    · rw [plainFrom, if_pos hd] at h
      rcases List.mem_cons.1 h with rfl | h
      · exact keeps_outside_of_keeps hd
      · exact ih h
    · rw [plainFrom, if_neg hd] at h
      exact ih h

/-- Outside of a sequence, a text that holds no control is plain already. -/
theorem plainFrom_outside_eq_self {text : Text}
    (h : ∀ c ∈ text, ControlPart.outside.keeps c = true) (suspended : Bool) :
    plainFrom .outside suspended text = text := by
  induction text generalizing suspended with
  | nil => rfl
  | cons c rest ih =>
    have hc : ControlPart.outside.afterKept c = .outside := by
      simp [ControlPart.afterKept]
    simp only [plainFrom, ite_self, h c List.mem_cons_self, if_true, hc]
    rw [ih fun d hd => h d (List.mem_cons_of_mem c hd)]

/-- A text that holds no control is plain already. -/
theorem plain_eq_self {text : Text}
    (h : ∀ c ∈ text, ControlPart.outside.keeps c = true) : plain text = text :=
  plainFrom_outside_eq_self h false

/-- Taking control out a second time changes nothing. -/
@[simp] theorem plain_plain (text : Text) : plain (plain text) = plain text :=
  plain_eq_self fun _ h => keeps_of_mem_plainFrom h

end Text

end LineScript
