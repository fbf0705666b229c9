/-
The operand forms of an assignment.

| form      | example              | stands for                          |
|-----------|----------------------|-------------------------------------|
| number    | `-12.5`              | the nearest double                  |
| string    | `'hi\x20there'`      | its body, escapes expanded          |
| list      | `[]`, `['a', 'b']`   | its bodies, escapes expanded        |
| reference | `other`              | the value of the variable `other`   |

The forms are told apart by their first character (a digit or a minus
sign, a quote, a bracket, a letter or an underscore), so the order in
which they are tried does not matter. A body is any run of characters
without a quote, line feeds included.
-/
import LineScript.Text.Blank
import LineScript.Text.Escape
import LineScript.Text.Name
import LineScript.Value

set_option autoImplicit false

namespace LineScript

/-- What an assignment's operand stands for. -/
inductive Literal where
  | value (value : Value)
  /-- The value of the named variable. -/
  | reference (name : Text)
  deriving DecidableEq

namespace Literal

-- ========================================================== numbers

/-- Digits of a numeral: at least one, and nothing else. -/
def isDigits (text : Text) : Bool := !text.isEmpty && text.all Char.isDigit

/-- A numeral without sign: digits, then perhaps a point and digits. -/
def magnitude? (neg : Bool) (text : Text) : Option Double :=
  match Text.splitAtFirst? '.' text with
  | none =>
    if isDigits text then some (Double.ofDecimal neg (ofNumeral text) 0)
    else none
  | some (whole, fraction) =>
    if isDigits whole && isDigits fraction then
      some
        (Double.ofDecimal neg (ofNumeral (whole ++ fraction)) fraction.length)
    else none

/-- A numeral: a magnitude with at most one minus sign in front. -/
def number? : Text → Option Double
  | '-' :: rest => magnitude? true rest
  | text => magnitude? false text

-- =================================================== quoted strings

/-- The body of a quoted string and what follows its closing quote. -/
def quoted? : Text → Option (Text × Text)
  | '\'' :: rest => Text.splitAtFirst? '\'' rest
  | _ => none

/-- A string: one quoted body and nothing after it. -/
def string? (text : Text) : Option Text :=
  match quoted? text with
  | some (body, []) => some (Text.expandEscapes body)
  | _ => none

-- ============================================================ lists

theorem splitAtFirst?_length {mark : Char} {text before after : Text}
    (h : Text.splitAtFirst? mark text = some (before, after)) :
    after.length < text.length := by
  induction text generalizing before with
  | nil => simp [Text.splitAtFirst?] at h
  | cons c rest ih =>
    simp only [Text.splitAtFirst?] at h
    split at h
    · simp only [Option.some.injEq, Prod.mk.injEq] at h
      rw [← h.2]
      exact Nat.lt_succ_self _
    · obtain ⟨⟨b, a⟩, hr, heq⟩ := Option.map_eq_some_iff.1 h
      simp only [Prod.mk.injEq] at heq
      exact Nat.lt_succ_of_lt (ih (heq.2 ▸ hr))

theorem quoted?_length {text body rest : Text}
    (h : quoted? text = some (body, rest)) :
    rest.length < text.length := by
  unfold quoted? at h
  split at h
  · exact Nat.lt_succ_of_lt (splitAtFirst?_length h)
  · cases h

theorem trimStart_length (text : Text) :
    (Text.trimStart text).length ≤ text.length :=
  (List.dropWhile_sublist _).length_le

/-- The items of a list from the first one on, up to the bracket that
ends the text: quoted bodies with a comma between two of them. -/
def items? (text : Text) : Option (List Text) :=
  match _hbody : quoted? text with
  | none => none
  | some (body, rest) =>
    match _htail : Text.trimStart rest with
    | [']'] => some [Text.expandEscapes body]
    | ',' :: more =>
      (items? (Text.trimStart more)).map (Text.expandEscapes body :: ·)
    | _ => none
termination_by text.length
decreasing_by
  have h1 := quoted?_length _hbody
  have h2 := trimStart_length rest
  have h3 := trimStart_length more
  rw [_htail, List.length_cons] at h2
  omega

/-- A list: brackets around its items, white space anywhere between the
marks. -/
def list? : Text → Option (List Text)
  | '[' :: rest =>
    match Text.trimStart rest with
    | [']'] => some []
    | inner => items? inner
  | _ => none

-- ========================================================== reading

/-- The operand that a text without white space around it writes down. -/
def read? (text : Text) : Option Literal :=
  match number? text with
  | some x => some (.value (.number x))
  | none =>
    match string? text with
    | some s => some (.value (.string s))
    | none =>
      match list? text with
      | some items => some (.value (.list items))
      | none => if Text.isIdentifier text then some (.reference text) else none

end Literal

end LineScript
