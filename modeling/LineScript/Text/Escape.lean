/-
Hexadecimal escapes in string literals.

`\xHH`, with two hexadecimal digits of either case, stands for the
character with that code. Expansion is a single pass from the left: what
an escape produces is never looked at again, and a backslash that starts
no escape stands for itself.
-/
import LineScript.Text.Basic

set_option autoImplicit false

namespace LineScript

/-- The value of a hexadecimal digit, of either case. -/
def hexDigit? (c : Char) : Option Nat :=
  if '0' ≤ c ∧ c ≤ '9' then some (c.toNat - 48)
  else if 'a' ≤ c ∧ c ≤ 'f' then some (c.toNat - 87)
  else if 'A' ≤ c ∧ c ≤ 'F' then some (c.toNat - 55)
  else none

/-- The hexadecimal digit of a number below sixteen, in lower case. -/
def hexDigitChar (d : Nat) : Char :=
  Char.ofNat (if d < 10 then 48 + d else 87 + d)

/-- A number below 256 as two hexadecimal digits. -/
def hexByte (n : Nat) : Text := [hexDigitChar (n / 16), hexDigitChar (n % 16)]

namespace Text

/-- The character of the escape whose backslash has just been passed. -/
def escaped? : Text → Option Char
  | 'x' :: high :: low :: _ => do
    let h ← hexDigit? high
    let l ← hexDigit? low
    return Char.ofNat (16 * h + l)
  | _ => none

/-- Expansion, the first `skip` characters being the rest of an escape
already expanded. -/
def expandFrom : (skip : Nat) → Text → Text
  | _, [] => []
  | skip + 1, _ :: rest => expandFrom skip rest
  | 0, c :: rest =>
    match (if c = '\\' then escaped? rest else none) with
    | some d => d :: expandFrom 3 rest
    | none => c :: expandFrom 0 rest

/-- A text with every hexadecimal escape replaced by its character. -/
def expandEscapes (text : Text) : Text := expandFrom 0 text

end Text

end LineScript
