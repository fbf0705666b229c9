/-
Texts as bytes, in UTF-8.

Decoding never fails as a whole: it yields a character for every
well-formed sequence and `none` for every ill-formed stretch, a stretch
being as long as it could still have become well-formed. Bytes are a text
if no stretch is ill-formed; shown to a reader, each such stretch becomes
one replacement character.
-/
import LineScript.Text.Basic

set_option autoImplicit false

namespace LineScript

namespace Utf8

/-- The bytes of a text. -/
def encode (text : Text) : List UInt8 := text.flatMap String.utf8EncodeChar

/-- How many bytes a text takes. -/
def size (text : Text) : Nat := (encode text).length

/-- A sequence under way: the code so far, how many bytes are missing,
and the range of the next one. -/
structure Pending where
  code : Nat
  missing : Nat
  low : Nat := 0x80
  high : Nat := 0xBF

/-- What a byte means where a sequence may begin: a character, the
beginning of a longer sequence, or nothing. -/
inductive Lead where
  | char (c : Char)
  | opens (pending : Pending)
  | illFormed

/-- The meaning of a byte where a sequence may begin. The second byte is
restricted where the code would otherwise be too small, a surrogate, or
too large. -/
def lead (b : Nat) : Lead :=
  if b < 0x80 then .char (Char.ofNat b)
  else if b < 0xC2 then .illFormed
  else if b < 0xE0 then .opens ⟨b - 0xC0, 1, 0x80, 0xBF⟩
  else if b = 0xE0 then .opens ⟨0, 2, 0xA0, 0xBF⟩
  else if b = 0xED then .opens ⟨0xD, 2, 0x80, 0x9F⟩
  else if b < 0xF0 then .opens ⟨b - 0xE0, 2, 0x80, 0xBF⟩
  else if b = 0xF0 then .opens ⟨0, 3, 0x90, 0xBF⟩
  else if b < 0xF4 then .opens ⟨b - 0xF0, 3, 0x80, 0xBF⟩
  else if b = 0xF4 then .opens ⟨4, 3, 0x80, 0x8F⟩
  else .illFormed

/-- Decoding, with a sequence under way or not. -/
def decodeFrom : Option Pending → List UInt8 → List (Option Char)
  | none, [] => []
  | some _, [] => [none]
  | none, b :: rest =>
    match lead b.toNat with
    | .char c => some c :: decodeFrom none rest
    | .opens pending => decodeFrom (some pending) rest
    | .illFormed => none :: decodeFrom none rest
  | some pending, b :: rest =>
    if pending.low ≤ b.toNat ∧ b.toNat ≤ pending.high then
      let code := pending.code * 64 + (b.toNat - 0x80)
      if pending.missing ≤ 1 then
        some (Char.ofNat code) :: decodeFrom none rest
      else decodeFrom (some ⟨code, pending.missing - 1, 0x80, 0xBF⟩) rest
    else
      match lead b.toNat with
      | .char c => none :: some c :: decodeFrom none rest
      | .opens pending => none :: decodeFrom (some pending) rest
      | .illFormed => none :: none :: decodeFrom none rest

/-- The characters of some bytes, `none` for each ill-formed stretch. -/
def decode (bytes : List UInt8) : List (Option Char) := decodeFrom none bytes

/-- The text that bytes encode, if all of them are well-formed. -/
def text? (bytes : List UInt8) : Option Text := (decode bytes).mapM id

/-- The text of bytes for a reader, with replacement characters. -/
def readable (bytes : List UInt8) : Text :=
  (decode bytes).map (·.getD '\uFFFD')

end Utf8

end LineScript
