/-
The values that variables hold.

There are three kinds: numbers, strings, and lists of strings. That a
variable has no value is not a value; it is the absence of an entry in
the table of variables.
-/
import LineScript.Double.Arithmetic
import LineScript.Double.Decimal

set_option autoImplicit false

namespace LineScript

/-- A value of a script. -/
inductive Value where
  | number (x : Double)
  | string (text : Text)
  | list (items : List Text)
  deriving DecidableEq

namespace Value

instance : Inhabited Value := ⟨.string []⟩

/-- The three kinds of values. -/
inductive Kind where
  | number
  | string
  | list
  deriving DecidableEq, Repr

/-- A kind's name, as messages show it. -/
def Kind.name : Kind → String
  | .number => "number"
  | .string => "string"
  | .list => "list"

/-- The kind of a value. -/
def kind : Value → Kind
  | .number _ => .number
  | .string _ => .string
  | .list _ => .list

/-- The number, if the value is one. -/
def number? : Value → Option Double
  | .number x => some x
  | _ => none

/-- The text, if the value is a string. -/
def string? : Value → Option Text
  | .string text => some text
  | _ => none

/-- The items, if the value is a list. -/
def list? : Value → Option (List Text)
  | .list items => some items
  | _ => none

/-- The value's elements: the characters of a string, each as a text, or
the items of a list. A number has none. -/
def elements? : Value → Option (List Text)
  | .number _ => none
  | .string text => some (text.map ([·]))
  | .list items => some items

/-- How many elements a string or a list has. -/
def length? (value : Value) : Option Nat := value.elements?.map List.length

/-- Quoted items, separated by commas. -/
def displayItems : List Text → Text
  | [] => []
  | [item] => '\'' :: item ++ ['\'']
  | item :: next :: rest =>
    '\'' :: item ++ '\'' :: ',' :: displayItems (next :: rest)

/-- A value as `echo` shows it: a number in its shortest decimal form, a
string as it is, a list as its quoted items in brackets. Quotes inside an
item are not marked. -/
def display : Value → Text
  | .number x => x.text
  | .string text => text
  | .list items => '[' :: displayItems items ++ [']']

/-- Equality as scripts see it: numbers compare as numbers, so a NaN
differs from itself and the two zeros are equal. -/
def same : Value → Value → Bool
  | .number x, .number y => x.same y
  | .string s, .string t => s = t
  | .list s, .list t => s = t
  | _, _ => false

end Value

end LineScript
