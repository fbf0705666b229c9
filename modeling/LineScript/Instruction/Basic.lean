/-
The instruction set: the commands of the script language, their keywords
and their signatures.

| keyword           | arguments             | effect                          |
|-------------------|-----------------------|---------------------------------|
| `set`             | target, operand       | assign a literal or a copy      |
| `read`            | file, target          | the contents of a file          |
| `write`           | data, file            | replace the contents of a file  |
| `cut`             | source, index, target | the element at an index         |
| `asc`             | source, target        | the code of the first character |
| `char`            | code, target          | the character of a code < 256   |
| `goto`            | label                 | jump                            |
| `gotog` `gotol`   | left, right, label    | jump if greater, if less        |
| `gotoe`           | left, right, label    | jump if equal                   |
| `add` `sub` `mul` | left, right           | arithmetic, result in `left`    |
| `div` `mod`       | left, right           | the same                        |
| `xor` `and` `or`  | left, right, target   | bitwise, on integers            |
| `append`          | target, source        | push, add or concatenate        |
| `inc` `dec`       | target                | one more, one less              |
| `len`             | source, target        | the number of elements          |
| `hex`             | number, target        | two hexadecimal digits          |
| `echo`            | source                | put out a line                  |
| `end`             |                       | end the run                     |
-/
import LineScript.Literal
import LineScript.Machine

set_option autoImplicit false

namespace LineScript

/-- The arithmetic of two numbers. -/
inductive Arithmetic where
  | add
  | subtract
  | multiply
  | divide
  | modulo
  deriving DecidableEq, Repr

/-- The bitwise operations on two integers. -/
inductive Bitwise where
  | xor
  | and
  | or
  deriving DecidableEq, Repr

/-- The comparisons that a branch may ask for. -/
inductive Comparison where
  | greater
  | less
  | equal
  deriving DecidableEq, Repr

/-- The commands of the script language. -/
inductive Instruction where
  | assign
  | read
  | write
  | cut
  | code
  | character
  | jump
  | branch (comparison : Comparison)
  | arithmetic (operation : Arithmetic)
  | bitwise (operation : Bitwise)
  | append
  | increment
  | decrement
  | length
  | hex
  | echo
  | stop
  deriving DecidableEq, Repr

namespace Instruction

/-- The keyword of a command. -/
def keyword : Instruction → String
  | .assign => "set"
  | .read => "read"
  | .write => "write"
  | .cut => "cut"
  | .code => "asc"
  | .character => "char"
  | .jump => "goto"
  | .branch .greater => "gotog"
  | .branch .less => "gotol"
  | .branch .equal => "gotoe"
  | .arithmetic .add => "add"
  | .arithmetic .subtract => "sub"
  | .arithmetic .multiply => "mul"
  | .arithmetic .divide => "div"
  | .arithmetic .modulo => "mod"
  | .bitwise .xor => "xor"
  | .bitwise .and => "and"
  | .bitwise .or => "or"
  | .append => "append"
  | .increment => "inc"
  | .decrement => "dec"
  | .length => "len"
  | .hex => "hex"
  | .echo => "echo"
  | .stop => "end"

/-- The form of a command's arguments. -/
def signature : Instruction → Signature
  | .assign => .assignment
  | .jump => .jump
  | .branch _ => .branch
  | .cut | .bitwise _ => .names 3
  | .read | .write | .code | .character | .arithmetic _ | .append | .length
  | .hex => .names 2
  | .increment | .decrement | .echo => .names 1
  | .stop => .names 0

/-- All commands. -/
def all : List Instruction :=
  [.assign, .read, .write, .cut, .code, .character, .jump,
   .branch .greater, .branch .less, .branch .equal,
   .arithmetic .add, .arithmetic .subtract, .arithmetic .multiply,
   .arithmetic .divide, .arithmetic .modulo,
   .bitwise .xor, .bitwise .and, .bitwise .or,
   .append, .increment, .decrement, .length, .hex, .echo, .stop]

/-- Every command is listed. -/
theorem mem_all (instruction : Instruction) : instruction ∈ all := by
  cases instruction with
  | branch comparison => cases comparison <;> decide
  | arithmetic operation => cases operation <;> decide
  | bitwise operation => cases operation <;> decide
  | _ => decide

end Instruction

end LineScript
