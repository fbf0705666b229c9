/-
What a command amounts to: an action, worked out from the machine as it
is before the command.

Working out can fail and changes nothing. All checks but those that need
a file are made here, operand by operand in the order that decides which
of two faults is reported. The action is carried out afterwards, in
`Instruction.Perform`.
-/
import LineScript.Instruction.Basic

set_option autoImplicit false

namespace LineScript

/-- What is left to do once a command's operands are checked. -/
inductive Action where
  /-- Set one variable and go on with the next line. -/
  | assign (name : Text) (value : Value)
  /-- Put out a line and go on with the next line. -/
  | emit (line : Text)
  /-- Go on with the line of an index. -/
  | goTo (index : Nat)
  /-- Set a variable to the contents of a file and go on. -/
  | readFile (path target : Text)
  /-- Replace the contents of a file and go on. -/
  | writeFile (path contents : Text)
  deriving DecidableEq

-- ========================================================= operations

/-- The result of arithmetic; the divisor is not zero. -/
def Arithmetic.apply : Arithmetic → Double → Double → Double
  | .add => Double.add
  | .subtract => Double.sub
  | .multiply => Double.mul
  | .divide => Double.div
  | .modulo => Double.rem

/-- The fault of arithmetic with zero on the right, if that is one. -/
def Arithmetic.zeroFault? : Arithmetic → Option CommandFault
  | .divide => some .divisionByZero
  | .modulo => some .moduloByZero
  | _ => none

/-- The result of a bitwise operation on 64-bit signed integers. -/
def Bitwise.apply (operation : Bitwise) (a b : Int) : Int :=
  let x := BitVec.ofInt 64 a
  let y := BitVec.ofInt 64 b
  match operation with
  | .xor => (x ^^^ y).toInt
  | .and => (x &&& y).toInt
  | .or => (x ||| y).toInt

-- =========================================================== operands

namespace Operand

/-- The value of the variable that an argument names. -/
def value (call : Call) (machine : Machine) (position : Nat) :
    Except CommandFault Value :=
  match machine.value? (call.argument position) with
  | some value => .ok value
  | none => .error (.undefinedVariable (call.argument position))

/-- The fault of an operand of the wrong kind. -/
def wrongKind (call : Call) (position : Nat) (found : Value)
    (expected : Expectation) : CommandFault :=
  .wrongKind (call.argument position) found.kind expected

/-- The number in the variable that an argument names. -/
def number (call : Call) (machine : Machine) (position : Nat) :
    Except CommandFault Double := do
  match ← value call machine position with
  | .number x => return x
  | other => throw (wrongKind call position other .number)

/-- The string in the variable that an argument names. -/
def string (call : Call) (machine : Machine) (position : Nat) :
    Except CommandFault Text := do
  match ← value call machine position with
  | .string text => return text
  | other => throw (wrongKind call position other .string)

/-- The elements of the string or list in the variable that an argument
names. -/
def elements (call : Call) (machine : Machine) (position : Nat) :
    Except CommandFault (List Text) := do
  let found ← value call machine position
  match found.elements? with
  | some elements => return elements
  | none => throw (wrongKind call position found .stringOrList)

/-- The number in a variable as a 64-bit signed integer: its fraction is
dropped, and what is out of range becomes the nearest bound. -/
def integer (call : Call) (machine : Machine) (position : Nat) :
    Except CommandFault Int := do
  let x ← number call machine position
  match x.truncate? with
  | some n => return Double.clampInt64 n
  | none => throw (.notFinite (call.argument position))

/-- The index of the line with the label that an argument names. -/
def label (call : Call) (machine : Machine) (position : Nat) :
    Except CommandFault Nat :=
  match machine.label? (call.argument position) with
  | some index => .ok index
  | none => .error (.undefinedLabel (call.argument position))

end Operand

-- ============================================================ commands

namespace Instruction

/-- The value that an operand of an assignment stands for. -/
def operandValue (machine : Machine) (text : Text) :
    Except CommandFault Value :=
  match Literal.read? text with
  | some (.value value) => .ok value
  | some (.reference name) =>
    match machine.value? name with
    | some value => .ok value
    | none => .error (.undefinedVariable name)
  | none => .error (.notOperand text)

/-- A target with a source appended: a string or a number's text to a
list, a number to a number, a string to a string. -/
def appended? : Value → Value → Option Value
  | .list items, .string text => some (.list (items ++ [text]))
  | .list items, .number x => some (.list (items ++ [x.text]))
  | .number x, .number y => some (.number (x.add y))
  | .string s, .string t => some (.string (s ++ t))
  | _, _ => none

/-- Whether a branch is taken. Order is a matter of numbers; equality, of
values of one kind. -/
def holds (comparison : Comparison) (call : Call) (machine : Machine) :
    Except CommandFault Bool := do
  match comparison with
  | .greater =>
    let left ← Operand.number call machine 0
    let right ← Operand.number call machine 1
    return right.lt left
  | .less =>
    let left ← Operand.number call machine 0
    let right ← Operand.number call machine 1
    return left.lt right
  | .equal =>
    let left ← Operand.value call machine 0
    let right ← Operand.value call machine 1
    if left.kind = right.kind then return left.same right
    else throw (.notComparable left.kind right.kind)

/-- The action of a call. -/
def action (instruction : Instruction) (call : Call) (machine : Machine) :
    Except CommandFault Action := do
  match instruction with
  | .assign =>
    let value ← operandValue machine (call.argument 1)
    return .assign (call.argument 0) value
  | .read =>
    let path ← Operand.string call machine 0
    return .readFile path (call.argument 1)
  | .write =>
    let contents ← Operand.string call machine 0
    let path ← Operand.string call machine 1
    if path.isEmpty then throw (.emptyFileName (call.argument 1))
    else return .writeFile path contents
  | .cut =>
    let index ← Operand.integer call machine 1
    let elements ← Operand.elements call machine 0
    match (if index < 0 then none else elements[index.toNat]?) with
    | some element => return .assign (call.argument 2) (.string element)
    | none => throw (.outOfRange index (call.argument 0) elements.length)
  | .code =>
    match ← Operand.string call machine 0 with
    | c :: _ => return .assign (call.argument 1) (.number (.ofNat c.toNat))
    | [] => throw (.emptyString (call.argument 0))
  | .character =>
    let x ← Operand.number call machine 0
    match x.toByte? with
    | some byte => return .assign (call.argument 1) (.string [Char.ofNat byte])
    | none => throw (.noCharacter x)
  | .jump =>
    let index ← Operand.label call machine 0
    return .goTo index
  | .branch comparison =>
    let taken ← holds comparison call machine
    let index ← Operand.label call machine 2
    return .goTo (if taken then index else call.next)
  | .arithmetic operation =>
    if let some fault := operation.zeroFault? then
      let divisor ← Operand.number call machine 1
      if divisor.isZero then throw fault
    let left ← Operand.number call machine 0
    let right ← Operand.number call machine 1
    return .assign (call.argument 0) (.number (operation.apply left right))
  | .bitwise operation =>
    let left ← Operand.integer call machine 0
    let right ← Operand.integer call machine 1
    return .assign (call.argument 2)
      (.number (.ofInt (operation.apply left right)))
  | .append =>
    let source ← Operand.value call machine 1
    let target ← Operand.value call machine 0
    match appended? target source with
    | some value => return .assign (call.argument 0) value
    | none => throw (.notAppendable source.kind target.kind)
  | .increment =>
    let x ← Operand.number call machine 0
    return .assign (call.argument 0) (.number (x.add .one))
  | .decrement =>
    let x ← Operand.number call machine 0
    return .assign (call.argument 0) (.number (x.sub .one))
  | .length =>
    let elements ← Operand.elements call machine 0
    return .assign (call.argument 1) (.number (.ofNat elements.length))
  | .hex =>
    let x ← Operand.number call machine 0
    match x.toByte? with
    | some byte => return .assign (call.argument 1) (.string (hexByte byte))
    | none => throw (.noByte x)
  | .echo =>
    let value ← Operand.value call machine 0
    return .emit value.display
  | .stop => return .goTo machine.lineCount

end Instruction

end LineScript
