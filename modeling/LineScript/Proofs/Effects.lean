/-
What a command that succeeds has done, whatever its operands are.

Of the 25 commands 18 set one variable, one puts out a line, one writes a
file, and five decide where the run goes on. `result?` is the value that
a command of the first kind sets, as a function of the machine and the
host before it. That function is all there is to such a command
(`outcome_of_target`): it succeeds just when there is a result, has then
put the result into its target, and has otherwise done nothing.

So a target that is also an operand needs no case of its own. The result
is worked out from the old variables, whichever of them are the same, and
a command like `append s, s` or `cut s, i, s` is a single assignment as
well.
-/
import LineScript.Proofs.Files

set_option autoImplicit false

namespace LineScript

variable {η : Type} [Host η]

-- ============================================================= operands

namespace Call

variable (call : Call) (machine : Machine) (position : Nat)

/-- The value of the variable that an argument names. -/
def value? : Option Value := machine.value? (call.argument position)

/-- The number in that variable. -/
def number? : Option Double :=
  (call.value? machine position).bind Value.number?

/-- The string in that variable. -/
def string? : Option Text := (call.value? machine position).bind Value.string?

/-- The elements of the string or list in that variable. -/
def elements? : Option (List Text) :=
  (call.value? machine position).bind Value.elements?

/-- The number in that variable as a 64-bit integer. -/
def integer? : Option Int :=
  (call.number? machine position).bind fun x =>
    x.truncate?.map Double.clampInt64

/-- The numbers in the variables that the first two arguments name. -/
def numbers? : Option (Double × Double) := do
  let left ← call.number? machine 0
  let right ← call.number? machine 1
  return (left, right)

/-- These numbers as 64-bit integers, by their bits. -/
def words? : Option (BitVec 64 × BitVec 64) := do
  let left ← call.integer? machine 0
  let right ← call.integer? machine 1
  return (.ofInt 64 left, .ofInt 64 right)

/-- The value that an argument stands for, as a literal or as the name of
a variable. -/
def literal? : Option Value :=
  match Literal.read? (call.argument position) with
  | some (.value value) => some value
  | some (.reference name) => machine.value? name
  | none => none

end Call

theorem toOption_bind {ε α β : Type} (first : Except ε α)
    (rest : α → Except ε β) :
    (first >>= rest).toOption = first.toOption.bind fun a =>
      (rest a).toOption := by
  cases first with
  | error e => rfl
  | ok a => rfl

theorem toOption_eq_some_iff {ε α : Type} {result : Except ε α} {a : α} :
    result.toOption = some a ↔ result = .ok a := by
  cases result with
  | error e => simp [Except.toOption]
  | ok b => simp [Except.toOption]

namespace Operand

variable (call : Call) (machine : Machine) (position : Nat)

theorem toOption_value :
    (value call machine position).toOption = call.value? machine position := by
  unfold value Call.value?
  cases machine.value? (call.argument position) with
  | none => rfl
  | some found => rfl

theorem toOption_number :
    (number call machine position).toOption
      = call.number? machine position := by
  rw [number, toOption_bind, toOption_value, Call.number?]
  refine congrArg _ (funext fun found => ?_)
  cases found <;> rfl

theorem toOption_string :
    (string call machine position).toOption
      = call.string? machine position := by
  rw [string, toOption_bind, toOption_value, Call.string?]
  refine congrArg _ (funext fun found => ?_)
  cases found <;> rfl

theorem toOption_elements :
    (elements call machine position).toOption
      = call.elements? machine position := by
  rw [elements, toOption_bind, toOption_value, Call.elements?]
  refine congrArg _ (funext fun found => ?_)
  cases found.elements? <;> rfl

theorem toOption_integer :
    (integer call machine position).toOption
      = call.integer? machine position := by
  rw [integer, toOption_bind, toOption_number, Call.integer?]
  refine congrArg _ (funext fun x => ?_)
  cases x.truncate? <;> rfl

end Operand

namespace Instruction

theorem toOption_operandValue (call : Call) (machine : Machine)
    (position : Nat) :
    (operandValue machine (call.argument position)).toOption
      = call.literal? machine position := by
  unfold operandValue Call.literal?
  cases Literal.read? (call.argument position) with
  | none => rfl
  | some found =>
      cases found with
      | value value => rfl
      | reference name =>
          simp only
          cases machine.value? name <;> rfl

-- =============================================================== results

/-- Which argument of a command names the variable that it sets. -/
def targetPosition? : Instruction → Option Nat
  | .assign | .arithmetic _ | .append | .increment | .decrement => some 0
  | .read | .code | .character | .length | .hex => some 1
  | .cut | .bitwise _ => some 2
  | .write | .echo | .jump | .branch _ | .stop => none

/-- The value that a command sets its target to, from the operands and the
files before it; `none` if there is none, and for a command without a
target. -/
def result? (instruction : Instruction) (call : Call) (machine : Machine)
    (host : η) : Option Value :=
  match instruction with
  | .assign => call.literal? machine 1
  | .read => do
    let path ← call.string? machine 0
    if Host.isFile host path then
      (Host.read host path).toOption.map .string
    else none
  | .cut => do
    let elements ← call.elements? machine 0
    let index ← call.integer? machine 1
    if index < 0 then none else elements[index.toNat]?.map .string
  | .code => do
    let text ← call.string? machine 0
    text.head?.map fun c => .number (.ofNat c.toNat)
  | .character => do
    let x ← call.number? machine 0
    x.toByte?.map fun byte => .string [Char.ofNat byte]
  | .arithmetic .add =>
    (call.numbers? machine).map fun (x, y) => .number (x.add y)
  | .arithmetic .subtract =>
    (call.numbers? machine).map fun (x, y) => .number (x.sub y)
  | .arithmetic .multiply =>
    (call.numbers? machine).map fun (x, y) => .number (x.mul y)
  | .arithmetic .divide => (call.numbers? machine).bind fun (x, y) =>
    if y.isZero then none else some (.number (x.div y))
  | .arithmetic .modulo => (call.numbers? machine).bind fun (x, y) =>
    if y.isZero then none else some (.number (x.rem y))
  | .bitwise .xor =>
    (call.words? machine).map fun (a, b) => .number (.ofInt (a ^^^ b).toInt)
  | .bitwise .and =>
    (call.words? machine).map fun (a, b) => .number (.ofInt (a &&& b).toInt)
  | .bitwise .or =>
    (call.words? machine).map fun (a, b) => .number (.ofInt (a ||| b).toInt)
  | .append => do
    match ← call.value? machine 0, ← call.value? machine 1 with
    | .list items, .string text => some (.list (items ++ [text]))
    | .list items, .number x => some (.list (items ++ [x.text]))
    | .number x, .number y => some (.number (x.add y))
    | .string s, .string t => some (.string (s ++ t))
    | _, _ => none
  | .increment => (call.number? machine 0).map fun x => .number (x.add .one)
  | .decrement => (call.number? machine 0).map fun x => .number (x.sub .one)
  | .length => (call.elements? machine 0).map fun elements =>
    .number (.ofNat elements.length)
  | .hex => do
    let x ← call.number? machine 0
    x.toByte?.map fun byte => .string (hexByte byte)
  | .write | .echo | .jump | .branch _ | .stop => none

/-- Two of the operations look at the divisor before anything else; that
makes no difference to whether there is a result. -/
theorem toOption_action_arithmetic (operation : Arithmetic) (call : Call)
    (machine : Machine) (host : η) :
    ((arithmetic operation).action call machine).toOption
      = ((arithmetic operation).result? call machine host).map
        (.assign (call.argument 0)) := by
  cases operation
  all_goals
    simp only [action, result?, Call.numbers?, ← Operand.toOption_number]
    cases Operand.number call machine 1 with
    | error fault => cases Operand.number call machine 0 <;> rfl
    | ok right =>
        cases hzero : right.isZero <;> cases Operand.number call machine 0
        all_goals
          simp [Arithmetic.zeroFault?, Arithmetic.apply, Except.toOption,
            bind, Except.bind, pure, Except.pure, throw, throwThe,
            MonadExceptOf.throw, hzero]

/-- The action of a command with a target is to assign the result, and
there is an action just when there is a result. A command that reads a
file is not among them, since its result needs the host. -/
theorem toOption_action {instruction : Instruction} {position : Nat}
    (htarget : instruction.targetPosition? = some position)
    (hread : instruction ≠ .read) (call : Call) (machine : Machine)
    (host : η) :
    (instruction.action call machine).toOption
      = (instruction.result? call machine host).map
        (.assign (call.argument position)) := by
  cases instruction
  case read => exact absurd rfl hread
  case write | echo | jump | branch | stop => cases htarget
  case arithmetic operation =>
    cases htarget
    exact toOption_action_arithmetic operation call machine host
  all_goals
    cases htarget
    simp only [action, result?, toOption_bind, Operand.toOption_value,
      Operand.toOption_number, Operand.toOption_string,
      Operand.toOption_elements, Operand.toOption_integer,
      toOption_operandValue]
  case assign => cases call.literal? machine 1 <;> rfl
  case cut =>
    cases call.elements? machine 0 with
    | none => cases call.integer? machine 1 <;> rfl
    | some elements =>
        cases call.integer? machine 1 with
        | none => rfl
        | some index =>
            by_cases hnegative : index < 0
            · simp only [Option.bind_some, Option.bind_eq_bind,
                if_pos hnegative]
              rfl
            · simp only [Option.bind_some, Option.bind_eq_bind,
                if_neg hnegative]
              cases elements[index.toNat]? <;> rfl
  case code =>
    cases call.string? machine 0 with
    | none => rfl
    | some text => cases text <;> rfl
  case character =>
    cases call.number? machine 0 with
    | none => rfl
    | some x =>
        simp only [Option.bind_some, Option.bind_eq_bind]
        cases x.toByte? <;> rfl
  case bitwise operation =>
    cases operation
    all_goals
      simp only [Call.words?]
      cases call.integer? machine 0 with
      | none => rfl
      | some left => cases call.integer? machine 1 <;> rfl
  case append =>
    cases call.value? machine 0 with
    | none => cases call.value? machine 1 <;> rfl
    | some target =>
        cases call.value? machine 1 with
        | none => rfl
        | some source => cases target <;> cases source <;> rfl
  case increment => cases call.number? machine 0 <;> rfl
  case decrement => cases call.number? machine 0 <;> rfl
  case length => cases call.elements? machine 0 <;> rfl
  case hex =>
    cases call.number? machine 0 with
    | none => rfl
    | some x =>
        simp only [Option.bind_some, Option.bind_eq_bind]
        cases x.toByte? <;> rfl

/-- Of the outcome of reading a file: the text is the value set. -/
theorem outcome_readFile (path target : Text) (vars : Table Value) (host : η) :
    match (if Host.isFile host path then
        (Host.read host path).toOption.map .string
      else none) with
    | some value =>
      (Action.readFile path target).outcome vars host
        = (Action.assign target value).outcome vars host
    | none =>
      ∃ fault, (Action.readFile path target).outcome vars host
        = .refused vars host fault := by
  simp only [Action.outcome]
  by_cases hfile : Host.isFile host path = true
  · simp only [if_pos hfile]
    cases Host.read host path with
    | ok contents => rfl
    | error fault => exact ⟨_, rfl⟩
  · simp only [if_neg hfile]
    exact ⟨_, rfl⟩

/-- A command with a target succeeds just when there is a result, and
then puts it into the target; otherwise it does nothing. -/
theorem outcome_of_target {instruction : Instruction} {position : Nat}
    (htarget : instruction.targetPosition? = some position) (call : Call)
    (machine : Machine) (host : η) :
    match instruction.result? call machine host with
    | some value =>
      instruction.outcome call machine host
        = (Action.assign (call.argument position) value).outcome
          machine.vars host
    | none =>
      ∃ fault, instruction.outcome call machine host
        = .refused machine.vars host fault := by
  by_cases hread : instruction = .read
  · subst hread
    cases htarget
    have hresult : read.result? call machine host
        = (Operand.string call machine 0).toOption.bind fun path =>
            if Host.isFile host path then
              (Host.read host path).toOption.map .string
            else none := by
      rw [Operand.toOption_string]
      rfl
    rw [hresult, outcome, action]
    cases Operand.string call machine 0 with
    | error fault => exact ⟨fault, rfl⟩
    | ok path =>
        exact outcome_readFile path (call.argument 1) machine.vars host
  · have haction := toOption_action htarget hread call machine host
    unfold outcome
    cases hresult : instruction.result? call machine host with
    | none =>
        rw [hresult] at haction
        cases hfound : instruction.action call machine with
        | error fault => exact ⟨fault, rfl⟩
        | ok found =>
            rw [hfound] at haction
            cases haction
    | some value =>
        rw [hresult, Option.map_some, toOption_eq_some_iff] at haction
        rw [haction]

/-- The outcome of a command that succeeds is that of its action. -/
theorem action_of_outcome {instruction : Instruction} {call : Call}
    {machine : Machine} {host : η} {next : Option Nat}
    (hnext : (instruction.outcome call machine host).next = .ok next) :
    ∃ found, instruction.action call machine = .ok found
      ∧ instruction.outcome call machine host
        = found.outcome machine.vars host := by
  unfold outcome at hnext ⊢
  cases hfound : instruction.action call machine with
  | ok found => exact ⟨found, rfl, rfl⟩
  | error fault =>
      rw [hfound] at hnext
      cases hnext

/-- The command that puts out a line succeeds only with a value to show. -/
theorem outcome_of_echo {call : Call} {machine : Machine} {host : η}
    {next : Option Nat}
    (hnext : (echo.outcome call machine host).next = .ok next) :
    ∃ value, call.value? machine 0 = some value
      ∧ echo.outcome call machine host
        = ⟨machine.vars, some value.display, .ok none, host⟩ := by
  obtain ⟨found, hfound, houtcome⟩ := action_of_outcome hnext
  obtain ⟨value, hvalue, hfound⟩ := bind_eq_ok_iff.1 hfound
  cases hfound
  rw [← toOption_eq_some_iff, Operand.toOption_value] at hvalue
  exact ⟨value, hvalue, houtcome⟩

/-- The command that writes a file succeeds only if the host does. -/
theorem outcome_of_write {call : Call} {machine : Machine} {host : η}
    {next : Option Nat}
    (hnext : (write.outcome call machine host).next = .ok next) :
    ∃ contents path host', call.string? machine 0 = some contents
      ∧ call.string? machine 1 = some path
      ∧ Host.write host path contents = .ok host'
      ∧ write.outcome call machine host
        = ⟨machine.vars, none, .ok none, host'⟩ := by
  obtain ⟨found, hfound, houtcome⟩ := action_of_outcome hnext
  obtain ⟨contents, hcontents, hfound⟩ := bind_eq_ok_iff.1 hfound
  obtain ⟨path, hpath, hfound⟩ := bind_eq_ok_iff.1 hfound
  rw [← toOption_eq_some_iff, Operand.toOption_string] at hcontents hpath
  split at hfound
  next => cases hfound
  next =>
    cases hfound
    rw [houtcome, Action.outcome] at hnext
    rw [houtcome, Action.outcome]
    split at hnext
    next host' hwrite =>
      exact ⟨contents, path, host', hcontents, hpath, hwrite, rfl⟩
    next => cases hnext

/-- A command that decides where the run goes on does nothing else. -/
theorem outcome_of_steers {instruction : Instruction} {call : Call}
    {machine : Machine} {host : η} {next : Option Nat}
    (hsteers : instruction.steers = true)
    (hnext : (instruction.outcome call machine host).next = .ok next) :
    instruction.outcome call machine host
      = ⟨machine.vars, none, .ok next, host⟩ := by
  obtain ⟨found, hfound, houtcome⟩ := action_of_outcome hnext
  have hgoes : ∃ index, found = .goTo index := by
    cases instruction with
    | jump =>
        obtain ⟨index, -, hfound⟩ := bind_eq_ok_iff.1 hfound
        cases hfound
        exact ⟨_, rfl⟩
    | branch comparison =>
        obtain ⟨taken, -, hfound⟩ := bind_eq_ok_iff.1 hfound
        obtain ⟨index, -, hfound⟩ := bind_eq_ok_iff.1 hfound
        cases hfound
        exact ⟨_, rfl⟩
    | stop =>
        cases hfound
        exact ⟨_, rfl⟩
    | _ => cases hsteers
  obtain ⟨index, rfl⟩ := hgoes
  rw [houtcome] at hnext ⊢
  cases hnext
  rfl

-- =============================================================== effects

/-- What a command that succeeds has done: from one state to another, and
from one host to another. -/
structure Effect (instruction : Instruction) (call : Call)
    (before after : State Output) (host host' : η) : Prop where
  /-- The target, if there is one, holds the result. -/
  target : ∀ position, instruction.targetPosition? = some position →
    ∃ value, instruction.result? call before.machine host = some value
      ∧ after.machine.value? (call.argument position) = some value
  /-- Every other variable is as it was. -/
  others : ∀ name, instruction.targetPosition?.map call.argument ≠ some name →
    after.machine.value? name = before.machine.value? name
  labels : after.machine.labels = before.machine.labels
  lineCount : after.machine.lineCount = before.machine.lineCount
  /-- A line is put out by one command only, the value as it is shown. -/
  shown : instruction = .echo →
  ∃ value, call.value? before.machine 0 = some value
    ∧ after.own.lines = before.own.lines ++ [value.display]
  silent : instruction ≠ .echo → after.own = before.own
  /-- A file is written by one command only, with the data it is given. -/
  written : instruction = .write →
  ∃ contents path, call.string? before.machine 0 = some contents
    ∧ call.string? before.machine 1 = some path
    ∧ Host.write host path contents = .ok host'
  untouched : instruction ≠ .write → host' = host

/-- The effect of a command with a target. -/
theorem effect_of_target {instruction : Instruction} {call : Call}
    {state : State Output} {host : η} {position : Nat} {value : Value}
    (pc : Nat) (htarget : instruction.targetPosition? = some position)
    (hresult : instruction.result? call state.machine host = some value) :
    instruction.Effect call state
      (((Action.assign (call.argument position) value).outcome
        state.machine.vars host).after state pc) host host where
  target position' htarget' := by
    rw [htarget, Option.some.injEq] at htarget'
    subst htarget'
    exact ⟨value, hresult, Table.get?_insert_self _ _ _⟩
  others name hname := by
    rw [htarget, Option.map_some, ne_eq, Option.some.injEq] at hname
    exact Table.get?_insert_of_ne _ _ (Ne.symm hname)
  labels := rfl
  lineCount := rfl
  shown h := by
    subst h
    cases htarget
  silent _ := rfl
  written h := by
    subst h
    cases htarget
  untouched _ := rfl

/-- The effect of a command without a target. -/
theorem effect_without_target {instruction : Instruction} {call : Call}
    {state : State Output} {host host' : η} {echoed : Option Text}
    {next : Except CommandFault (Option Nat)} (pc : Nat)
    (htarget : instruction.targetPosition? = none)
    (hshown : instruction = .echo → ∃ value,
      call.value? state.machine 0 = some value ∧ echoed = some value.display)
    (hsilent : instruction ≠ .echo → echoed = none)
    (hwritten : instruction = .write →
      ∃ contents path, call.string? state.machine 0 = some contents
        ∧ call.string? state.machine 1 = some path
        ∧ Host.write host path contents = .ok host')
    (huntouched : instruction ≠ .write → host' = host) :
    instruction.Effect call state
      ((⟨state.machine.vars, echoed, next, host'⟩ : Outcome η).after state pc)
      host host' where
  target position h := by
    rw [htarget] at h
    cases h
  others _ _ := rfl
  labels := rfl
  lineCount := rfl
  shown h := by
    obtain ⟨value, hvalue, rfl⟩ := hshown h
    exact ⟨value, hvalue, Output.lines_emit _ _⟩
  silent h := by
    cases hsilent h
    rfl
  written := hwritten
  untouched := huntouched

/-- An outcome that is no refusal is an effect, wherever the run goes on. -/
theorem effect_of_outcome {instruction : Instruction} {call : Call}
    {state : State Output} {host : η} {next : Option Nat} (pc : Nat)
    (hnext : (instruction.outcome call state.machine host).next = .ok next) :
    instruction.Effect call state
      ((instruction.outcome call state.machine host).after state pc)
      host (instruction.outcome call state.machine host).host := by
  cases htarget : instruction.targetPosition? with
  | some position =>
      have houtcome := outcome_of_target htarget call state.machine host
      cases hresult : instruction.result? call state.machine host with
      | none =>
          rw [hresult] at houtcome
          obtain ⟨fault, houtcome⟩ := houtcome
          rw [houtcome] at hnext
          cases hnext
      | some value =>
          rw [hresult] at houtcome
          simp only at houtcome
          rw [houtcome]
          exact effect_of_target pc htarget hresult
  | none =>
      cases hsteers : instruction.steers with
      | true =>
          rw [outcome_of_steers hsteers hnext]
          refine effect_without_target pc htarget ?_ (fun _ => rfl) ?_
            (fun _ => rfl)
          all_goals
            rintro rfl
            cases hsteers
      | false =>
          -- no target and no line to go to: only two commands are left
          cases instruction with
          | echo =>
              obtain ⟨value, hvalue, houtcome⟩ := outcome_of_echo hnext
              rw [houtcome]
              exact effect_without_target pc htarget
                (fun _ => ⟨value, hvalue, rfl⟩)
                (fun h => absurd rfl h) (fun h => by cases h) (fun _ => rfl)
          | write =>
              obtain ⟨contents, path, host', hcontents, hpath, hwrite,
                houtcome⟩ :=
                outcome_of_write hnext
              rw [houtcome]
              exact effect_without_target pc htarget (fun h => by cases h)
                (fun _ => rfl)
                (fun _ => ⟨contents, path, hcontents, hpath, hwrite⟩)
                (fun h => absurd rfl h)
          | jump => cases hsteers
          | branch comparison => cases hsteers
          | stop => cases hsteers
          | _ => cases htarget

/-- A command that succeeds is one assignment at most, worked out from
the state before it, whichever of its operands are the same variable: the
target holds the result and no other variable, no label and no line count
changes. Only `echo` puts out a line, and only `write` changes the host;
both hosts then hold the data under the path and have all other files as
they were. -/
theorem handler_single_assignment {instruction : Instruction} {call : Call}
    {before after : State Output} {host host' : η} {reply : Reply Output}
    (hreply : (instruction.handler call before.machine before.own).result host
      = (reply, host'))
    (hafter : Engine.settle before reply = .moved after) :
    instruction.Effect call before after host host'
      ∧ Host.Faithful MemoryHost (fun _ path other => path = other)
      ∧ Host.Faithful Tree Tree.SameFile := by
  refine ⟨?_, MemoryHost.faithful, Tree.faithful⟩
  rw [result_handler, Prod.mk.injEq] at hreply
  obtain ⟨rfl, rfl⟩ := hreply
  cases hnext : (instruction.outcome call before.machine host).next with
  | error fault =>
      simp only [Engine.settle, Outcome.reply, hnext] at hafter
      cases hafter
  | ok next =>
      simp only [Engine.settle, Outcome.reply, hnext,
        Progress.moved.injEq] at hafter
      subst hafter
      exact effect_of_outcome _ hnext

/-- For instance, a string appended to itself: the target is its own
operand, and holds the old string twice. -/
theorem handler_single_assignment_of_self :
    ∃ (call : Call) (before after : State Output) (reply : Reply Output),
      call.arguments = ["s".toList, "s".toList]
        ∧ before.machine.value? "s".toList = some (.string "ab".toList)
        ∧ (append.handler call before.machine before.own).result
            (⟨.empty⟩ : MemoryHost) = (reply, ⟨.empty⟩)
        ∧ Engine.settle before reply = .moved after
        ∧ append.Effect call before after (⟨.empty⟩ : MemoryHost) ⟨.empty⟩
        ∧ after.machine.value? "s".toList = some (.string "abab".toList) := by
  let call : Call :=
    ⟨0, "append s, s".toList, "append".toList, ["s".toList, "s".toList]⟩
  let before : State Output :=
    ⟨{ vars := Table.empty.insert "s".toList (.string "ab".toList),
       lineCount := 1 }, .empty⟩
  have hreply : (append.handler call before.machine before.own).result
      (⟨.empty⟩ : MemoryHost) = (_, ⟨.empty⟩) := rfl
  have heffect := (handler_single_assignment hreply rfl).1
  obtain ⟨value, hresult, hvalue⟩ := heffect.target 0 rfl
  cases hresult
  exact ⟨call, before, _, _, rfl, rfl, hreply, rfl, heffect, hvalue⟩

end Instruction

-- ================================================================ steps

namespace Engine

variable {engine : Engine Output} {listing : Listing}

/-- A step passes over a blank line or has the effect of a call. -/
theorem effect_of_advance? (hs : engine.IsScript)
    {here there : State Output × η}
    (h : engine.advance? listing here = some there) :
    there = (here.1.goingTo (here.1.machine.pc + 1), here.2)
      ∨ ∃ instruction call, engine.Calls listing here.1 instruction call
          ∧ instruction.Effect call here.1 there.1 here.2 there.2 := by
  rcases advance?_inv hs h with ⟨line, -, -, rfl⟩
    | ⟨instruction, call, next, hcall, hnext, rfl⟩
  · exact .inl rfl
  · exact .inr
      ⟨instruction, call, hcall, Instruction.effect_of_outcome _ hnext⟩

end Engine

end LineScript
