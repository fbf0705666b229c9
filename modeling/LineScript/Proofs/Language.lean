/-
What a step of the script language can do.

# Outcomes

Carrying out a command is described once, by its outcome: the variables
and the host afterwards, the line put out if there is one, and where the
run goes on. The outcome is free of the numbers that differ from run to
run (the place of the line, the lines put out before), and the handler's
answer is the outcome written out for a call (`result_handler`). So a
fact about outcomes is a fact about all 25 commands, and two runs that
differ in such numbers are compared through their outcomes alone.

Two properties of outcomes carry the rest:

- a refused command has changed nothing (`outcome_of_error`), at
  whichever of its checks it was refused;
- a line is gone to by its index only if the command ends the run or
  names a label (`action_goTo`).

# Steps

`advance?_inv` and `stops_inv` are the inversion of a step: the first
says everything a step that goes on can have done, the second everything
a stop can be. Facts about runs of the script language are derived from
these two and never unfold a step again.
-/
import LineScript.Interpreter
import LineScript.Proofs.Execution

set_option autoImplicit false

namespace LineScript

variable {η : Type} [Host η]

-- ============================================== engines of the language

/-- An engine for the script language, under any settings. -/
structure Engine.IsScript (engine : Engine Output) : Prop where
  hook : engine.hook = cutComment
  commands : engine.commands = scriptLanguage.bound

/-- An engine that is built for the script language is one for it, under
the settings that it is built with. -/
theorem isScript_of_engine {settings : Settings} {engine : Engine Output}
    (h : scriptLanguage.engine settings = .ok engine) :
    engine.IsScript ∧ engine.settings = settings := by
  unfold Dialect.engine at h
  split at h
  next => cases h
  next =>
    cases h
    exact ⟨⟨rfl, rfl⟩, rfl⟩

namespace Instruction

/-- A command of the language as an engine holds it. -/
def command (instruction : Instruction) : Command Output :=
  ⟨instruction.signature, instruction.handler⟩

/-- No two commands share a keyword. -/
theorem keyword_injective {a b : Instruction} (h : a.keyword = b.keyword) :
    a = b :=
  List.inj_on_of_nodup_map (f := keyword) (l := all) (by decide) (mem_all a)
    (mem_all b) h

end Instruction

/-- What an engine of the language finds under a keyword is the command
of that keyword. -/
theorem Engine.IsScript.exists_instruction {engine : Engine Output}
    (hs : engine.IsScript) {keyword : Text} {command : Command Output}
    (h : engine.commands.get? keyword = some command) :
    ∃ instruction : Instruction,
      instruction.keyword.toList = keyword
        ∧ instruction.command = command := by
  rw [hs.commands, Dialect.bound, Table.get?_filterMap,
    Option.bind_eq_some_iff] at h
  obtain ⟨signature, hsignature, h⟩ := h
  obtain ⟨handler, hhandler, rfl⟩ := Option.map_eq_some_iff.1 h
  obtain ⟨a, -, ha⟩ := List.mem_map.1 (Table.mem_of_get?_ofList hsignature)
  obtain ⟨b, -, hb⟩ := List.mem_map.1 (Table.mem_of_get?_ofList hhandler)
  cases ha
  simp only [Prod.mk.injEq] at hb
  obtain ⟨hkeyword, rfl⟩ := hb
  have hab : b = a :=
    Instruction.keyword_injective (String.toList_injective hkeyword)
  subst hab
  exact ⟨b, rfl, rfl⟩

-- ============================================================= outcomes

/-- Of two computations in sequence both succeed. -/
theorem bind_eq_ok_iff {ε α β : Type} {first : Except ε α}
    {rest : α → Except ε β} {b : β} :
    (first >>= rest) = .ok b ↔ ∃ a, first = .ok a ∧ rest a = .ok b := by
  constructor
  · intro h
    cases first with
    | error e => cases h
    | ok a => exact ⟨a, rfl, h⟩
  · rintro ⟨a, rfl, h⟩
    exact h

theorem map_eq_ok_iff {ε α β : Type} {f : α → β} {result : Except ε α}
    {b : β} :
    result.map f = .ok b ↔ ∃ a, result = .ok a ∧ f a = b := by
  cases result with
  | error e =>
      constructor
      · intro h
        cases h
      · rintro ⟨a, h, -⟩
        cases h
  | ok a =>
      constructor
      · intro h
        cases h
        exact ⟨a, rfl, rfl⟩
      · rintro ⟨a, h, rfl⟩
        cases h
        rfl

theorem map_eq_error_iff {ε α β : Type} {f : α → β} {result : Except ε α}
    {e : ε} :
    result.map f = .error e ↔ result = .error e := by
  cases result with
  | error e' =>
      constructor
      · intro h
        cases h
        rfl
      · intro h
        cases h
        rfl
  | ok a =>
      constructor
      · intro h
        cases h
      · intro h
        cases h

/-- The output with perhaps one more line. -/
def Output.emit? (output : Output) : Option Text → Output
  | none => output
  | some line => output.emit line

/-- What carrying out a command comes to. -/
structure Outcome (η : Type) where
  /-- The variables afterwards. -/
  vars : Table Value
  /-- The line put out, if there is one. -/
  echoed : Option Text
  /-- The index of the line to go to, `none` for the following one, or
  why the command is refused. -/
  next : Except CommandFault (Option Nat)
  /-- The host afterwards. -/
  host : η

namespace Outcome

/-- A command that is refused, with all as it was. -/
def refused (vars : Table Value) (host : η) (fault : CommandFault) :
    Outcome η :=
  ⟨vars, none, .error fault, host⟩

/-- An outcome as the answer to a call. -/
def reply (outcome : Outcome η) (call : Call) (output : Output) :
    Reply Output where
  vars := outcome.vars
  own := output.emit? outcome.echoed
  next :=
    match outcome.next with
    | .ok index => .ok (index.getD call.next)
    | .error fault => .error (call.failure fault)

end Outcome

/-- The outcome of an action, from the variables and the host before. -/
def Action.outcome (action : Action) (vars : Table Value) (host : η) :
    Outcome η :=
  match action with
  | .assign name value => ⟨vars.insert name value, none, .ok none, host⟩
  | .emit line => ⟨vars, some line, .ok none, host⟩
  | .goTo index => ⟨vars, none, .ok (some index), host⟩
  | .readFile path target =>
    if Host.isFile host path then
      match Host.read host path with
      | .ok contents =>
        ⟨vars.insert target (.string contents), none, .ok none, host⟩
      | .error fault => .refused vars host (.unreadable path fault)
    else .refused vars host (.missingFile path)
  | .writeFile path contents =>
    match Host.write host path contents with
    | .ok host => ⟨vars, none, .ok none, host⟩
    | .error fault => .refused vars host (.unwritable path fault)

/-- Performing an action gives its outcome. -/
theorem result_perform (action : Action) (call : Call) (machine : Machine)
    (output : Output) (host : η) :
    (action.perform call machine output).result host
      = ((action.outcome machine.vars host).reply call output,
          (action.outcome machine.vars host).host) := by
  cases action with
  | assign name value => rfl
  | emit line => rfl
  | goTo index => rfl
  | readFile path target =>
      simp only [Action.perform, Action.outcome, Plan.bind_eq,
        Plan.result_bind, Plan.result_askIsFile]
      by_cases hfile : Host.isFile host path = true
      · simp only [hfile, if_true, Plan.result_bind, Plan.result_askRead]
        cases Host.read host path with
        | ok contents => rfl
        | error fault => rfl
      · simp only [hfile]
        rfl
  | writeFile path contents =>
      simp only [Action.perform, Action.outcome, Plan.bind_eq,
        Plan.result_bind, Plan.result_askWrite]
      cases Host.write host path contents with
      | ok host' => rfl
      | error fault => rfl

namespace Instruction

/-- The outcome of a call: that of its action, if it has one. -/
def outcome (instruction : Instruction) (call : Call) (machine : Machine)
    (host : η) : Outcome η :=
  match instruction.action call machine with
  | .ok action => action.outcome machine.vars host
  | .error fault => .refused machine.vars host fault

/-- A handler's answer is the outcome of the call. -/
theorem result_handler (instruction : Instruction) (call : Call)
    (machine : Machine) (output : Output) (host : η) :
    (instruction.handler call machine output).result host
      = ((instruction.outcome call machine host).reply call output,
          (instruction.outcome call machine host).host) := by
  unfold handler outcome
  cases instruction.action call machine with
  | ok action => exact result_perform action call machine output host
  | error fault => rfl

/-- A command that is refused, at whichever of its checks, has changed
nothing. -/
theorem outcome_of_error {instruction : Instruction} {call : Call}
    {machine : Machine} {host : η} {fault : CommandFault}
    (h : (instruction.outcome call machine host).next = .error fault) :
    instruction.outcome call machine host
      = .refused machine.vars host fault := by
  unfold outcome at h ⊢
  cases haction : instruction.action call machine with
  | error fault' =>
      rw [haction] at h
      cases h
      rfl
  | ok action =>
      rw [haction] at h
      cases action with
      | assign name value => cases h
      | emit line => cases h
      | goTo index => cases h
      | readFile path target =>
          simp only [Action.outcome] at h ⊢
          split at h
          · split at h
            · cases h
            · cases h
              simp only [*, if_true]
          · cases h
            simp only [*, Bool.false_eq_true, if_false]
      | writeFile path contents =>
          simp only [Action.outcome] at h ⊢
          split at h
          · cases h
          · cases h
            simp only [*]

/-- Which argument of a command is the label that it may jump to. -/
def labelPosition? : Instruction → Option Nat
  | .jump => some 0
  | .branch _ => some 2
  | _ => none

/-- The commands that decide where the run goes on. All others look
neither at labels nor at the number of lines. -/
def steers : Instruction → Bool
  | .jump | .branch _ | .stop => true
  | _ => false

/-- A command that does not steer has the same action wherever it
stands: the arguments and the variables decide. -/
theorem action_eq_of_not_steers {instruction : Instruction} {call call' : Call}
    {machine machine' : Machine} (h : instruction.steers = false)
    (harguments : call'.arguments = call.arguments)
    (hvars : machine'.vars = machine.vars) :
    instruction.action call' machine' = instruction.action call machine := by
  obtain ⟨pc, line, keyword, arguments⟩ := call
  obtain ⟨pc', line', keyword', arguments'⟩ := call'
  obtain ⟨vars, labels, counter, lineCount⟩ := machine
  obtain ⟨vars', labels', counter', lineCount'⟩ := machine'
  subst harguments hvars
  cases instruction with
  | jump => cases h
  | branch comparison => cases h
  | stop => cases h
  | _ => rfl

/-- A command that does not steer leaves it to the run to go on with the
following line. -/
theorem action_ne_goTo {instruction : Instruction} {call : Call}
    {machine : Machine} {index : Nat} (h : instruction.steers = false) :
    instruction.action call machine ≠ .ok (.goTo index) := by
  intro haction
  cases instruction
  all_goals simp only [action, bind_eq_ok_iff] at haction
  case jump => cases h
  case branch => cases h
  case stop => cases h
  case assign =>
    obtain ⟨value, -, haction⟩ := haction
    cases haction
  case read =>
    obtain ⟨path, -, haction⟩ := haction
    cases haction
  case write =>
    obtain ⟨contents, -, path, -, haction⟩ := haction
    split at haction
    · cases haction
    · cases haction
  case cut =>
    obtain ⟨place, -, elements, -, haction⟩ := haction
    split at haction
    · cases haction
    · cases haction
  case code =>
    obtain ⟨text, -, haction⟩ := haction
    split at haction
    · cases haction
    · cases haction
  case character =>
    obtain ⟨x, -, haction⟩ := haction
    split at haction
    · cases haction
    · cases haction
  case arithmetic operation =>
    -- with a check of the divisor in front for two of the operations
    split at haction
    · obtain ⟨divisor, -, haction⟩ := bind_eq_ok_iff.1 haction
      split at haction
      · cases haction
      · obtain ⟨left, -, right, -, haction⟩ := by
          simpa only [bind_eq_ok_iff] using haction
        cases haction
    · obtain ⟨left, -, right, -, haction⟩ := by
        simpa only [bind_eq_ok_iff] using haction
      cases haction
  case bitwise operation =>
    obtain ⟨left, -, right, -, haction⟩ := haction
    cases haction
  case append =>
    obtain ⟨source, -, target, -, haction⟩ := haction
    split at haction
    · cases haction
    · cases haction
  case increment =>
    obtain ⟨x, -, haction⟩ := haction
    cases haction
  case decrement =>
    obtain ⟨x, -, haction⟩ := haction
    cases haction
  case length =>
    obtain ⟨elements, -, haction⟩ := haction
    cases haction
  case hex =>
    obtain ⟨x, -, haction⟩ := haction
    split at haction
    · cases haction
    · cases haction
  case echo =>
    obtain ⟨value, -, haction⟩ := haction
    cases haction

/-- A label operand that is found is in the table of labels. -/
theorem label?_of_operand {call : Call} {machine : Machine}
    {position index : Nat}
    (h : Operand.label call machine position = .ok index) :
    machine.label? (call.argument position) = some index := by
  unfold Operand.label at h
  split at h
  next found hfound =>
    cases h
    exact hfound
  next => cases h

/-- A line is gone to by its index only at the end of the run or through
a label, and by a branch that is not taken, to the following line. -/
theorem action_goTo {instruction : Instruction} {call : Call}
    {machine : Machine} {index : Nat}
    (h : instruction.action call machine = .ok (.goTo index)) :
    (instruction = .stop ∧ index = machine.lineCount)
      ∨ ∃ position, instruction.labelPosition? = some position
          ∧ (index = call.next
            ∨ machine.label? (call.argument position) = some index) := by
  cases hsteers : instruction.steers with
  | false => exact absurd h (action_ne_goTo hsteers)
  | true =>
      cases instruction with
      | jump =>
          obtain ⟨found, hfound, h⟩ := bind_eq_ok_iff.1 h
          cases h
          exact .inr ⟨0, rfl, .inr (label?_of_operand hfound)⟩
      | branch comparison =>
          obtain ⟨taken, -, h⟩ := bind_eq_ok_iff.1 h
          obtain ⟨found, hfound, h⟩ := bind_eq_ok_iff.1 h
          cases h
          refine .inr ⟨2, rfl, ?_⟩
          cases taken with
          | false => exact .inl rfl
          | true => exact .inr (label?_of_operand hfound)
      | stop =>
          cases h
          exact .inl ⟨rfl, rfl⟩
      | _ => cases hsteers

/-- Only an action that goes to a line names one in its outcome. -/
theorem action_of_outcome_goTo {instruction : Instruction} {call : Call}
    {machine : Machine} {host : η} {index : Nat}
    (h : (instruction.outcome call machine host).next = .ok (some index)) :
    instruction.action call machine = .ok (.goTo index) := by
  unfold outcome at h
  split at h
  next action haction =>
    rw [haction]
    cases action with
    | assign name value => cases h
    | emit line => cases h
    | goTo found =>
        cases h
        rfl
    | readFile path target =>
        simp only [Action.outcome] at h
        split at h
        · split at h
          · cases h
          · cases h
        · cases h
    | writeFile path contents =>
        simp only [Action.outcome] at h
        split at h
        · cases h
        · cases h
  next => cases h

end Instruction

-- ================================================================ steps

/-- The line at the counter of a state is a call of an instruction. -/
structure Engine.Calls (engine : Engine Output) (listing : Listing)
    (state : State Output) (instruction : Instruction) (call : Call) :
    Prop where
  pc : call.pc = state.machine.pc
  line : listing[state.machine.pc]? = some call.line
  notBlank : Text.isAllBlank call.line = false
  decode : engine.decode call.line
    = .ok (call.keyword, instruction.command, call.arguments)
  keyword : instruction.keyword.toList = call.keyword

/-- A state with its counter moved. -/
def State.goingTo (state : State Output) (pc : Nat) : State Output :=
  { state with machine := { state.machine with pc := pc } }

/-- A state after an outcome, its counter moved. -/
def Outcome.after (outcome : Outcome η) (state : State Output) (pc : Nat) :
    State Output :=
  ⟨{ state.machine with vars := outcome.vars, pc := pc },
    state.own.emit? outcome.echoed⟩

namespace Engine

variable {engine : Engine Output} {listing : Listing}

/-- What the counter of a state can point to. -/
theorem IsScript.at_counter (hs : engine.IsScript) (listing : Listing)
    (state : State Output) :
    listing[state.machine.pc]? = none
      ∨ (∃ line, listing[state.machine.pc]? = some line
        ∧ Text.isAllBlank line = true)
      ∨ (∃ line fault, listing[state.machine.pc]? = some line
          ∧ Text.isAllBlank line = false ∧ engine.decode line = .error fault)
      ∨ ∃ instruction call, engine.Calls listing state instruction call := by
  cases hline : listing[state.machine.pc]? with
  | none => exact .inl rfl
  | some line =>
      cases hblank : Text.isAllBlank line with
      | true => exact .inr (.inl ⟨line, rfl, hblank⟩)
      | false =>
          cases hdecode : engine.decode line with
          | error fault =>
              exact .inr (.inr (.inl ⟨line, fault, rfl, hblank, hdecode⟩))
          | ok found =>
              obtain ⟨keyword, command, arguments⟩ := found
              obtain ⟨instruction, hkeyword, rfl⟩ :=
                hs.exists_instruction (get?_of_decode hdecode)
              exact .inr (.inr (.inr ⟨instruction,
                ⟨state.machine.pc, line, keyword, arguments⟩,
                ⟨rfl, hline, hblank, hdecode, hkeyword⟩⟩))

/-- A step on a call is the outcome of the call. -/
theorem Calls.result_step {state : State Output} {instruction : Instruction}
    {call : Call} (hcall : engine.Calls listing state instruction call)
    (host : η) :
    (engine.step listing state).result host
      = (match (instruction.outcome call state.machine host).next with
          | .ok next =>
            .moved ((instruction.outcome call state.machine host).after
              state (next.getD call.next))
          | .error fault => .failed state (call.failure fault),
        (instruction.outcome call state.machine host).host) := by
  obtain ⟨pc, line, keyword, arguments⟩ := call
  obtain ⟨hpc, hline, hblank, hdecode, -⟩ := hcall
  simp only at hpc hline hblank hdecode
  subst hpc
  rw [result_step_of_decoded host hline hblank hdecode]
  simp only [Instruction.command, Instruction.result_handler]
  cases hnext : (instruction.outcome
    ⟨state.machine.pc, line, keyword, arguments⟩ state.machine host).next with
  | ok next =>
      simp only [settle, Outcome.reply, hnext]
      rfl
  | error fault =>
      rw [Instruction.outcome_of_error hnext]
      rfl

/-- Everything that a step which goes on can have done: pass over a
blank line, or carry out a call. -/
theorem advance?_inv (hs : engine.IsScript) {here there : State Output × η}
    (h : engine.advance? listing here = some there) :
    (∃ line, listing[here.1.machine.pc]? = some line
        ∧ Text.isAllBlank line = true
        ∧ there = (here.1.goingTo (here.1.machine.pc + 1), here.2))
      ∨ ∃ instruction call next, engine.Calls listing here.1 instruction call
          ∧ (instruction.outcome call here.1.machine here.2).next = .ok next
          ∧ there = ((instruction.outcome call here.1.machine here.2).after
                here.1 (next.getD call.next),
              (instruction.outcome call here.1.machine here.2).host) := by
  rw [advance?_eq_some_iff] at h
  rcases hs.at_counter listing here.1 with
    hnone | ⟨line, hline, hblank⟩ | ⟨line, fault, hline, hblank, hdecode⟩
    | ⟨i, call, hcall⟩
  · rw [result_step_of_none _ hnone] at h
    cases h
  · rw [result_step_of_blank _ hline hblank] at h
    simp only [Prod.mk.injEq, Progress.moved.injEq] at h
    exact .inl ⟨line, hline, hblank, Prod.ext h.1.symm h.2.symm⟩
  · rw [result_step_of_undecoded _ hline hblank hdecode] at h
    cases h
  · rw [hcall.result_step] at h
    cases hnext : (i.outcome call here.1.machine here.2).next with
    | error fault =>
        rw [hnext] at h
        cases h
    | ok next =>
        rw [hnext] at h
        simp only [Prod.mk.injEq, Progress.moved.injEq] at h
        exact .inr ⟨i, call, next, hcall, hnext, Prod.ext h.1.symm h.2.symm⟩

/-- Everything that a stop can be: the end of the lines, a line that is
no command, or a command that is refused. In each case state and host
stay as they are. -/
theorem stops_inv (hs : engine.IsScript) {here there : State Output × η}
    {verdict : Verdict} (h : engine.Stops listing here there verdict) :
    there = here
      ∧ ((listing[here.1.machine.pc]? = none ∧ verdict = .ok ())
        ∨ (∃ line fault, listing[here.1.machine.pc]? = some line
            ∧ Text.isAllBlank line = false ∧ engine.decode line = .error fault
            ∧ verdict = .error (.decoding ⟨here.1.machine.pc, line⟩ fault))
        ∨ ∃ instruction call fault,
          engine.Calls listing here.1 instruction call
            ∧ (instruction.outcome call here.1.machine here.2).next
              = .error fault
            ∧ verdict = .error (call.failure fault)) := by
  rcases hs.at_counter listing here.1 with
    hnone | ⟨line, hline, hblank⟩ | ⟨line, fault, hline, hblank, hdecode⟩
      | ⟨i, call, hcall⟩
  · obtain ⟨rfl, rfl⟩ :=
      h.unique (.finished (result_step_of_none here.2 hnone))
    exact ⟨rfl, .inl ⟨hnone, rfl⟩⟩
  · have hstep := engine.result_step_of_blank here.2 hline hblank
    have hgoes : engine.advance? listing here
        = some (here.1.goingTo (here.1.machine.pc + 1), here.2) :=
      advance?_eq_some_iff.2 hstep
    rw [h.advance?_eq_none] at hgoes
    cases hgoes
  · obtain ⟨rfl, rfl⟩ :=
      h.unique (.failed (result_step_of_undecoded here.2 hline hblank hdecode))
    exact ⟨rfl, .inr (.inl ⟨line, fault, hline, hblank, hdecode, rfl⟩)⟩
  · have hstep := hcall.result_step here.2
    cases hnext : (i.outcome call here.1.machine here.2).next with
    | ok next =>
        rw [hnext] at hstep
        have hgoes : engine.advance? listing here
            = some ((i.outcome call here.1.machine here.2).after here.1
              (next.getD call.next),
                (i.outcome call here.1.machine here.2).host) :=
          advance?_eq_some_iff.2 hstep
        rw [h.advance?_eq_none] at hgoes
        cases hgoes
    | error fault =>
        rw [hnext, Instruction.outcome_of_error hnext] at hstep
        obtain ⟨rfl, rfl⟩ := h.unique (.failed hstep)
        exact ⟨rfl, .inr (.inr ⟨i, call, fault, hcall, hnext, rfl⟩)⟩

end Engine

end LineScript
