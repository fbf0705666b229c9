/-
Following a script whose lines are known.

Where a listing is known, each of its lines is known to be a call of some
command (`Engine.CallAt`), and what a step does there is a matter of the
variables alone: labels, output and host have no part in a command that
sets a variable. A situation of such a run is therefore given by the
variables and the counter (`State.holding`), and there is one lemma for
each way that a step can go: a variable is set (`CallAt.stores`), a line is
gone to (`CallAt.goes`), a blank line is passed over, a command is
refused, the lines are at an end. A run is followed by putting these
together; what holds at a loop's head is then an invariant on variables.
-/
import LineScript.Proofs.Counts
import LineScript.Proofs.Effects
import LineScript.Proofs.LabelLines

set_option autoImplicit false

namespace LineScript

open StateTransition

variable {η : Type} [Host η]

-- ============================================================ situations

/-- A state with other variables, at some line. -/
def State.holding (state : State Output) (vars : Table Value) (pc : Nat) :
    State Output :=
  { state with machine := { state.machine with vars := vars, pc := pc } }

/-- A state in which one line more is put out. -/
def State.showing (state : State Output) (line : Text) : State Output :=
  { state with own := state.own.emit line }

namespace Engine

/-- A line of a listing is a call of a command. -/
structure CallAt (engine : Engine Output) (listing : Listing)
    (instruction : Instruction) (call : Call) : Prop where
  line : listing[call.pc]? = some call.line
  notBlank : Text.isAllBlank call.line = false
  decode : engine.decode call.line
    = .ok (call.keyword, instruction.command, call.arguments)
  keyword : instruction.keyword.toList = call.keyword

variable {engine : Engine Output} {listing : Listing}
  {instruction : Instruction} {call : Call} {state : State Output}
  {vars : Table Value} {host : η}

/-- The line at some index is a call with some arguments. -/
def HasCall (engine : Engine Output) (listing : Listing) (pc : Nat)
    (instruction : Instruction) (arguments : List Text) : Prop :=
  ∃ line keyword,
    engine.CallAt listing instruction ⟨pc, line, keyword, arguments⟩

/-- A run comes from some variables and a line to others. -/
def Leads (engine : Engine Output) (listing : Listing) (state : State Output)
    (host : η) (vars : Table Value) (pc : Nat) (vars' : Table Value)
    (pc' : Nat) : Prop :=
  Reaches (engine.advance? listing) (state.holding vars pc, host)
    (state.holding vars' pc', host)

theorem Leads.refl {pc : Nat} :
    engine.Leads listing state host vars pc vars pc :=
  Relation.ReflTransGen.refl

theorem Leads.trans {vars' vars'' : Table Value} {pc pc' pc'' : Nat}
    (h : engine.Leads listing state host vars pc vars' pc')
    (h' : engine.Leads listing state host vars' pc' vars'' pc'') :
    engine.Leads listing state host vars pc vars'' pc'' :=
  Relation.ReflTransGen.trans h h'

/-- Where one variable is set, it has its value and the others keep
theirs. -/
theorem Leads.exists_of_insert {pc pc' : Nat} {name : Text} {value : Value}
    (h : engine.Leads listing state host vars pc
      (vars.insert name value) pc') :
    ∃ vars', engine.Leads listing state host vars pc vars' pc'
      ∧ vars'.get? name = some value
      ∧ ∀ other, other ≠ name → vars'.get? other = vars.get? other :=
  ⟨_, h, Table.get?_insert_self _ _ _,
    fun _ hne => Table.get?_insert_of_ne _ _ hne⟩

theorem CallAt.calls (h : engine.CallAt listing instruction call)
    (state : State Output) (vars : Table Value) :
    engine.Calls listing (state.holding vars call.pc) instruction call :=
  ⟨rfl, h.line, h.notBlank, h.decode, h.keyword⟩

/-- The call at a line puts a value into a variable, and the next line
follows. -/
def Stores (engine : Engine Output) (listing : Listing) (state : State Output)
    (host : η) (vars : Table Value) (pc : Nat) (target : Text)
    (value : Value) : Prop :=
  engine.advance? listing (state.holding vars pc, host)
    = some (state.holding (vars.insert target value) (pc + 1), host)

/-- The call at a line fails, and nothing is changed by it. -/
def Fails (engine : Engine Output) (listing : Listing) (state : State Output)
    (host : η) (vars : Table Value) (pc : Nat) : Prop :=
  ∃ line fault, engine.Stops listing (state.holding vars pc, host)
    (state.holding vars pc, host) (.error (.runtime ⟨pc, line⟩ fault))

theorem Stores.unique {pc : Nat} {target : Text} {value value' : Value}
    (h : engine.Stores listing state host vars pc target value)
    (h' : engine.Stores listing state host vars pc target value') :
    value = value' := by
  have hsame := Option.some.inj (h.symm.trans h')
  have hvars : vars.insert target value = vars.insert target value' :=
    congrArg (·.1.machine.vars) hsame
  have hget := congrArg (·.get? target) hvars
  simp only [Table.get?_insert_self] at hget
  exact Option.some.inj hget

theorem Stores.leads {pc : Nat} {target : Text} {value : Value}
    (h : engine.Stores listing state host vars pc target value) :
    engine.Leads listing state host vars pc
      (vars.insert target value) (pc + 1) :=
  .single h

theorem Fails.not_stores {pc : Nat} {target : Text} {value : Value}
    (h : engine.Fails listing state host vars pc) :
    ¬ engine.Stores listing state host vars pc target value := by
  intro hstores
  obtain ⟨line, fault, hstops⟩ := h
  exact absurd (hstores.symm.trans hstops.advance?_eq_none) nofun

/-- A command with a result puts it into its target. -/
theorem CallAt.stores (h : engine.CallAt listing instruction call)
    {position : Nat} {value : Value}
    (htarget : instruction.targetPosition? = some position)
    (hresult : instruction.result? call (state.holding vars call.pc).machine
      host = some value) :
    engine.Stores listing state host vars call.pc
      (call.argument position) value := by
  have houtcome :=
    Instruction.outcome_of_target htarget call
      (state.holding vars call.pc).machine
    host
  rw [hresult] at houtcome
  simp only at houtcome
  apply advance?_eq_some_iff.2
  rw [(h.calls state vars).result_step, houtcome]
  rfl

theorem CallAt.sets (h : engine.CallAt listing instruction call)
    {position : Nat} {value : Value}
    (htarget : instruction.targetPosition? = some position)
    (hresult : instruction.result? call (state.holding vars call.pc).machine
      host = some value) :
    engine.Leads listing state host vars call.pc
      (vars.insert (call.argument position) value) call.next :=
  (h.stores htarget hresult).leads

/-- A command that has a target and no result fails. -/
theorem CallAt.fails (h : engine.CallAt listing instruction call)
    {position : Nat} (htarget : instruction.targetPosition? = some position)
    (hresult : instruction.result? call (state.holding vars call.pc).machine
      host = none) :
    engine.Fails listing state host vars call.pc := by
  have houtcome :=
    Instruction.outcome_of_target htarget call
      (state.holding vars call.pc).machine
    host
  rw [hresult] at houtcome
  obtain ⟨fault, houtcome⟩ := houtcome
  refine ⟨call.line, .command call.keyword fault, Stops.failed ?_⟩
  rw [(h.calls state vars).result_step, houtcome]
  rfl

/-- What is stored is the result. -/
theorem CallAt.stores_iff (h : engine.CallAt listing instruction call)
    {position : Nat} {value : Value}
    (htarget : instruction.targetPosition? = some position) :
    engine.Stores listing state host vars call.pc
      (call.argument position) value
      ↔ instruction.result? call (state.holding vars call.pc).machine host
        = some value := by
  refine ⟨fun hstores => ?_, h.stores htarget⟩
  cases hresult : instruction.result? call
    (state.holding vars call.pc).machine host with
  | none => exact absurd hstores (h.fails htarget hresult).not_stores
  | some other => rw [hstores.unique (h.stores htarget hresult)]

/-- A command without an action is refused. -/
theorem CallAt.refused (h : engine.CallAt listing instruction call)
    {fault : CommandFault}
    (haction : instruction.action call (state.holding vars call.pc).machine
      = .error fault) :
    engine.Stops listing (state.holding vars call.pc, host)
      (state.holding vars call.pc, host) (.error (call.failure fault)) := by
  have houtcome : instruction.outcome call
      (state.holding vars call.pc).machine host
      = .refused vars host fault := by
    unfold Instruction.outcome
    rw [haction]
    rfl
  apply Stops.failed
  rw [(h.calls state vars).result_step, houtcome]
  rfl

/-- A command that names a line is followed by that line. -/
theorem CallAt.goes (h : engine.CallAt listing instruction call) {i : Nat}
    (haction : instruction.action call (state.holding vars call.pc).machine
      = .ok (.goTo i)) :
    engine.Leads listing state host vars call.pc vars i :=
  .single (advance?_of_jump (h.calls state vars) haction)

/-- A blank line does nothing. -/
theorem leads_of_blank {pc : Nat} (h : listing[pc]? = some []) :
    engine.Leads listing state host vars pc vars (pc + 1) :=
  .single (advance?_eq_some_iff.2 (result_step_of_blank host h rfl))

/-- Behind the last line the run ends. -/
theorem stops_of_end {pc : Nat} (h : listing[pc]? = none) :
    engine.Stops listing (state.holding vars pc, host)
      (state.holding vars pc, host) (.ok ()) :=
  .finished (result_step_of_none host h)

end Engine

/-- How a line is taken apart is the same for all engines of the
language. -/
theorem Engine.IsScript.decode_eq {engine : Engine Output}
    (hs : engine.IsScript) (line : Text) :
    engine.decode line = Interpreter.standard.engine.decode line := by
  unfold Engine.decode
  rw [hs.commands]
  rfl

-- ========================================================= assignments

/-- An assignment with the one space that is needed and the one that is
usual. -/
def plainAssignment (name operand : Text) : Text :=
  "set ".toList ++ name ++ ", ".toList ++ operand

section

variable {name operand : Text}

theorem isAssignment_plain (hname : Text.isIdentifier name = true)
    (hoperand : Literal.Inert operand) :
    IsAssignment name [] " ".toList operand [] :=
  ⟨hname, by decide, by decide, hoperand, by decide⟩

theorem assignmentLine_plain (name operand : Text) :
    assignmentLine name [] " ".toList operand []
      = plainAssignment name operand := by
  delta plainAssignment
  rw [assignmentLine, List.append_nil, List.append_assoc, List.append_assoc]
  rfl

theorem neutral_plainAssignment (hname : Text.isIdentifier name = true)
    (hoperand : Literal.Inert operand) :
    Line.Neutral (plainAssignment name operand) := by
  rw [← assignmentLine_plain]
  exact (isAssignment_plain hname hoperand).neutral

/-- Such a line is a call of the assignment. -/
theorem Engine.callAt_plainAssignment {engine : Engine Output}
    (hs : engine.IsScript) (hname : Text.isIdentifier name = true)
    (hoperand : Literal.Inert operand) {listing : Listing} {pc : Nat}
    (hline : listing[pc]? = some (plainAssignment name operand)) :
    engine.CallAt listing .assign
      ⟨pc, plainAssignment name operand, "set".toList, [name, operand]⟩ := by
  have hdecode := (isAssignment_plain hname hoperand).decode_eq hs
  rw [assignmentLine_plain] at hdecode
  exact ⟨hline, rfl, hdecode, rfl⟩

end

-- ============================================================= commands

section

variable {call : Call} {machine : Machine} {position : Nat} {value : Value}

theorem Call.elements?_eq (h : call.value? machine position = some value) :
    call.elements? machine position = value.elements? := by
  rw [elements?, h, Option.bind_some]

theorem Call.string?_eq (h : call.value? machine position = some value) :
    call.string? machine position = value.string? := by
  rw [string?, h, Option.bind_some]

theorem Call.number?_eq (h : call.value? machine position = some value) :
    call.number? machine position = value.number? := by
  rw [number?, h, Option.bind_some]

/-- An operand is truncated to an integer. -/
theorem Call.integer?_of_truncate {x : Double} {n : Int}
    (htruncate : x.truncate? = some n) (hn : Double.IsExact n)
    (h : call.value? machine position = some (.number x)) :
    call.integer? machine position = some n := by
  rw [integer?, number?_eq h, Value.number?, Option.bind_some, htruncate,
    Option.map_some, Double.clampInt64_of_isExact hn]

/-- A number without an integer part is no integer operand. -/
theorem Operand.integer_of_number {x : Double}
    (h : machine.value? (call.argument position) = some (.number x)) :
    Operand.integer call machine position
      = match x.truncate? with
        | some n => .ok (Double.clampInt64 n)
        | none => .error (.notFinite (call.argument position)) := by
  simp only [Operand.integer, Operand.number, Operand.value, h, bind,
    Except.bind, pure, Except.pure]
  cases x.truncate? <;> rfl

/-- A count is a 64-bit integer. -/
theorem Call.integer?_of_count {n : Nat} (hn : n ≤ power 2 53)
    (h : call.value? machine position = some (.number (.ofNat n))) :
    call.integer? machine position = some (n : Int) :=
  integer?_of_truncate (Double.truncate?_ofNat hn)
    (Double.isExact_natCast.2 hn) h

end

namespace Engine.CallAt

variable {engine : Engine Output} {listing : Listing} (state : State Output)
  {vars : Table Value} (host : η) {pc : Nat}
  {line keyword first second third : Text}

/-- A literal is assigned. -/
theorem stores_literal {value : Value}
    (h : engine.CallAt listing .assign ⟨pc, line, keyword, [first, second]⟩)
    (hread : Literal.read? second = some (.value value)) :
    engine.Stores listing state host vars pc first value := by
  have hresult : Instruction.assign.result?
      ⟨pc, line, keyword, [first, second]⟩
      (state.holding vars pc).machine host = some value := by
    have hread' : Literal.read?
        (Call.argument ⟨pc, line, keyword, [first, second]⟩ 1)
        = some (.value value) := hread
    simp only [Instruction.result?, Call.literal?, hread']
  exact h.stores rfl hresult

theorem assign {value : Value}
    (h : engine.CallAt listing .assign ⟨pc, line, keyword, [first, second]⟩)
    (hread : Literal.read? second = some (.value value)) :
    engine.Leads listing state host vars pc
      (vars.insert first value) (pc + 1) :=
  (h.stores_literal state host hread).leads

/-- A value is put out. -/
theorem shows {value : Value}
    (h : engine.CallAt listing .echo ⟨pc, line, keyword, [first]⟩)
    (hvalue : vars.get? first = some value) :
    Reaches (engine.advance? listing) (state.holding vars pc, host)
      ((state.showing value.display).holding vars (pc + 1), host) := by
  have hfound : (state.holding vars pc).machine.value?
      (Call.argument ⟨pc, line, keyword, [first]⟩ 0) = some value := hvalue
  have houtcome : Instruction.echo.outcome ⟨pc, line, keyword, [first]⟩
      (state.holding vars pc).machine host
        = ⟨vars, some value.display, .ok none, host⟩ := by
    simp only [Instruction.outcome, Instruction.action, Operand.value, hfound]
    rfl
  apply Relation.ReflTransGen.single
  apply advance?_eq_some_iff.2
  rw [(h.calls state vars).result_step, houtcome]
  rfl

/-- Elements are counted. -/
theorem stores_length {value : Value} {elements : List Text}
    (h : engine.CallAt listing .length ⟨pc, line, keyword, [first, second]⟩)
    (hvalue : vars.get? first = some value)
    (helements : value.elements? = some elements) :
    engine.Stores listing state host vars pc second
      (.number (.ofNat elements.length)) := by
  have hfound : Call.value? ⟨pc, line, keyword, [first, second]⟩
      (state.holding vars pc).machine 0
      = some value := hvalue
  refine h.stores rfl ?_
  rw [Instruction.result?, Call.elements?_eq hfound, helements,
    Option.map_some]

theorem length {value : Value} {elements : List Text}
    (h : engine.CallAt listing .length ⟨pc, line, keyword, [first, second]⟩)
    (hvalue : vars.get? first = some value)
    (helements : value.elements? = some elements) :
    engine.Leads listing state host vars pc
      (vars.insert second (.number (.ofNat elements.length))) (pc + 1) :=
  (h.stores_length state host hvalue helements).leads

/-- An element is taken by its index. -/
theorem cut {value : Value} {elements : List Text} {i : Nat} {element : Text}
    (h : engine.CallAt listing .cut
      ⟨pc, line, keyword, [first, second, third]⟩)
    (hvalue : vars.get? first = some value)
    (helements : value.elements? = some elements)
    (hindex : vars.get? second = some (.number (.ofNat i)))
    (hi : i ≤ power 2 53) (helement : elements[i]? = some element) :
    engine.Leads listing state host vars pc
      (vars.insert third (.string element)) (pc + 1) := by
  have hfound : Call.value? ⟨pc, line, keyword, [first, second, third]⟩
      (state.holding vars pc).machine 0 = some value := hvalue
  have hplace : Call.value? ⟨pc, line, keyword, [first, second, third]⟩
      (state.holding vars pc).machine 1 = some (.number (.ofNat i)) := hindex
  have hnegative : ¬ (i : Int) < 0 := by omega
  refine h.sets rfl ?_
  simp only [Instruction.result?, Call.elements?_eq hfound, helements,
    Call.integer?_of_count hi hplace, Option.bind_eq_bind, Option.bind_some,
    if_neg hnegative, Int.toNat_natCast, helement, Option.map_some]

/-- The code of a first character is found. -/
theorem stores_code {c : Char} {text : Text}
    (h : engine.CallAt listing .code ⟨pc, line, keyword, [first, second]⟩)
    (hvalue : vars.get? first = some (.string (c :: text))) :
    engine.Stores listing state host vars pc second
      (.number (.ofNat c.toNat)) := by
  have hfound : Call.value? ⟨pc, line, keyword, [first, second]⟩
      (state.holding vars pc).machine 0
      = some (.string (c :: text)) := hvalue
  refine h.stores rfl ?_
  simp only [Instruction.result?, Call.string?_eq hfound, Value.string?,
    Option.bind_eq_bind, Option.bind_some, List.head?_cons, Option.map_some]

theorem code {c : Char} {text : Text}
    (h : engine.CallAt listing .code ⟨pc, line, keyword, [first, second]⟩)
    (hvalue : vars.get? first = some (.string (c :: text))) :
    engine.Leads listing state host vars pc
      (vars.insert second (.number (.ofNat c.toNat))) (pc + 1) :=
  (h.stores_code state host hvalue).leads

/-- Two operands are truncated and combined digit by digit. -/
theorem bitwise {operation : Bitwise} {x y : Double} {m n : Int}
    (h : engine.CallAt listing (.bitwise operation)
      ⟨pc, line, keyword, [first, second, third]⟩)
    (hleft : vars.get? first = some (.number x)) (hx : x.truncate? = some m)
    (hm : Double.IsExact m) (hright : vars.get? second = some (.number y))
    (hy : y.truncate? = some n) (hn : Double.IsExact n) :
    engine.Leads listing state host vars pc
      (vars.insert third (.number (.ofInt (operation.apply m n))))
      (pc + 1) := by
  have hleft' : Call.value? ⟨pc, line, keyword, [first, second, third]⟩
      (state.holding vars pc).machine 0 = some (.number x) := hleft
  have hright' : Call.value? ⟨pc, line, keyword, [first, second, third]⟩
      (state.holding vars pc).machine 1 = some (.number y) := hright
  have hwords : Call.words? ⟨pc, line, keyword, [first, second, third]⟩
      (state.holding vars pc).machine = some (.ofInt 64 m, .ofInt 64 n) := by
    simp only [Call.words?, Call.integer?_of_truncate hx hm hleft',
      Call.integer?_of_truncate hy hn hright', Option.bind_eq_bind,
      Option.bind_some]
    rfl
  refine h.sets rfl ?_
  cases operation
  all_goals
    rw [Instruction.result?, hwords]
    rfl

/-- An operand without an integer part is refused, the left one first. -/
theorem bitwise_refused {operation : Bitwise} {x y : Double}
    (h : engine.CallAt listing (.bitwise operation)
      ⟨pc, line, keyword, [first, second, third]⟩)
    (hleft : vars.get? first = some (.number x))
    (hright : vars.get? second = some (.number y))
    (hnone : x.truncate? = none ∨ y.truncate? = none) :
    engine.Stops listing (state.holding vars pc, host)
      (state.holding vars pc, host)
      (.error (.runtime ⟨pc, line⟩ (.command keyword
        (.notFinite (if x.truncate? = none then first else second))))) := by
  have hleft' : (state.holding vars pc).machine.value?
      (Call.argument ⟨pc, line, keyword, [first, second, third]⟩ 0)
        = some (.number x) := hleft
  have hright' : (state.holding vars pc).machine.value?
      (Call.argument ⟨pc, line, keyword, [first, second, third]⟩ 1)
        = some (.number y) := hright
  refine h.refused ?_
  rw [Instruction.action, Operand.integer_of_number hleft',
    Operand.integer_of_number hright']
  cases hx : x.truncate? with
  | none => rfl
  | some m =>
      have hy : y.truncate? = none :=
        hnone.resolve_left fun hnot => by rw [hx] at hnot; cases hnot
      rw [hy]
      rfl

/-- Two counts are combined digit by digit. -/
theorem xor {a b : Nat}
    (h : engine.CallAt listing (.bitwise .xor)
      ⟨pc, line, keyword, [first, second, third]⟩)
    (hleft : vars.get? first = some (.number (.ofNat a))) (ha : a ≤ power 2 53)
    (hright : vars.get? second = some (.number (.ofNat b)))
    (hb : b ≤ power 2 53) :
    engine.Leads listing state host vars pc
      (vars.insert third (.number (.ofNat (a ^^^ b)))) (pc + 1) := by
  have hsmall : power 2 53 < power 2 63 := by decide
  have hxor :=
    Bitwise.apply_xor (Nat.lt_of_le_of_lt ha hsmall)
      (Nat.lt_of_le_of_lt hb hsmall)
  have hbits := h.bitwise state host hleft (Double.truncate?_ofNat ha)
    (Double.isExact_natCast.2 ha) hright (Double.truncate?_ofNat hb)
    (Double.isExact_natCast.2 hb)
  rw [hxor] at hbits
  exact hbits

/-- A number is subtracted from a variable. -/
theorem subtract {x y : Double}
    (h : engine.CallAt listing (.arithmetic .subtract)
      ⟨pc, line, keyword, [first, second]⟩)
    (hleft : vars.get? first = some (.number x))
    (hright : vars.get? second = some (.number y)) :
    engine.Leads listing state host vars pc
      (vars.insert first (.number (x.sub y))) (pc + 1) := by
  have hleft' : Call.value? ⟨pc, line, keyword, [first, second]⟩
      (state.holding vars pc).machine 0
      = some (.number x) := hleft
  have hright' : Call.value? ⟨pc, line, keyword, [first, second]⟩
      (state.holding vars pc).machine 1
      = some (.number y) := hright
  have hnumbers : Call.numbers? ⟨pc, line, keyword, [first, second]⟩
      (state.holding vars pc).machine = some (x, y) := by
    simp only [Call.numbers?, Call.number?_eq hleft', Call.number?_eq hright',
      Value.number?, Option.bind_eq_bind, Option.bind_some]
    rfl
  refine h.sets rfl ?_
  rw [Instruction.result?, hnumbers]
  rfl

theorem hex {x : Double} {byte : Nat}
    (h : engine.CallAt listing .hex ⟨pc, line, keyword, [first, second]⟩)
    (hvalue : vars.get? first = some (.number x))
    (hbyte : x.toByte? = some byte) :
    engine.Leads listing state host vars pc
      (vars.insert second (.string (hexByte byte))) (pc + 1) := by
  have hfound : Call.value? ⟨pc, line, keyword, [first, second]⟩
      (state.holding vars pc).machine 0
      = some (.number x) := hvalue
  refine h.sets rfl ?_
  simp only [Instruction.result?, Call.number?_eq hfound, Value.number?,
    Option.bind_eq_bind, Option.bind_some, hbyte, Option.map_some]

/-- A number that is no byte has no digits. -/
theorem hex_refused {x : Double}
    (h : engine.CallAt listing .hex ⟨pc, line, keyword, [first, second]⟩)
    (hvalue : vars.get? first = some (.number x)) (hbyte : x.toByte? = none) :
    engine.Stops listing (state.holding vars pc, host)
      (state.holding vars pc, host)
      (.error (.runtime ⟨pc, line⟩ (.command keyword (.noByte x)))) := by
  have hfound : (state.holding vars pc).machine.value?
      (Call.argument ⟨pc, line, keyword, [first, second]⟩ 0)
        = some (.number x) := hvalue
  refine h.refused ?_
  simp only [Instruction.action, Operand.number, Operand.value, hfound, bind,
    Except.bind, pure, Except.pure, hbyte, throw, throwThe,
    MonadExceptOf.throw]

/-- A string is appended to a list. -/
theorem append {items : List Text} {text : Text}
    (h : engine.CallAt listing .append ⟨pc, line, keyword, [first, second]⟩)
    (htarget : vars.get? first = some (.list items))
    (hsource : vars.get? second = some (.string text)) :
    engine.Leads listing state host vars pc
      (vars.insert first (.list (items ++ [text]))) (pc + 1) := by
  have htarget' : Call.value? ⟨pc, line, keyword, [first, second]⟩
      (state.holding vars pc).machine 0 = some (.list items) := htarget
  have hsource' : Call.value? ⟨pc, line, keyword, [first, second]⟩
      (state.holding vars pc).machine 1 = some (.string text) := hsource
  refine h.sets rfl ?_
  simp only [Instruction.result?, htarget', hsource', Option.bind_eq_bind,
    Option.bind_some]

theorem increment {n : Nat}
    (h : engine.CallAt listing .increment ⟨pc, line, keyword, [first]⟩)
    (hvalue : vars.get? first = some (.number (.ofNat n)))
    (hn : n < power 2 53) :
    engine.Leads listing state host vars pc
      (vars.insert first (.number (.ofNat (n + 1)))) (pc + 1) := by
  have hfound : Call.value? ⟨pc, line, keyword, [first]⟩
      (state.holding vars pc).machine 0
      = some (.number (.ofNat n)) := hvalue
  refine h.sets rfl ?_
  rw [Instruction.result?, Call.number?_eq hfound, Value.number?,
    Option.map_some, Double.one, Double.add_ofNat hn]

theorem jump {i : Nat}
    (h : engine.CallAt listing .jump ⟨pc, line, keyword, [first]⟩)
    (hlabel : state.machine.labels.get? first = some i) :
    engine.Leads listing state host vars pc vars i := by
  have hfound : (state.holding vars pc).machine.label?
      (Call.argument ⟨pc, line, keyword, [first]⟩ 0) = some i := hlabel
  refine h.goes ?_
  simp only [Instruction.action, Operand.label, hfound]
  rfl

theorem decrement {n : Nat}
    (h : engine.CallAt listing .decrement ⟨pc, line, keyword, [first]⟩)
    (hvalue : vars.get? first = some (.number (.ofNat (n + 1))))
    (hn : n < power 2 53) :
    engine.Leads listing state host vars pc
      (vars.insert first (.number (.ofNat n))) (pc + 1) := by
  have hfound : Call.value? ⟨pc, line, keyword, [first]⟩
      (state.holding vars pc).machine 0
      = some (.number (.ofNat (n + 1))) := hvalue
  refine h.sets rfl ?_
  rw [Instruction.result?, Call.number?_eq hfound, Value.number?,
    Option.map_some, Double.sub_one_ofNat hn]

/-- A branch is taken or passed over. -/
theorem branch {comparison : Comparison} {i : Nat} {taken : Bool}
    (h : engine.CallAt listing (.branch comparison)
      ⟨pc, line, keyword, [first, second, third]⟩)
    (hholds : Instruction.holds comparison ⟨pc, line, keyword,
      [first, second, third]⟩ (state.holding vars pc).machine = .ok taken)
    (hlabel : state.machine.labels.get? third = some i) :
    engine.Leads listing state host vars pc vars
      (if taken then i else pc + 1) := by
  have hfound : (state.holding vars pc).machine.label?
      (Call.argument ⟨pc, line, keyword, [first, second, third]⟩ 2) = some i :=
    hlabel
  refine h.goes ?_
  simp only [Instruction.action, hholds, Operand.label, hfound]
  rfl

/-- One of the branches is taken if two counts are equal. -/
theorem branch_equal {a b i : Nat}
    (h : engine.CallAt listing (.branch .equal)
      ⟨pc, line, keyword, [first, second, third]⟩)
    (hleft : vars.get? first = some (.number (.ofNat a))) (ha : a ≤ power 2 53)
    (hright : vars.get? second = some (.number (.ofNat b)))
    (hb : b ≤ power 2 53) (hlabel : state.machine.labels.get? third = some i) :
    engine.Leads listing state host vars pc vars
      (if a = b then i else pc + 1) := by
  have hleft' : (state.holding vars pc).machine.value?
      (Call.argument ⟨pc, line, keyword, [first, second, third]⟩ 0)
        = some (.number (.ofNat a)) := hleft
  have hright' : (state.holding vars pc).machine.value?
      (Call.argument ⟨pc, line, keyword, [first, second, third]⟩ 1)
        = some (.number (.ofNat b)) := hright
  have hholds : Instruction.holds .equal
      ⟨pc, line, keyword, [first, second, third]⟩
      (state.holding vars pc).machine = .ok (decide (a = b)) := by
    simp only [Instruction.holds, Operand.value, hleft', hright',
      ← Double.same_ofNat ha hb]
    rfl
  have hbranch := h.branch state host hholds hlabel
  simp only [decide_eq_true_eq] at hbranch
  exact hbranch

/-- One is taken if the left count is the greater one. -/
theorem branch_greater {a b i : Nat}
    (h : engine.CallAt listing (.branch .greater)
      ⟨pc, line, keyword, [first, second, third]⟩)
    (hleft : vars.get? first = some (.number (.ofNat a))) (ha : a ≤ power 2 53)
    (hright : vars.get? second = some (.number (.ofNat b)))
    (hb : b ≤ power 2 53) (hlabel : state.machine.labels.get? third = some i) :
    engine.Leads listing state host vars pc vars
      (if b < a then i else pc + 1) := by
  have hleft' : (state.holding vars pc).machine.value?
      (Call.argument ⟨pc, line, keyword, [first, second, third]⟩ 0)
        = some (.number (.ofNat a)) := hleft
  have hright' : (state.holding vars pc).machine.value?
      (Call.argument ⟨pc, line, keyword, [first, second, third]⟩ 1)
        = some (.number (.ofNat b)) := hright
  have hholds : Instruction.holds .greater
      ⟨pc, line, keyword, [first, second, third]⟩
      (state.holding vars pc).machine = .ok (decide (b < a)) := by
    simp only [Instruction.holds, Operand.number, Operand.value, hleft',
      hright', ← Double.lt_ofNat hb ha]
    rfl
  have hbranch := h.branch state host hholds hlabel
  simp only [decide_eq_true_eq] at hbranch
  exact hbranch

end Engine.CallAt

-- ============================================================= reading

namespace Interpreter

variable {interpreter : Interpreter}

/-- Lines that a script is made of are read one by one, by an engine of
the language under the settings by default. -/
theorem reading_unlines (built : interpreter.BuiltFor {}) {lines : List Text}
    (hne : lines ≠ []) (hplain : ∀ line ∈ lines, '\r' ∉ line ∧ '\n' ∉ line) :
    interpreter.reading (Text.unlines lines)
      = standard.engine.readFrom 0 .empty interpreter.state.own lines := by
  have hsettings := built.settings_eq
  have hhook := built.isScript.hook
  have hcommands := built.isScript.commands
  have hseparator : interpreter.engine.settings.separator = none := by
    rw [hsettings]
  have hpieces := Engine.pieces_unlines hseparator hne hplain
  obtain ⟨⟨settings, hook, commands⟩, state⟩ := interpreter
  simp only at hsettings hhook hcommands
  subst hsettings hhook hcommands
  unfold reading Engine.read
  rw [hpieces]
  rfl

/-- A line of which all remains is read as it stands. -/
theorem readLine_of_neutral {line : Text} (hneutral : Line.Neutral line)
    (hkind : Line.classify ['#'] line = .other) (index : Nat)
    (labels : Table Nat) (own : Output) :
    standard.engine.readLine index labels own line
      = (labels, own, .ok line) := by
  have hmarker : standard.engine.settings.marker = ['#'] := rfl
  unfold Engine.readLine
  rw [hmarker, hkind]
  simp only [standard, cutComment]
  rw [hneutral.stripComment?_eq]
  rfl

/-- The state in which the lines of a script with some labels begin to be
carried out. -/
def starting (interpreter : Interpreter) (labels : Table Nat)
    (lineCount : Nat) : State Output :=
  ⟨{ labels := labels, lineCount := lineCount }, interpreter.state.own⟩

/-- How a run of a script ends is how its lines end. -/
theorem runsTo_of_reaches {source : Text} {labels : Table Nat}
    {listing : Listing}
    {host host' host'' : η} {state final : State Output} {verdict : Verdict}
    (hreading : interpreter.reading source
      = ⟨labels, interpreter.state.own, .ok listing.toList⟩)
    (hreaches : Reaches (interpreter.engine.advance? listing)
      ((interpreter.starting labels listing.size).holding .empty 0, host)
      (state, host'))
    (hstops : interpreter.engine.Stops listing (state, host')
      (final, host'') verdict) :
    interpreter.RunsTo source host ⟨interpreter.engine, final⟩ verdict
      host'' := by
  rw [runsTo_iff, hreading]
  exact ⟨rfl, .inr ⟨listing, rfl, _, hreaches, hstops⟩⟩

end Interpreter

end LineScript
