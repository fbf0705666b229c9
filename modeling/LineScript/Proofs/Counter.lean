/-
Safety of the program counter.

A run is at most at the end of its lines, at every turn of its loop, and
a jump always lands on the empty line that its label left behind. The
invariant (`Machine.Fits`) couples the counter with the label table: a
jump is safe because labels lead into the listing, and labels lead into
the listing because table and listing come from one reading of the
script. A run changes neither, so the coupling is made once, when the
first line is about to be looked at (`fits_entering`), and every step
keeps it (`fits_of_advance?`).

The counter of a run that is complete is the number of lines exactly,
and that of a run that failed is the place of the failure.
-/
import LineScript.Proofs.Session
import LineScript.Host.Memory

set_option autoImplicit false

namespace LineScript

open StateTransition

variable {η : Type} [Host η]

-- ========================================================= the invariant

/-- The counter and the labels of a machine fit a listing: the counter is
at a line or at the end, and each label is at an empty line of its own. -/
structure Machine.Fits (machine : Machine) (listing : Listing) : Prop where
  lineCount : machine.lineCount = listing.size
  counter : machine.pc ≤ machine.lineCount
  label : ∀ {name : Text} {i : Nat}, machine.label? name = some i →
    i < machine.lineCount ∧ listing[i]? = some []
  distinct : ∀ {name name' : Text} {i : Nat}, machine.label? name = some i →
    machine.label? name' = some i → name = name'

/-- A line that is there has an index below the size. -/
theorem lt_size_of_line {listing : Listing} {i : Nat} {line : Text}
    (h : listing[i]? = some line) : i < listing.size := by
  obtain ⟨hi, -⟩ := Array.getElem?_eq_some_iff.1 h
  exact hi

/-- Variables and counter may change, as long as the counter stays. -/
theorem Machine.Fits.moved {machine : Machine} {listing : Listing}
    (hfit : machine.Fits listing) (vars : Table Value) {pc : Nat}
    (hpc : pc ≤ machine.lineCount) :
    ({ machine with vars := vars, pc := pc } : Machine).Fits listing :=
  ⟨hfit.lineCount, hpc, hfit.label, hfit.distinct⟩

namespace Engine

variable {engine : Engine Output} {listing : Listing}

/-- Before the first line the labels fit the lines that they were read
with. -/
theorem fits_entering {source : Text} {own : Output}
    (hlisting : (engine.read source own).listing = .ok listing) :
    ((engine.read source own).state.entering listing).machine.Fits
      listing := by
  refine ⟨rfl, Nat.zero_le _, ?_, ?_⟩
  · intro name i hlabel
    have hempty := listing_of_label hlisting hlabel
    exact ⟨lt_size_of_line hempty, hempty⟩
  · intro name name' i hlabel hlabel'
    exact label_unique hlabel hlabel'

/-- Where a call that succeeds goes on: at the following line, at the end
if it is the end command, or at the label that its operand names. -/
theorem next_of_outcome {state : State Output} {instruction : Instruction}
    {call : Call} {host : η} {next : Option Nat}
    (hcall : engine.Calls listing state instruction call)
    (hnext : (instruction.outcome call state.machine host).next = .ok next) :
    next.getD call.next = state.machine.pc + 1
      ∨ (instruction = .stop ∧ next.getD call.next = state.machine.lineCount)
      ∨ ∃ position, instruction.labelPosition? = some position
          ∧ state.machine.label? (call.argument position)
            = some (next.getD call.next) := by
  have hfollowing : call.next = state.machine.pc + 1 := by
    rw [Call.next, hcall.pc]
  cases next with
  | none => exact .inl hfollowing
  | some index =>
      rcases Instruction.action_goTo
        (Instruction.action_of_outcome_goTo hnext) with
        ⟨hstop, hindex⟩ | ⟨position, hposition, hindex | hlabel⟩
      · exact .inr (.inl ⟨hstop, hindex⟩)
      · exact .inl (hindex.trans hfollowing)
      · exact .inr (.inr ⟨position, hposition, hlabel⟩)

/-- A step keeps counter and labels fitting. -/
theorem fits_of_advance? (hs : engine.IsScript) {here there : State Output × η}
    (h : engine.advance? listing here = some there)
    (hfit : here.1.machine.Fits listing) :
    there.1.machine.Fits listing := by
  rcases advance?_inv hs h with
    ⟨line, hline, -, rfl⟩ | ⟨instruction, call, next, hcall, hnext, rfl⟩
  · have hlt := lt_size_of_line hline
    rw [← hfit.lineCount] at hlt
    exact hfit.moved here.1.machine.vars hlt
  · refine hfit.moved _ ?_
    have hlt := lt_size_of_line hcall.line
    rw [← hfit.lineCount] at hlt
    rcases next_of_outcome hcall hnext with
      hfollowing | ⟨-, hend⟩ | ⟨position, -, hlabel⟩
    · rw [hfollowing]
      exact hlt
    · rw [hend]
    · exact Nat.le_of_lt (hfit.label hlabel).1

/-- A step leaves the labels alone. -/
theorem labels_of_advance? (hs : engine.IsScript)
    {here there : State Output × η}
    (h : engine.advance? listing here = some there) :
    there.1.machine.labels = here.1.machine.labels := by
  rcases advance?_inv hs h with ⟨line, -, -, rfl⟩
    | ⟨instruction, call, next, -, -, rfl⟩
  · rfl
  · rfl

/-- A run keeps counter and labels fitting, and leaves the labels alone. -/
theorem fits_of_reaches (hs : engine.IsScript) {start here : State Output × η}
    (h : Reaches (engine.advance? listing) start here)
    (hfit : start.1.machine.Fits listing) :
    here.1.machine.Fits listing
      ∧ here.1.machine.labels = start.1.machine.labels := by
  induction h with
  | refl => exact ⟨hfit, rfl⟩
  | tail _ hstep ih =>
      exact ⟨fits_of_advance? hs hstep ih.1,
        (labels_of_advance? hs hstep).trans ih.2⟩

/-- A run stops at the end of the lines, or at the line that fails, with
a failure of the decoding or of the command. -/
theorem counter_of_stops (hs : engine.IsScript) {here there : State Output × η}
    {verdict : Verdict} (h : engine.Stops listing here there verdict)
    (hfit : here.1.machine.Fits listing) :
    match verdict with
    | .ok () => here.1.machine.pc = here.1.machine.lineCount
    | .error failure =>
      ((∃ site fault, failure = .decoding site fault)
        ∨ ∃ site fault, failure = .runtime site fault)
        ∧ failure.line? = some (here.1.machine.pc + 1)
        ∧ here.1.machine.pc + 1 ≤ here.1.machine.lineCount
        ∧ failure.raw? = listing[here.1.machine.pc]? := by
  obtain ⟨-, ⟨hnone, rfl⟩ | ⟨line, fault, hline, -, -, rfl⟩ |
    ⟨instruction, call, fault, hcall, -, rfl⟩⟩ := stops_inv hs h
  · have hge : listing.size ≤ here.1.machine.pc :=
      Array.getElem?_eq_none_iff.1 hnone
    have hcounter := hfit.counter
    have hsize := hfit.lineCount
    show here.1.machine.pc = here.1.machine.lineCount
    omega
  · refine ⟨.inl ⟨_, fault, rfl⟩, rfl, ?_, hline.symm⟩
    rw [hfit.lineCount]
    exact lt_size_of_line hline
  · refine ⟨.inr ⟨_, _, rfl⟩, ?_, ?_, hcall.line.symm⟩
    · show some (call.pc + 1) = some (here.1.machine.pc + 1)
      rw [hcall.pc]
    · rw [hfit.lineCount]
      exact lt_size_of_line hcall.line

end Engine

-- ========================================================== whole runs

namespace Interpreter

variable {interpreter : Interpreter} {settings : Settings}

/-- What a run looks at fits its lines, and its labels are those read. -/
theorem fits_of_visits (built : interpreter.BuiltFor settings) {source : Text}
    {host : η} {listing : Listing} {here : State Output × η}
    (h : interpreter.Visits source host listing here) :
    here.1.machine.Fits listing
      ∧ here.1.machine.labels = (interpreter.reading source).labels :=
  Engine.fits_of_reaches built.isScript h.2 (Engine.fits_entering h.1)

/-- Where a command goes on that a run comes to and that succeeds: at the
following line, at the end if it is the end command, or at the line of
the script that defines the label in its operand. -/
theorem next_of_visits (built : interpreter.BuiltFor settings)
    {source : Text} {host : η}
    {listing : Listing} {here : State Output × η}
    (h : interpreter.Visits source host listing here) {line keyword : Text}
    {command : Command Output} {arguments : List Text}
    (hline : listing[here.1.machine.pc]? = some line)
    (hblank : Text.isAllBlank line = false)
    (hdecode : interpreter.engine.decode line
      = .ok (keyword, command, arguments)) {next : Nat}
    (hnext : ((command.handler ⟨here.1.machine.pc, line, keyword, arguments⟩
      here.1.machine here.1.own).result here.2).1.next = .ok next) :
    ∃ instruction : Instruction, instruction.keyword.toList = keyword
      ∧ (next = here.1.machine.pc + 1
        ∨ (instruction = .stop ∧ next = here.1.machine.lineCount)
        ∨ ∃ position raw, instruction.labelPosition? = some position
            ∧ (interpreter.engine.pieces source)[next]? = some raw
            ∧ Line.classify settings.marker raw
              = .label (arguments.getD position [])) := by
  obtain ⟨instruction, hkeyword, rfl⟩ :=
    built.isScript.exists_instruction (Engine.get?_of_decode hdecode)
  refine ⟨instruction, hkeyword, ?_⟩
  have hcall : interpreter.engine.Calls listing here.1 instruction
      ⟨here.1.machine.pc, line, keyword, arguments⟩ :=
    ⟨rfl, hline, hblank, hdecode, hkeyword⟩
  simp only [Instruction.command, Instruction.result_handler,
    Outcome.reply] at hnext
  split at hnext
  next index hindex =>
    cases hnext
    rcases Engine.next_of_outcome hcall hindex with
      hfollowing | hend | ⟨position, hposition, hlabel⟩
    · exact .inl hfollowing
    · exact .inr (.inl hend)
    · unfold Machine.label? at hlabel
      rw [(fits_of_visits built h).2] at hlabel
      obtain ⟨raw, hraw, hclass⟩ := Engine.piece_of_label hlabel
      rw [built.settings_eq] at hclass
      exact .inr (.inr ⟨position, raw, hposition, hraw, hclass⟩)
  next => cases hnext

/-- Safety of the program counter. At every turn of the loop of a run the
counter is at most the number of lines, and each label is at an empty
line of its own. A command that succeeds goes on at the following line,
at the end if it is the end command, or at the line of the script that
defines the label in its operand. A run that is complete has come to the
end, with the counter at the number of lines; one that fails while it
carries out lines has come to the line that the failure shows, and the
counter is at it. -/
theorem runSource_counter_safe (built : interpreter.BuiltFor settings)
    (source : Text) (host : η) :
    (∀ listing here, interpreter.Visits source host listing here →
      here.1.machine.Fits listing
        ∧ ∀ line keyword command arguments,
          listing[here.1.machine.pc]? = some line →
            Text.isAllBlank line = false →
            interpreter.engine.decode line
              = .ok (keyword, command, arguments) →
            ∀ next, ((command.handler
                ⟨here.1.machine.pc, line, keyword, arguments⟩
                here.1.machine here.1.own).result here.2).1.next = .ok next →
              ∃ instruction : Instruction, instruction.keyword.toList = keyword
                ∧ (next = here.1.machine.pc + 1
                  ∨ (instruction = .stop ∧ next = here.1.machine.lineCount)
                  ∨ ∃ position raw, instruction.labelPosition? = some position
                      ∧ (interpreter.engine.pieces source)[next]? = some raw
                      ∧ Line.classify settings.marker raw
                          = .label (arguments.getD position [])))
      ∧ ∀ after verdict host',
        interpreter.RunsTo source host after verdict host' →
          match verdict with
          | .ok () =>
            ∃ listing,
              interpreter.Visits source host listing (after.state, host')
              ∧ after.state.machine.pc = after.state.machine.lineCount
          | .error failure =>
            ∀ listing, (interpreter.reading source).listing = .ok listing →
              interpreter.Visits source host listing (after.state, host')
                ∧ ((∃ site fault, failure = .decoding site fault)
                  ∨ ∃ site fault, failure = .runtime site fault)
                ∧ failure.line? = some (after.state.machine.pc + 1)
                ∧ after.state.machine.pc + 1 ≤ after.state.machine.lineCount
                ∧ failure.raw? = listing[after.state.machine.pc]? := by
  constructor
  · intro listing here hvisit
    refine ⟨(fits_of_visits built hvisit).1, ?_⟩
    intro line keyword command arguments hline hblank hdecode next hnext
    exact next_of_visits built hvisit hline hblank hdecode hnext
  · intro after verdict host' hrun
    rcases hrun.inv built with ⟨failure, hread, -, rfl, -⟩
      | ⟨listing, hvisit, hstop⟩
    · intro listing hlisting
      rw [hread] at hlisting
      cases hlisting
    · have hcounter := Engine.counter_of_stops built.isScript hstop
        (fits_of_visits built hvisit).1
      cases verdict with
      | ok => exact ⟨listing, hvisit, hcounter⟩
      | error failure =>
          intro listing' hlisting'
          rw [hvisit.1] at hlisting'
          cases hlisting'
          exact ⟨hvisit, hcounter⟩

/-- For instance, of a script that jumps over its end and fails in its
last line: the jump is to the line with the label. -/
theorem runSource_counter_safe_of_jump :
    ∃ listing here after failure,
      standard.Visits "goto a\nend\n:a\ninc x".toList (⟨.empty⟩ : MemoryHost)
        listing here
        ∧ here.1.machine.Fits listing
        ∧ (∃ raw,
            (standard.engine.pieces "goto a\nend\n:a\ninc x".toList)[2]?
              = some raw
            ∧ Line.classify ['#'] raw = .label "a".toList)
        ∧ standard.RunsTo "goto a\nend\n:a\ninc x".toList
          (⟨.empty⟩ : MemoryHost) after (.error failure) ⟨.empty⟩
        ∧ failure.line? = some (after.state.machine.pc + 1)
        ∧ after.state.machine.pc + 1 = after.state.machine.lineCount := by
  obtain ⟨hturns, hends⟩ := runSource_counter_safe builtFor_standard
    "goto a\nend\n:a\ninc x".toList (⟨.empty⟩ : MemoryHost)
  obtain ⟨hfit, hnext⟩ := hturns _ _ ⟨rfl, .refl⟩
  obtain ⟨-, -, hline, -, -⟩ :=
    hends _ _ _ (runsTo_of_stepsWithin rfl 5 rfl) _ rfl
  refine ⟨_, _, _, _, ⟨rfl, .refl⟩, hfit, ?_,
    runsTo_of_stepsWithin rfl 5 rfl, hline, rfl⟩
  obtain ⟨instruction, hkeyword, hwhere⟩ :=
    hnext "goto a".toList "goto".toList Instruction.jump.command ["a".toList]
      rfl rfl rfl 2 rfl
  obtain rfl : instruction = .jump :=
    Instruction.keyword_injective (String.toList_injective hkeyword)
  rcases hwhere with hfollowing | ⟨-, hend⟩
    | ⟨position, raw, hposition, hraw, hclass⟩
  · cases hfollowing
  · cases hend
  · cases hposition
    exact ⟨raw, hraw, hclass⟩

end Interpreter

end LineScript
