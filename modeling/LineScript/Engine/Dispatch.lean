/-
Dispatch: carrying out the lines of a listing.

The program counter starts at line zero. A blank line is passed over; a
command line is taken apart and handed to its handler, whose answer is
the next program counter. The run ends when the counter is outside the
listing or at the first failure, with the counter still at the failing
line.

Whether a run ends is not known beforehand, so a run is given a number of
steps (`fuel`) and yields nothing if they do not suffice. More steps never
change what it yields.
-/
import LineScript.Engine.Listing

set_option autoImplicit false

namespace LineScript

variable {σ : Type}

/-- How a run ended. -/
abbrev Verdict := Except Failure Unit

/-- What one step of a run leads to. -/
inductive Progress (σ : Type) where
  /-- The counter is outside the listing. -/
  | finished
  | moved (state : State σ)
  | failed (state : State σ) (failure : Failure)

namespace Engine

/-- A command line taken apart: its keyword, the command, the arguments. -/
def decode (engine : Engine σ) (line : Text) :
    Except DecodingFault (Text × Command σ × List Text) :=
  match Line.splitCommand? line with
  | none => .error .malformed
  | some (keyword, rest) =>
    match engine.commands.get? keyword with
    | none => .error (.unknownCommand keyword)
    | some command =>
      match command.signature.extract rest with
      | .error fault => .error (.arguments keyword fault)
      | .ok arguments => .ok (keyword, command, arguments)

/-- The progress of a state by a handler's reply. -/
def settle (state : State σ) (reply : Reply σ) : Progress σ :=
  let machine := { state.machine with vars := reply.vars }
  match reply.next with
  | .ok pc => .moved ⟨{ machine with pc := pc }, reply.own⟩
  | .error failure => .failed ⟨machine, reply.own⟩ failure

/-- One step: the line at the program counter. -/
def step (engine : Engine σ) (listing : Listing) (state : State σ) :
    Plan (Progress σ) :=
  let pc := state.machine.pc
  match listing[pc]? with
  | none => .done .finished
  | some line =>
    if Text.isAllBlank line then
      .done
        (.moved { state with machine := { state.machine with pc := pc + 1 } })
    else
      match engine.decode line with
      | .error fault => .done (.failed state (.decoding ⟨pc, line⟩ fault))
      | .ok (keyword, command, arguments) => do
        Plan.log (.command pc keyword arguments)
        let reply ←
          command.handler ⟨pc, line, keyword, arguments⟩ state.machine
            state.own
        return settle state reply

/-- Steps until the run ends, at most `fuel` of them. -/
def stepsWithin (engine : Engine σ) (listing : Listing) :
    (fuel : Nat) → State σ → Plan (Option (State σ × Verdict))
  | 0, _ => .done none
  | fuel + 1, state => do
    match ← engine.step listing state with
    | .finished => return some (state, .ok ())
    | .failed state failure => return some (state, .error failure)
    | .moved state => engine.stepsWithin listing fuel state

/-- Carry out a listing from its first line. -/
def interpret (engine : Engine σ) (fuel : Nat) (listing : Listing)
    (state : State σ) : Plan (Option (State σ × Verdict)) :=
  engine.stepsWithin listing fuel
    { state with
      machine := { state.machine with pc := 0, lineCount := listing.size } }

end Engine

end LineScript
