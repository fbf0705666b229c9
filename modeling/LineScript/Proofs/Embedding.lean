/-
Two listings with the same lines, and runs on them.

One listing is embedded in another when each of its lines stands at some
place there, perhaps with other white space at its end, and nothing but
blank lines stands between two neighbours. A run on the one is then a
run on the other: they take the same calls, and differ by the places of
the lines, by the blank lines passed over on the way, and by what had
been put out before.

# The simulation

Two situations run in `Parallel` when the counter, the number of lines
and the labels of the second are the places of those of the first, the
variables and the host are the same, and the output of the second is
that of the first after some earlier output (`base`). A step of the
first is answered by the step of the second and then by as many more as
there are blank lines up to the next place (`Embedding.respects`); a
stop is answered by a stop (`Embedding.stops`). Since the blank lines
are passed over at once, the two counters correspond exactly at every
turn, and both directions, that the second run ends if the first does
and the converse, come from one step lemma (`Embedding.ends`,
`Embedding.ends_rev`).
-/
import LineScript.Proofs.Session

set_option autoImplicit false

namespace LineScript

open StateTransition
open Relation (ReflTransGen TransGen)

variable {η : Type} [Host η]

-- ======================================================== the vocabulary

/-- Nothing but blank lines from one index up to another. -/
def BlankBetween (listing : Listing) (a b : Nat) : Prop :=
  a ≤ b ∧ ∀ i, a ≤ i → i < b →
    ∃ line, listing[i]? = some line ∧ Text.isAllBlank line = true

/-- The lines of one listing in another, each at its place and alike,
with nothing but blank lines in between. Lines that are alike differ at
most by white space at the end. -/
structure Embedding (alike : Text → Text → Prop) (place : Nat → Nat)
    (listing listing' : Listing) : Prop where
  trimEnd : ∀ {line line' : Text}, alike line line' →
    Text.trimEnd line' = Text.trimEnd line
  line : ∀ i, Option.Rel alike listing[i]? listing'[place i]?
  size : place listing.size = listing'.size
  first : BlankBetween listing' 0 (place 0)
  following : ∀ i, i < listing.size →
    BlankBetween listing' (place i + 1) (place (i + 1))

/-- An output after an earlier one. -/
def Output.onto (output base : Output) : Output :=
  ⟨output.newestFirst ++ base.newestFirst⟩

/-- Two situations that differ by the places of the lines that labels
lead to, and by what had been put out before. -/
structure Agree (place : Nat → Nat) (base : Output)
    (here here' : State Output × η) : Prop where
  vars : here'.1.machine.vars = here.1.machine.vars
  labels : ∀ name, here'.1.machine.label? name
    = (here.1.machine.label? name).map place
  own : here'.1.own = here.1.own.onto base
  host : here'.2 = here.2

/-- Two situations of runs that take the same calls. -/
structure Parallel (place : Nat → Nat) (base : Output)
    (here here' : State Output × η) : Prop
    extends Agree place base here here' where
  counter : here'.1.machine.pc = place here.1.machine.pc
  lineCount : here'.1.machine.lineCount = place here.1.machine.lineCount

/-- The same failure at lines that correspond. -/
inductive Failure.Placed (alike : Text → Text → Prop) (place : Nat → Nat) :
    Failure → Failure → Prop
  | preprocessing {index : Nat} {raw raw' : Text} {fault : ListingFault}
      (h : alike raw raw') :
      Placed alike place (.preprocessing ⟨index, raw⟩ fault)
        (.preprocessing ⟨place index, raw'⟩ fault)
  | decoding {index : Nat} {raw raw' : Text} {fault : DecodingFault}
      (h : alike raw raw') :
      Placed alike place (.decoding ⟨index, raw⟩ fault)
        (.decoding ⟨place index, raw'⟩ fault)
  | runtime {index : Nat} {raw raw' : Text} {fault : RuntimeFault}
      (h : alike raw raw') :
      Placed alike place (.runtime ⟨index, raw⟩ fault)
        (.runtime ⟨place index, raw'⟩ fault)

/-- Two results that are related, or one failure at lines that
correspond. -/
inductive ResultPlaced (alike : Text → Text → Prop) (place : Nat → Nat)
    {α : Type} (related : α → α → Prop) :
    Except Failure α → Except Failure α → Prop
  | ok {a a' : α} (h : related a a') :
      ResultPlaced alike place related (.ok a) (.ok a')
  | error {failure failure' : Failure}
      (h : failure.Placed alike place failure') :
      ResultPlaced alike place related (.error failure) (.error failure')

/-- Two readings of scripts that run in parallel. -/
structure Reading.Placed (alike : Text → Text → Prop) (place : Nat → Nat)
    (base : Output) (reading reading' : Reading Output) : Prop where
  labels : ∀ name, reading'.labels.get? name
    = (reading.labels.get? name).map place
  own : reading'.own = reading.own.onto base
  listing : ResultPlaced alike place (Embedding alike place) reading.listing
    reading'.listing

/-- A failure at the place where its line has got to. -/
def Failure.relocate (place : Nat → Nat) : Failure → Failure
  | .preprocessing site fault =>
    .preprocessing { site with index := place site.index } fault
  | .decoding site fault =>
    .decoding { site with index := place site.index } fault
  | .runtime site fault =>
    .runtime { site with index := place site.index } fault
  | failure => failure

theorem Failure.Placed.eq_relocate {place : Nat → Nat}
    {failure failure' : Failure} (h : failure.Placed Eq place failure') :
    failure' = failure.relocate place := by
  cases h with
  | preprocessing hraw => rw [hraw]; rfl
  | decoding hraw => rw [hraw]; rfl
  | runtime hraw => rw [hraw]; rfl

theorem ResultPlaced.eq_relocate {place : Nat → Nat} {α : Type}
    {result result' : Except Failure α}
    (h : ResultPlaced Eq place Eq result result') :
    result' = result.mapError (Failure.relocate place) := by
  cases h with
  | ok hsame => rw [hsame]; rfl
  | error hplaced => rw [hplaced.eq_relocate]; rfl

theorem ResultPlaced.of_error {alike : Text → Text → Prop} {place : Nat → Nat}
    {α : Type} {related : α → α → Prop} {failure : Failure}
    {result : Except Failure α}
    (h : ResultPlaced alike place related (.error failure) result) :
    ∃ failure', result = .error failure'
      ∧ failure.Placed alike place failure' := by
  cases h with
  | error hplaced => exact ⟨_, rfl, hplaced⟩

theorem ResultPlaced.of_ok {alike : Text → Text → Prop} {place : Nat → Nat}
    {α : Type} {related : α → α → Prop} {a : α} {result : Except Failure α}
    (h : ResultPlaced alike place related (.ok a) result) :
    ∃ a', result = .ok a' ∧ related a a' := by
  cases h with
  | ok hrelated => exact ⟨_, rfl, hrelated⟩

theorem ResultPlaced.map {alike : Text → Text → Prop} {place : Nat → Nat}
    {α β : Type} {related : α → α → Prop} {related' : β → β → Prop}
    {f f' : α → β} {result result' : Except Failure α}
    (h : ResultPlaced alike place related result result')
    (hf : ∀ a a', related a a' → related' (f a) (f' a')) :
    ResultPlaced alike place related' (result.map f) (result'.map f') := by
  cases h with
  | ok hrelated => exact .ok (hf _ _ hrelated)
  | error hplaced => exact .error hplaced

theorem ResultPlaced.map_right {alike : Text → Text → Prop} {place : Nat → Nat}
    {α : Type} {related related' : α → α → Prop} {f : α → α}
    {result result' : Except Failure α}
    (h : ResultPlaced alike place related result result')
    (hf : ∀ a a', related a a' → related' a (f a')) :
    ResultPlaced alike place related' result (result'.map f) := by
  cases h with
  | ok hrelated => exact .ok (hf _ _ hrelated)
  | error hplaced => exact .error hplaced

theorem BlankBetween.refl (listing : Listing) (a : Nat) :
    BlankBetween listing a a :=
  ⟨Nat.le_refl a, fun _ hle hlt => absurd hlt (Nat.not_lt.2 hle)⟩

theorem BlankBetween.single {listing : Listing} {a : Nat}
    (h : listing[a]? = some []) :
    BlankBetween listing a (a + 1) := by
  refine ⟨Nat.le_succ a, fun i hle hlt => ⟨[], ?_, rfl⟩⟩
  obtain rfl : i = a := by omega
  exact h

@[simp] theorem Output.onto_empty (output : Output) :
    output.onto .empty = output := by
  obtain ⟨lines⟩ := output
  simp [onto, empty]

@[simp] theorem Output.lines_onto (output base : Output) :
    (output.onto base).lines = base.lines ++ output.lines := by
  simp [lines, onto]

theorem Output.emit?_onto (output base : Output) (line : Option Text) :
    (output.onto base).emit? line = (output.emit? line).onto base := by
  cases line with
  | none => rfl
  | some line => rfl

-- ============================================= lines that are alike

/-- White space at the end does not make a line blank. -/
theorem isAllBlank_eq_of_trimEnd {line line' : Text}
    (h : Text.trimEnd line' = Text.trimEnd line) :
    Text.isAllBlank line' = Text.isAllBlank line := by
  rw [Bool.eq_iff_iff, ← Text.trimEnd_eq_nil_iff, ← Text.trimEnd_eq_nil_iff, h]

/-- White space at the end does not change what a line decodes to. -/
theorem decode_eq_of_trimEnd (engine : Engine Output) {line line' : Text}
    (h : Text.trimEnd line' = Text.trimEnd line) :
    engine.decode line' = engine.decode line := by
  have htrim : Text.trim line' = Text.trim line := by
    unfold Text.trim
    rw [Text.trimEnd_trimStart, Text.trimEnd_trimStart, h]
  have hsplit : Line.splitCommand? line' = Line.splitCommand? line := by
    unfold Line.splitCommand?
    rw [htrim]
  unfold Engine.decode
  rw [hsplit]

-- ===================================================== one call, twice

section Outcomes

variable {place : Nat → Nat} {call call' : Call} {machine machine' : Machine}

theorem label_operand_placed (harguments : call'.arguments = call.arguments)
    (hlabels : ∀ name, machine'.label? name = (machine.label? name).map place)
    (position : Nat) :
    Operand.label call' machine' position
      = (Operand.label call machine position).map place := by
  have hargument : call'.argument position = call.argument position := by
    unfold Call.argument
    rw [harguments]
  unfold Operand.label
  rw [hargument, hlabels]
  cases machine.label? (call.argument position) with
  | none => rfl
  | some index => rfl

theorem holds_eq (harguments : call'.arguments = call.arguments)
    (hvars : machine'.vars = machine.vars) (comparison : Comparison) :
    Instruction.holds comparison call' machine'
      = Instruction.holds comparison call machine := by
  obtain ⟨pc, line, keyword, arguments⟩ := call
  obtain ⟨pc', line', keyword', arguments'⟩ := call'
  obtain ⟨vars, labels, counter, lineCount⟩ := machine
  obtain ⟨vars', labels', counter', lineCount'⟩ := machine'
  subst harguments hvars
  cases comparison with
  | greater => rfl
  | less => rfl
  | equal => rfl

/-- Where the two runs go on after a call: at places that correspond, or
both at the following line. -/
def NextPlaced (place : Nat → Nat) (call call' : Call) :
    Except CommandFault (Option Nat) → Except CommandFault (Option Nat) → Prop
  | .error fault, next' => next' = .error fault
  | .ok next, next' => ∃ index, next' = .ok index
      ∧ (index.getD call'.next = place (next.getD call.next)
        ∨ (next.getD call.next = call.next
          ∧ index.getD call'.next = call'.next))

/-- One call has one outcome in both runs, up to the places of lines. -/
theorem outcome_placed (instruction : Instruction) (host : η)
    (harguments : call'.arguments = call.arguments)
    (hvars : machine'.vars = machine.vars)
    (hlabels : ∀ name, machine'.label? name = (machine.label? name).map place)
    (hlineCount : machine'.lineCount = place machine.lineCount) :
    (instruction.outcome call' machine' host).vars
      = (instruction.outcome call machine host).vars
      ∧ (instruction.outcome call' machine' host).echoed
          = (instruction.outcome call machine host).echoed
      ∧ (instruction.outcome call' machine' host).host
          = (instruction.outcome call machine host).host
      ∧ NextPlaced place call call'
        (instruction.outcome call machine host).next
          (instruction.outcome call' machine' host).next := by
  cases hsteers : instruction.steers with
  | false =>
      -- the action is the same, and it goes to no line
      have haction :=
        Instruction.action_eq_of_not_steers hsteers harguments hvars
      have houtcome : instruction.outcome call' machine' host
          = instruction.outcome call machine host := by
        unfold Instruction.outcome
        rw [haction, hvars]
      rw [houtcome]
      refine ⟨rfl, rfl, rfl, ?_⟩
      cases hnext : (instruction.outcome call machine host).next with
      | error fault => exact rfl
      | ok next =>
          cases next with
          | none => exact ⟨none, rfl, .inr ⟨rfl, rfl⟩⟩
          | some index =>
              exact absurd (Instruction.action_of_outcome_goTo hnext)
                (Instruction.action_ne_goTo hsteers)
  | true =>
      -- a branch that is not taken is the one case with no place to go to
      have hlabel := label_operand_placed harguments hlabels
      cases instruction with
      | jump =>
          simp only [Instruction.outcome, Instruction.action, hlabel 0]
          cases Operand.label call machine 0 with
          | error fault => exact ⟨hvars, rfl, rfl, rfl⟩
          | ok index =>
              exact ⟨hvars, rfl, rfl, some (place index), rfl, .inl rfl⟩
      | branch comparison =>
          simp only [Instruction.outcome, Instruction.action, hlabel 2,
            holds_eq harguments hvars comparison]
          cases Instruction.holds comparison call machine with
          | error fault => exact ⟨hvars, rfl, rfl, rfl⟩
          | ok taken =>
              cases Operand.label call machine 2 with
              | error fault => exact ⟨hvars, rfl, rfl, rfl⟩
              | ok index =>
                  cases taken with
                  | true =>
                      exact ⟨hvars, rfl, rfl, some (place index),
                        rfl, .inl rfl⟩
                  | false =>
                      exact ⟨hvars, rfl, rfl, some call'.next, rfl,
                        .inr ⟨rfl, rfl⟩⟩
      | stop =>
          exact ⟨hvars, rfl, rfl, some machine'.lineCount, rfl,
            .inl hlineCount⟩
      | _ => cases hsteers

end Outcomes

-- ================================================== passing over blanks

namespace Engine

variable {engine : Engine Output} {listing : Listing}

/-- A run passes over blank lines and changes nothing else. -/
theorem reaches_over_blank {state : State Output} (host : η) {b : Nat}
    (h : BlankBetween listing state.machine.pc b) :
    Reaches (engine.advance? listing) (state, host)
      (state.goingTo b, host) := by
  obtain ⟨hle, hblank⟩ := h
  induction b with
  | zero =>
      have hzero : state.machine.pc = 0 := Nat.le_zero.1 hle
      have hsame : state.goingTo 0 = state := by
        rw [← hzero]
        rfl
      rw [hsame]
      exact .refl
  | succ b ih =>
      by_cases hhere : state.machine.pc = b + 1
      · have hsame : state.goingTo (b + 1) = state := by
          rw [← hhere]
          rfl
        rw [hsame]
        exact .refl
      · have hle' : state.machine.pc ≤ b := by omega
        have hbefore :=
          ih hle' fun i hi hlt => hblank i hi (Nat.lt_succ_of_lt hlt)
        obtain ⟨line, hline, hlineBlank⟩ := hblank b hle' (Nat.lt_succ_self b)
        have hstep : engine.advance? listing (state.goingTo b, host)
            = some (state.goingTo (b + 1), host) :=
          advance?_eq_some_iff.2 (result_step_of_blank host hline hlineBlank)
        exact hbefore.tail hstep

/-- How a run ends does not depend on where on its way it is taken up. -/
theorem ends_of_reaches {here next there : State Output × η}
    {verdict : Verdict} (h : Reaches (engine.advance? listing) here next) :
    engine.Ends listing here there verdict
      ↔ engine.Ends listing next there verdict := by
  constructor
  · rintro ⟨last, hreach, hstop⟩
    have hlast : last ∈ eval (engine.advance? listing) next := by
      rw [← reaches_eval h]
      exact mem_eval.2 ⟨hreach, hstop.advance?_eq_none⟩
    exact ⟨last, (mem_eval.1 hlast).1, hstop⟩
  · rintro ⟨last, hreach, hstop⟩
    exact ⟨last, h.trans hreach, hstop⟩

end Engine

-- ========================================================= the simulation

namespace Embedding

variable {alike : Text → Text → Prop} {place : Nat → Nat}
  {listing listing' : Listing} {engine : Engine Output} {base : Output}

/-- At the place of a line there is a line that is alike. -/
theorem line_of (e : Embedding alike place listing listing') {i : Nat}
    {line : Text} (h : listing[i]? = some line) :
    ∃ line', listing'[place i]? = some line' ∧ alike line line' := by
  have hrel := e.line i
  rw [h] at hrel
  cases hline : listing'[place i]? with
  | none =>
      rw [hline] at hrel
      cases hrel
  | some line' =>
      rw [hline] at hrel
      cases hrel with
      | some halike => exact ⟨line', rfl, halike⟩

/-- Where the one listing has no line, the other has none. -/
theorem none_of (e : Embedding alike place listing listing') {i : Nat}
    (h : listing[i]? = none) : listing'[place i]? = none := by
  have hrel := e.line i
  rw [h] at hrel
  cases hline : listing'[place i]? with
  | none => rfl
  | some line' =>
      rw [hline] at hrel
      cases hrel

/-- A call in the one listing is a call in the other. -/
theorem calls_of (e : Embedding alike place listing listing')
    {state state' : State Output} {instruction : Instruction} {call : Call}
    (hcall : engine.Calls listing state instruction call)
    (hcounter : state'.machine.pc = place state.machine.pc) :
    ∃ call', engine.Calls listing' state' instruction call'
      ∧ call'.arguments = call.arguments ∧ call'.keyword = call.keyword
      ∧ alike call.line call'.line := by
  obtain ⟨line', hline', halike⟩ := e.line_of hcall.line
  refine ⟨⟨place state.machine.pc, line', call.keyword, call.arguments⟩,
    ⟨hcounter.symm, ?_, ?_, ?_, hcall.keyword⟩, rfl, rfl, halike⟩
  · rw [hcounter]
    exact hline'
  · show Text.isAllBlank line' = false
    rw [isAllBlank_eq_of_trimEnd (e.trimEnd halike)]
    exact hcall.notBlank
  · show engine.decode line' = _
    rw [decode_eq_of_trimEnd engine (e.trimEnd halike)]
    exact hcall.decode

/-- After a line the other run passes over blank lines up to the next
place. -/
theorem reaches_following (e : Embedding alike place listing listing')
    {i : Nat} {line : Text} (hline : listing[i]? = some line)
    (state : State Output) (host : η)
    (hcounter : state.machine.pc = place i + 1) :
    Reaches (engine.advance? listing') (state, host)
      (state.goingTo (place (i + 1)), host) := by
  obtain ⟨hi, -⟩ := Array.getElem?_eq_some_iff.1 hline
  have hblank := e.following i hi
  rw [← hcounter] at hblank
  exact Engine.reaches_over_blank host hblank

/-- A step of the one run that goes on is answered by the other: by one
step, and by passing over the blank lines up to the next place. -/
theorem moves (e : Embedding alike place listing listing')
    (hs : engine.IsScript) {here here' there : State Output × η}
    (hparallel : Parallel place base here here')
    (hstep : engine.advance? listing here = some there) :
    ∃ there', Parallel place base there there'
      ∧ Reaches₁ (engine.advance? listing') here' there' := by
  rcases Engine.advance?_inv hs hstep with
    ⟨line, hline, hblank, rfl⟩ | ⟨instruction, call, next, hcall, hnext, rfl⟩
  · obtain ⟨line', hline', halike⟩ := e.line_of hline
    rw [← hparallel.counter] at hline'
    have hblank' : Text.isAllBlank line' = true := by
      rw [isAllBlank_eq_of_trimEnd (e.trimEnd halike)]
      exact hblank
    have hstep' : engine.advance? listing' here'
        = some (here'.1.goingTo (here'.1.machine.pc + 1), here'.2) :=
      Engine.advance?_eq_some_iff.2
        (Engine.result_step_of_blank here'.2 hline' hblank')
    have hfollow : Reaches (engine.advance? listing')
        (here'.1.goingTo (here'.1.machine.pc + 1), here'.2)
        (here'.1.goingTo (place (here.1.machine.pc + 1)), here'.2) :=
      e.reaches_following hline _ here'.2 (congrArg (· + 1) hparallel.counter)
    exact ⟨(here'.1.goingTo (place (here.1.machine.pc + 1)), here'.2),
      ⟨⟨hparallel.vars, hparallel.labels, hparallel.own, hparallel.host⟩, rfl,
        hparallel.lineCount⟩, TransGen.head' hstep' hfollow⟩
  · obtain ⟨call', hcall', harguments, -, -⟩ :=
      e.calls_of hcall hparallel.counter
    obtain ⟨hvars, hechoed, hhost, hplaced⟩ :=
      outcome_placed instruction here.2 harguments hparallel.vars
        hparallel.labels hparallel.lineCount
    rw [hnext] at hplaced
    obtain ⟨next', hnext', hwhere⟩ := hplaced
    have hstep' : engine.advance? listing' here'
        = some
          ((instruction.outcome call' here'.1.machine here.2).after here'.1
            (next'.getD call'.next),
          (instruction.outcome call' here'.1.machine here.2).host) := by
      rw [Engine.advance?_eq_some_iff, hparallel.host,
        hcall'.result_step, hnext']
    -- whatever line the two are going to, all else corresponds
    have hafter : ∀ {pc pc' : Nat}, pc' = place pc →
        Parallel place base
          ((instruction.outcome call here.1.machine here.2).after here.1 pc,
            (instruction.outcome call here.1.machine here.2).host)
          ((instruction.outcome call' here'.1.machine here.2).after
            here'.1 pc',
            (instruction.outcome call' here'.1.machine here.2).host) := by
      intro pc pc' hpc
      refine ⟨⟨hvars, hparallel.labels, ?_, hhost⟩, hpc, hparallel.lineCount⟩
      show here'.1.own.emit? _ = (here.1.own.emit? _).onto base
      rw [hparallel.own, hechoed, Output.emit?_onto]
    rcases hwhere with hjump | ⟨hfollowing, hfollowing'⟩
    · exact ⟨_, hafter hjump, TransGen.single hstep'⟩
    · have hcounter' : next'.getD call'.next
          = place here.1.machine.pc + 1 := by
        rw [hfollowing', Call.next, hcall'.pc, hparallel.counter]
      have hfollow : Reaches (engine.advance? listing')
          ((instruction.outcome call' here'.1.machine here.2).after here'.1
              (next'.getD call'.next),
            (instruction.outcome call' here'.1.machine here.2).host)
          ((instruction.outcome call' here'.1.machine here.2).after here'.1
              (place (here.1.machine.pc + 1)),
            (instruction.outcome call' here'.1.machine here.2).host) :=
        e.reaches_following hcall.line _ _ hcounter'
      refine ⟨_, hafter ?_, TransGen.head' hstep' hfollow⟩
      rw [hfollowing, Call.next, hcall.pc]

/-- A stop of the one run is answered by a stop of the other. -/
theorem stops (e : Embedding alike place listing listing')
    (hs : engine.IsScript) {here here' there : State Output × η}
    {verdict : Verdict} (hparallel : Parallel place base here here')
    (hstop : engine.Stops listing here there verdict) :
    ∃ verdict', engine.Stops listing' here' here' verdict'
      ∧ ResultPlaced alike place Eq verdict verdict' := by
  obtain ⟨-, ⟨hnone, rfl⟩ | ⟨line, fault, hline, hblank, hdecode, rfl⟩ |
    ⟨instruction, call, fault, hcall, hrefused, rfl⟩⟩ :=
  Engine.stops_inv hs hstop
  · have hnone' := e.none_of hnone
    rw [← hparallel.counter] at hnone'
    exact ⟨.ok (),
      .finished (Engine.result_step_of_none here'.2 hnone'), .ok rfl⟩
  · obtain ⟨line', hline', halike⟩ := e.line_of hline
    rw [← hparallel.counter] at hline'
    have hblank' : Text.isAllBlank line' = false := by
      rw [isAllBlank_eq_of_trimEnd (e.trimEnd halike)]
      exact hblank
    have hdecode' : engine.decode line' = .error fault := by
      rw [decode_eq_of_trimEnd engine (e.trimEnd halike)]
      exact hdecode
    refine ⟨_, .failed
      (Engine.result_step_of_undecoded here'.2 hline' hblank' hdecode'), ?_⟩
    rw [hparallel.counter]
    exact .error (.decoding halike)
  · obtain ⟨call', hcall', harguments, hkeyword, halike⟩ :=
      e.calls_of hcall hparallel.counter
    obtain ⟨-, -, -, hplaced⟩ := outcome_placed instruction here.2 harguments
      hparallel.vars hparallel.labels hparallel.lineCount
    rw [hrefused] at hplaced
    have hrefused' : (instruction.outcome call' here'.1.machine here'.2).next
        = .error fault := by
      rw [hparallel.host]
      exact hplaced
    have hstep' := hcall'.result_step here'.2
    rw [hrefused', Instruction.outcome_of_error hrefused'] at hstep'
    refine ⟨_, .failed hstep', .error ?_⟩
    unfold Call.failure
    rw [hcall'.pc, hkeyword, hparallel.counter, hcall.pc]
    exact .runtime halike

/-- The two machines refine one another. -/
theorem respects (e : Embedding alike place listing listing')
    (hs : engine.IsScript) (base : Output) :
    Respects (engine.advance? listing) (engine.advance? listing')
      (Parallel place base : State Output × η → State Output × η → Prop) := by
  intro here here' hparallel
  rcases Engine.advance?_or_stops engine listing here with ⟨there, hstep⟩
    | ⟨there, verdict, hstop⟩
  · rw [hstep]
    exact e.moves hs hparallel hstep
  · obtain ⟨verdict', hstop', -⟩ := e.stops hs hparallel hstop
    rw [hstop.advance?_eq_none]
    exact hstop'.advance?_eq_none

-- ============================================================ whole runs

/-- If the one run ends, so does the other, in the same way. -/
theorem ends (e : Embedding alike place listing listing')
    (hs : engine.IsScript) {here here' there : State Output × η}
    {verdict : Verdict} (hparallel : Parallel place base here here')
    (h : engine.Ends listing here there verdict) :
    ∃ there' verdict', engine.Ends listing' here' there' verdict'
      ∧ Parallel place base there there'
      ∧ ResultPlaced alike place Eq verdict verdict' := by
  obtain ⟨last, hreach, hstop⟩ := h
  obtain ⟨last', hlast, hreach'⟩ :=
    tr_reaches (e.respects hs base) hparallel hreach
  obtain ⟨verdict', hstop', hverdict⟩ := e.stops hs hlast hstop
  obtain ⟨rfl, -⟩ := Engine.stops_inv hs hstop
  exact ⟨last', verdict', ⟨last', hreach', hstop'⟩, hlast, hverdict⟩

/-- If the other run ends, so does the one. -/
theorem ends_rev (e : Embedding alike place listing listing')
    (hs : engine.IsScript) {here here' there' : State Output × η}
    {verdict' : Verdict} (hparallel : Parallel place base here here')
    (h : engine.Ends listing' here' there' verdict') :
    ∃ there verdict, engine.Ends listing here there verdict := by
  -- the other run comes to its stop by way of the one, which has stopped
  -- there too
  obtain ⟨last', hreach', hstop'⟩ := h
  obtain ⟨last, -, hlast⟩ := tr_eval_rev (e.respects hs base) hparallel
    (mem_eval.2 ⟨hreach', hstop'.advance?_eq_none⟩)
  obtain ⟨hreach, hnone⟩ := mem_eval.1 hlast
  rcases Engine.advance?_or_stops engine listing last with ⟨next, hstep⟩
    | ⟨there, verdict, hstop⟩
  · rw [hstep] at hnone
    cases hnone
  · exact ⟨there, verdict, last, hreach, hstop⟩

/-- Two runs begin in parallel, when the blank lines in front of the
first place are passed over. -/
theorem starts (e : Embedding alike place listing listing')
    (engine : Engine Output) {reading reading' : Reading Output}
    (hreading : reading.Placed alike place base reading') (host : η) :
    ∃ here', Reaches (engine.advance? listing')
      (reading'.state.entering listing', host) here'
      ∧ Parallel place base (reading.state.entering listing, host) here' :=
  ⟨((reading'.state.entering listing').goingTo (place 0), host),
    Engine.reaches_over_blank host e.first,
    ⟨rfl, hreading.labels, hreading.own, rfl⟩, rfl, e.size.symm⟩

end Embedding

namespace Interpreter

variable {alike : Text → Text → Prop} {place : Nat → Nat} {base : Output}
  {a b : Interpreter} {settings : Settings} {source source' : Text}

/-- Interpreters for the same settings have the same engine. -/
theorem BuiltFor.engine_eq (ha : a.BuiltFor settings)
    (hb : b.BuiltFor settings) :
    b.engine = a.engine :=
  Except.ok.inj (hb.symm.trans ha)

/-- Where a run leads, the run that is parallel to it leads as well. A
script that is refused leaves the counter at zero in both. -/
theorem RunsTo.placed (ha : a.BuiltFor settings) (hb : b.BuiltFor settings)
    (hreading : (a.reading source).Placed alike place base (b.reading source'))
    {after : Interpreter} {verdict : Verdict} {host host' : η}
    (h : a.RunsTo source host after verdict host') :
    ∃ after' verdict', b.RunsTo source' host after' verdict' host'
      ∧ Agree place base (after.state, host') (after'.state, host')
      ∧ (Parallel place base (after.state, host') (after'.state, host')
        ∨ (after.state = (a.reading source).state
          ∧ after'.state = (b.reading source').state))
      ∧ ResultPlaced alike place Eq verdict verdict' := by
  have hengine := ha.engine_eq hb
  have hlisting := hreading.listing
  obtain ⟨-, ⟨failure, hread, hstate, rfl, rfl⟩ | ⟨listing, hread, hends⟩⟩ :=
    runsTo_iff.1 h
  · rw [hread] at hlisting
    obtain ⟨failure', hread', hplaced⟩ := hlisting.of_error
    refine ⟨⟨b.engine, (b.reading source').state⟩, .error failure',
      runsTo_iff.2 ⟨rfl, .inl ⟨failure', hread', rfl, rfl, rfl⟩⟩, ?_,
      .inr ⟨hstate, rfl⟩, .error hplaced⟩
    rw [hstate]
    exact ⟨rfl, hreading.labels, hreading.own, rfl⟩
  · rw [hread] at hlisting
    obtain ⟨listing', hread', e⟩ := hlisting.of_ok
    obtain ⟨here', hreach, hparallel⟩ := e.starts b.engine hreading host
    rw [← hengine] at hends
    obtain ⟨⟨state', hostAfter⟩, verdict', hends', hthere, hverdict⟩ :=
      e.ends hb.isScript hparallel hends
    obtain rfl : hostAfter = host' := hthere.host
    exact ⟨⟨b.engine, state'⟩, verdict',
      runsTo_iff.2 ⟨rfl, .inr ⟨listing', hread',
      (Engine.ends_of_reaches hreach).2 hends'⟩⟩, hthere.toAgree,
      .inl hthere, hverdict⟩

/-- A run ends if the run that is parallel to it ends. -/
theorem RunsTo.placed_rev (ha : a.BuiltFor settings) (hb : b.BuiltFor settings)
    (hreading : (a.reading source).Placed alike place base (b.reading source'))
    {after' : Interpreter} {verdict' : Verdict} {host host' : η}
    (h : b.RunsTo source' host after' verdict' host') :
    ∃ after verdict host'', a.RunsTo source host after verdict host'' := by
  have hengine := ha.engine_eq hb
  have hlisting := hreading.listing
  cases hread : (a.reading source).listing with
  | error failure =>
      exact ⟨⟨a.engine, (a.reading source).state⟩, .error failure, host,
        runsTo_iff.2 ⟨rfl, .inl ⟨failure, hread, rfl, rfl, rfl⟩⟩⟩
  | ok listing =>
      rw [hread] at hlisting
      obtain ⟨listing', hread', e⟩ := hlisting.of_ok
      obtain ⟨-, ⟨failure', hrefused, -⟩ | ⟨entered, hentered, hends'⟩⟩ :=
        runsTo_iff.1 h
      · rw [hread'] at hrefused
        cases hrefused
      · obtain rfl : listing' = entered :=
          Except.ok.inj (hread'.symm.trans hentered)
        obtain ⟨here', hreach, hparallel⟩ := e.starts b.engine hreading host
        obtain ⟨there, verdict, hends⟩ :=
          e.ends_rev hb.isScript hparallel
            ((Engine.ends_of_reaches hreach).1 hends')
        rw [hengine] at hends
        exact ⟨⟨a.engine, there.1⟩, verdict, there.2,
          runsTo_iff.2 ⟨rfl, .inr ⟨listing, hread, hends⟩⟩⟩

end Interpreter

end LineScript
