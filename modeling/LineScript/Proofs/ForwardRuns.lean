/-
Scripts without backward jumps always end.

The loop of a run has no bound of its own. It has one if no jump leads
back: then every step increases the counter (`lt_of_advance?`), which is
at most the number of lines, so that the lines that are left are a
measure. What a jump does is known from its text and from the labels
together (`Engine.ForwardOnly`), and a run changes neither. A command that
is no jump goes on at the next line, and the end of the script is behind
all of its lines.

What a run looks at is written down as a list of lines
(`Engine.Itinerary`), one for each turn of the loop. The last test of the
loop, which finds no line, is no turn of it; a line that fails is one.
-/
import LineScript.Proofs.Counter

set_option autoImplicit false

namespace LineScript

open StateTransition

variable {η : Type} [Host η]

/-- The commands with a label among their arguments. -/
theorem Instruction.labelPosition?_isSome_iff {instruction : Instruction} :
    instruction.labelPosition?.isSome = true
      ↔ instruction.keyword ∈ ["goto", "gotog", "gotol", "gotoe"] := by
  cases instruction with
  | branch comparison => cases comparison <;> decide
  | arithmetic operation => cases operation <;> decide
  | bitwise operation => cases operation <;> decide
  | _ => decide

namespace Engine

section

variable {σ : Type}

/-- The indices of the lines that a run looks at from a situation on,
until it stops. -/
inductive Itinerary (engine : Engine σ) (listing : Listing) :
    State σ × η → List Nat → State σ × η → Verdict → Prop
  | ended {here there : State σ × η} {verdict : Verdict}
      (h : engine.Stops listing here there verdict)
      (hend : listing[here.1.machine.pc]? = none) :
      Itinerary engine listing here [] there verdict
  | failed {here there : State σ × η} {verdict : Verdict} {line : Text}
      (h : engine.Stops listing here there verdict)
      (hline : listing[here.1.machine.pc]? = some line) :
      Itinerary engine listing here [here.1.machine.pc] there verdict
  | moved {here next there : State σ × η} {visited : List Nat}
      {verdict : Verdict} (h : engine.advance? listing here = some next)
      (rest : Itinerary engine listing next visited there verdict) :
      Itinerary engine listing here (here.1.machine.pc :: visited)
        there verdict

variable {engine : Engine σ} {listing : Listing} {here there : State σ × η}
  {visited : List Nat} {verdict : Verdict}

/-- A run takes one step for each line that it looks at, and one more to
find the end. -/
theorem Itinerary.result_stepsWithin
    (h : engine.Itinerary listing here visited there verdict) {fuel : Nat}
    (hfuel : visited.length < fuel) :
    (engine.stepsWithin listing fuel here.1).result here.2
      = (some (there.1, verdict), there.2) := by
  induction h generalizing fuel with
  | ended h _ =>
      obtain ⟨fuel, rfl⟩ := Nat.exists_eq_add_one.2 hfuel
      exact h.result_stepsWithin fuel
  | failed h _ =>
      obtain ⟨fuel, rfl⟩ := Nat.exists_eq_add_one.2 (Nat.zero_lt_of_lt hfuel)
      exact h.result_stepsWithin fuel
  | moved h _ ih =>
      obtain ⟨fuel, rfl⟩ := Nat.exists_eq_add_one.2 (Nat.zero_lt_of_lt hfuel)
      rw [result_stepsWithin_succ, advance?_eq_some_iff.1 h]
      exact ih (Nat.lt_of_succ_lt_succ hfuel)

end

-- ======================================================== forward jumps

/-- Every line with a jump, of whichever kind
(`Instruction.labelPosition?_isSome_iff`), names a label that is not there
or is further down. -/
def ForwardOnly (engine : Engine Output) (listing : Listing)
    (labels : Table Nat) : Prop :=
  ∀ (i : Nat) (line keyword : Text) (command : Command Output)
    (arguments : List Text)
    (instruction : Instruction) (position target : Nat),
    listing[i]? = some line →
    engine.decode line = .ok (keyword, command, arguments) →
    instruction.keyword.toList = keyword →
    instruction.labelPosition? = some position →
    labels.get? (arguments.getD position []) = some target → i < target

variable {engine : Engine Output} {listing : Listing}
  {here there : State Output × η}

/-- Where all jumps lead forward, every step does. -/
theorem lt_of_advance? (hs : engine.IsScript)
    (hfit : here.1.machine.Fits listing)
    (hforward : engine.ForwardOnly listing here.1.machine.labels)
    (h : engine.advance? listing here = some there) :
    here.1.machine.pc < listing.size
      ∧ here.1.machine.pc < there.1.machine.pc := by
  rcases advance?_inv hs h with
    ⟨line, hline, -, rfl⟩ | ⟨instruction, call, next, hcall, hnext, rfl⟩
  · exact ⟨lt_size_of_line hline, Nat.lt_succ_self _⟩
  · have hlt := lt_size_of_line hcall.line
    refine ⟨hlt, ?_⟩
    show here.1.machine.pc < next.getD call.next
    rcases next_of_outcome hcall hnext with
      hfollowing | ⟨-, hend⟩ | ⟨position, hposition, hlabel⟩
    · rw [hfollowing]
      exact Nat.lt_succ_self _
    · rw [hend, hfit.lineCount]
      exact hlt
    · exact hforward _ _ _ _ _ _ _ _ hcall.line hcall.decode hcall.keyword
        hposition hlabel

/-- So a run looks at lines further and further down, and stops. -/
theorem exists_itinerary (hs : engine.IsScript) (here : State Output × η)
    (hfit : here.1.machine.Fits listing)
    (hforward : engine.ForwardOnly listing here.1.machine.labels) :
    ∃ visited there verdict,
      engine.Itinerary listing here visited there verdict
      ∧ visited.length ≤ listing.size - here.1.machine.pc
      ∧ (∀ i ∈ visited, here.1.machine.pc ≤ i) ∧ visited.Pairwise (· < ·) := by
  induction hleft : listing.size
    - here.1.machine.pc using Nat.strong_induction_on
    generalizing here with
  | _ left ih =>
      rcases engine.advance?_or_stops listing here with ⟨next, hstep⟩
        | ⟨there, verdict, hstop⟩
      · obtain ⟨hlt, hdown⟩ := lt_of_advance? hs hfit hforward hstep
        have hlabels := labels_of_advance? hs hstep
        obtain ⟨visited, there, verdict, hrest, hlength, hlater, hsorted⟩ :=
          ih (listing.size - next.1.machine.pc) (by omega) next
            (fits_of_advance? hs hstep hfit)
            (by rw [hlabels]; exact hforward) rfl
        refine ⟨_, there, verdict, .moved hstep hrest, ?_, ?_, ?_⟩
        · rw [List.length_cons]
          omega
        · intro i hi
          rcases List.mem_cons.1 hi with rfl | hi
          · exact Nat.le_refl _
          · exact Nat.le_of_lt (Nat.lt_of_lt_of_le hdown (hlater i hi))
        · exact List.pairwise_cons.2
            ⟨fun i hi => Nat.lt_of_lt_of_le hdown (hlater i hi), hsorted⟩
      · cases hline : listing[here.1.machine.pc]? with
        | none =>
            exact ⟨[], there, verdict, .ended hstop hline, Nat.zero_le _,
              fun i hi => absurd hi List.not_mem_nil, List.Pairwise.nil⟩
        | some line =>
            have hlt := lt_size_of_line hline
            refine ⟨_, there, verdict, .failed hstop hline, ?_, ?_,
              List.pairwise_singleton _ _⟩
            · rw [List.length_singleton]
              omega
            · intro i hi
              rw [List.mem_singleton.1 hi]

end Engine

-- ========================================================== whole runs

namespace Interpreter

variable {interpreter : Interpreter} {settings : Settings}

/-- A script that is read has as many lines as it has pieces. -/
theorem size_of_reading {source : Text} {listing : Listing}
    (hread : (interpreter.reading source).listing = .ok listing) :
    listing.size = (interpreter.engine.pieces source).length := by
  obtain ⟨lines, hlines, rfl⟩ := map_eq_ok_iff.1 hread
  exact (Engine.lines_readFrom hlines).1

/-- A script whose jumps all lead forward, or to labels that are not
there, always ends, whatever the settings and the state of the
interpreter: within as many turns of the loop as it has lines, with success
or with a failure. The lines that the run looks at come in their order, so
no line is carried out twice. -/
theorem runSource_forward (built : interpreter.BuiltFor settings)
    {source : Text}
    (hforward : ∀ listing, (interpreter.reading source).listing = .ok listing →
      interpreter.engine.ForwardOnly listing
        (interpreter.reading source).labels)
    (host : η) :
    ∃ after verdict host',
      (interpreter.runSource ((interpreter.engine.pieces source).length + 1)
        source).result host
          = (some (after, verdict), host')
        ∧ ∀ listing, (interpreter.reading source).listing = .ok listing →
            ∃ visited, interpreter.engine.Itinerary listing
                ((interpreter.reading source).state.entering listing, host)
                visited (after.state, host') verdict
              ∧ visited.length ≤ listing.size ∧ visited.Pairwise (· < ·)
              ∧ visited.Nodup := by
  cases hread : (interpreter.reading source).listing with
  | error failure =>
      have hrefused : (interpreter.engine.read source
          interpreter.state.own).listing
          = .error failure := hread
      rw [result_runSource, Engine.result_runSource, hrefused]
      refine ⟨_, _, _, rfl, fun listing hlisting => ?_⟩
      cases hlisting
  | ok listing =>
      obtain ⟨visited, there, verdict, hvisited, hlength, -, hsorted⟩ :=
        Engine.exists_itinerary built.isScript
          ((interpreter.reading source).state.entering listing, host)
          (Engine.fits_entering hread) (hforward listing hread)
      have hbound : visited.length ≤ listing.size :=
        Nat.le_trans hlength (Nat.sub_le _ _)
      have hfuel : visited.length
          < (interpreter.engine.pieces source).length + 1 := by
        rw [← size_of_reading hread]
        exact Nat.lt_succ_of_le hbound
      refine ⟨⟨interpreter.engine, there.1⟩, verdict, there.2,
        result_runSource_of_stepsWithin hread
          (hvisited.result_stepsWithin hfuel),
        fun listing' hlisting => ?_⟩
      cases hlisting
      exact ⟨visited, hvisited, hbound, hsorted, hsorted.imp Nat.ne_of_lt⟩

/-- For instance, a script with a jump over its end: it takes four turns at
most. -/
theorem runSource_forward_of_jump :
    ∃ (after : Interpreter) (verdict : Verdict) (host' : MemoryHost)
      (visited : List Nat),
      (standard.runSource 5 "goto a\nend\n:a\ninc x".toList).result
        (⟨.empty⟩ : MemoryHost)
          = (some (after, verdict), host')
        ∧ visited.length ≤ 4 ∧ visited.Pairwise (· < ·) := by
  have hread : (standard.reading "goto a\nend\n:a\ninc x".toList).listing
      = .ok #["goto a".toList, "end".toList, [], "inc x".toList] := rfl
  have hjump : standard.engine.decode "goto a".toList
      = .ok ("goto".toList, Instruction.jump.command, ["a".toList]) := rfl
  have hend : standard.engine.decode "end".toList
      = .ok ("end".toList, Instruction.stop.command, []) := rfl
  have hempty : ∃ fault, standard.engine.decode [] = .error fault := ⟨_, rfl⟩
  have hinc : standard.engine.decode "inc x".toList
      = .ok ("inc".toList, Instruction.increment.command, ["x".toList]) := rfl
  have hkeyword : ∀ (other : Instruction) {instruction : Instruction},
      instruction.keyword.toList = other.keyword.toList →
      instruction = other :=
    fun _ _ h => Instruction.keyword_injective (String.toList_injective h)
  have hforward : ∀ listing,
      (standard.reading "goto a\nend\n:a\ninc x".toList).listing
        = .ok listing →
        standard.engine.ForwardOnly listing
          (standard.reading "goto a\nend\n:a\ninc x".toList).labels := by
    intro listing hlisting
    rw [hread] at hlisting
    cases hlisting
    intro i line keyword command arguments instruction position target hline
      hdecode hname
      hposition htarget
    match i with
    | 0 =>
        have hraw : some "goto a".toList = some line := hline
        cases hraw
        rw [hjump] at hdecode
        cases hdecode
        cases hkeyword .jump hname
        cases hposition
        cases htarget
        decide
    | 1 =>
        have hraw : some "end".toList = some line := hline
        cases hraw
        rw [hend] at hdecode
        cases hdecode
        cases hkeyword .stop hname
        cases hposition
    | 2 =>
        have hraw : some [] = some line := hline
        cases hraw
        obtain ⟨fault, hempty⟩ := hempty
        rw [hempty] at hdecode
        cases hdecode
    | 3 =>
        have hraw : some "inc x".toList = some line := hline
        cases hraw
        rw [hinc] at hdecode
        cases hdecode
        cases hkeyword .increment hname
        cases hposition
    | i + 4 => cases hline
  obtain ⟨after, verdict, host', hrun, hvisited⟩ :=
    runSource_forward builtFor_standard hforward (⟨.empty⟩ : MemoryHost)
  obtain ⟨visited, -, hlength, hsorted, -⟩ := hvisited _ hread
  exact ⟨after, verdict, host', visited, hrun, hlength, hsorted⟩

end Interpreter

end LineScript
