/-
Runs do not depend on what was run before.

What an interpreter has done before shows in its state: in variables, in
labels and counters that a failed run left behind, and in the lines put
out. A run forgets all but the last, and the lines put out only ever
have more lines put behind them. So every run is compared with the run
of one interpreter, the one that the settings build (`renewed`): the two
readings are in the same places (`placed_reading`), and the simulation
does the rest, since in it the earlier output is a parameter.

Histories are of any length (`Reached`): runs however started, complete
or failed, on whatever files there were at the time, and between them
variables set and output taken.
-/
import LineScript.Proofs.Embedding
import LineScript.Host.Memory

set_option autoImplicit false

namespace LineScript

variable {η : Type}

-- ============================================ everything at its own place

/-- A listing is embedded in itself. -/
theorem Embedding.refl (listing : Listing) :
    Embedding Eq id listing listing where
  trimEnd h := by rw [h]
  line i := by
    cases h : listing[i]? with
    | none =>
        show Option.Rel Eq none listing[i]?
        rw [h]
        exact .none
    | some line =>
        show Option.Rel Eq (some line) listing[i]?
        rw [h]
        exact .some rfl
  size := rfl
  first := .refl listing 0
  following i _ := .refl listing (i + 1)

/-- A failure at the same line is the same failure. -/
theorem Failure.relocate_id (failure : Failure) :
    failure.relocate id = failure := by
  cases failure with
  | _ => rfl

theorem ResultPlaced.eq {α : Type} {result result' : Except Failure α}
    (h : ResultPlaced Eq id Eq result result') : result' = result := by
  rw [h.eq_relocate]
  cases result with
  | ok value => rfl
  | error failure => exact congrArg Except.error failure.relocate_id

/-- With everything at its own place, the machines are the same. -/
theorem Parallel.machine_eq {base : Output} {here here' : State Output × η}
    (h : Parallel id base here here') : here'.1.machine = here.1.machine := by
  have hlabels : here'.1.machine.labels = here.1.machine.labels := by
    apply Table.ext
    intro name
    have hname := h.labels name
    rw [Option.map_id_apply] at hname
    exact hname
  have hvars := h.vars
  have hcounter := h.counter
  have hlineCount := h.lineCount
  obtain ⟨⟨⟨vars, labels, pc, lineCount⟩, own⟩, host⟩ := here
  obtain ⟨⟨⟨vars', labels', pc', lineCount'⟩, own'⟩, host'⟩ := here'
  simp only [id_eq] at hlabels hvars hcounter hlineCount
  rw [hlabels, hvars, hcounter, hlineCount]

@[simp] theorem Output.empty_onto (base : Output) :
    Output.empty.onto base = base := rfl

namespace Interpreter

variable [Host η]

-- ============================================================= histories

/-- What a history of calls can have made of an interpreter. -/
inductive Reached (η : Type) [Host η] (settings : Settings) :
    Interpreter → Prop
  | built {interpreter : Interpreter}
      (h : ofSettings settings = .ok interpreter) :
      Reached η settings interpreter
  | started {interpreter after : Interpreter} {fuel : Nat} {start : Start}
      {verdict : Verdict}
      {host host' : η} (before : Reached η settings interpreter)
      (h : (interpreter.start fuel start).result host
        = (some (after, verdict), host')) :
      Reached η settings after
  | assigned {interpreter : Interpreter}
      (before : Reached η settings interpreter)
      (name : Text)
      (value : Value) : Reached η settings (interpreter.assign name value)
  | taken {interpreter : Interpreter}
      (before : Reached η settings interpreter) :
      Reached η settings interpreter.takeOutput.2

variable {interpreter after : Interpreter} {settings : Settings}

/-- The interpreter as it was before its first run. -/
def renewed (interpreter : Interpreter) : Interpreter :=
  ⟨interpreter.engine, { own := .empty }⟩

theorem ofSettings_renewed (built : interpreter.BuiltFor settings) :
    ofSettings settings = .ok interpreter.renewed := by
  unfold ofSettings
  rw [built]
  rfl

theorem builtFor_of_ofSettings (h : ofSettings settings = .ok interpreter) :
    interpreter.BuiltFor settings := by
  obtain ⟨engine, hengine, h⟩ := bind_eq_ok_iff.1 h
  cases h
  exact hengine

/-- Starting a script leaves the engine alone. -/
theorem engine_of_start {fuel : Nat} {start : Start} {verdict : Verdict}
    {host host' : η}
    (h : (interpreter.start fuel start).result host
      = (some (after, verdict), host')) :
    after.engine = interpreter.engine := by
  rw [result_start] at h
  split at h
  next =>
    cases h
    rfl
  next =>
    have hrun : interpreter.RunsTo _ host after verdict host' := ⟨fuel, h⟩
    exact (runsTo_iff.1 hrun).1

theorem Reached.builtFor (h : Reached η settings interpreter) :
    interpreter.BuiltFor settings := by
  induction h with
  | built h => exact builtFor_of_ofSettings h
  | started _ h ih =>
      unfold BuiltFor
      rw [engine_of_start h]
      exact ih
  | assigned _ name value ih => exact ih
  | taken _ ih => exact ih

-- ======================================================= one run, renewed

/-- A script is read as if nothing had been run before. -/
theorem reading_eq_renewed (built : interpreter.BuiltFor settings)
    (source : Text) :
    interpreter.reading source
      = { interpreter.renewed.reading source with
          own := interpreter.state.own } :=
  Engine.readFrom_own built.isScript .empty interpreter.state.own _ 0 .empty

/-- The two readings put everything in the same place. -/
theorem placed_reading (built : interpreter.BuiltFor settings)
    (source : Text) :
    (interpreter.renewed.reading source).Placed Eq id interpreter.state.own
      (interpreter.reading source) := by
  have hread := reading_eq_renewed built source
  have built' : interpreter.renewed.BuiltFor settings := built
  have hown : (interpreter.renewed.reading source).own = .empty :=
    own_reading built' source
  refine ⟨?_, ?_, ?_⟩
  · intro name
    rw [hread, Option.map_id_apply]
  · rw [hread, hown, Output.empty_onto]
  · rw [hread]
    show ResultPlaced Eq id (Embedding Eq id) _
      (interpreter.renewed.reading source).listing
    cases hlisting : (interpreter.renewed.reading source).listing with
    | ok listing => exact .ok (Embedding.refl listing)
    | error failure =>
        obtain ⟨site, name, rfl⟩ := refusal_of_reading built' hlisting
        exact .error (.preprocessing rfl)

/-- A run is the run of the interpreter as it was built, after what had
been put out before. -/
theorem RunsTo.renewed (built : interpreter.BuiltFor settings) {source : Text}
    {verdict : Verdict} {host host' : η}
    (h : interpreter.RunsTo source host after verdict host') :
    ∃ fresh, interpreter.renewed.RunsTo source host fresh verdict host'
      ∧ after.state.machine = fresh.state.machine
      ∧ after.output = interpreter.output ++ fresh.output := by
  have built' : interpreter.renewed.BuiltFor settings := built
  have hreading := placed_reading built source
  obtain ⟨fresh, verdict', hostAfter, hfresh⟩ :=
    RunsTo.placed_rev built' built hreading h
  obtain ⟨after', verdict'', hafter, hagree, hmachine, hverdict⟩ :=
    hfresh.placed built' built hreading
  obtain ⟨rfl, rfl, rfl⟩ := h.unique hafter
  rw [hverdict.eq]
  refine ⟨fresh, hfresh, ?_, ?_⟩
  · rcases hmachine with hparallel | ⟨hstate, hstate'⟩
    · exact hparallel.machine_eq
    · rw [hstate', hstate, reading_eq_renewed built]
      rfl
  · show after.state.own.lines
      = interpreter.state.own.lines ++ fresh.state.own.lines
    have hown : after.state.own = fresh.state.own.onto interpreter.state.own :=
      hagree.own
    rw [hown, Output.lines_onto]

/-- If the interpreter as it was built ends a run, so does the one that
has a history. -/
theorem RunsTo.of_renewed (built : interpreter.BuiltFor settings)
    {source : Text} {fresh : Interpreter} {verdict : Verdict} {host host' : η}
    (h : interpreter.renewed.RunsTo source host fresh verdict host') :
    ∃ after, interpreter.RunsTo source host after verdict host' := by
  have built' : interpreter.renewed.BuiltFor settings := built
  obtain ⟨after, verdict', hafter, -, -, hverdict⟩ :=
    h.placed built' built (placed_reading built source)
  rw [hverdict.eq] at hafter
  exact ⟨after, hafter⟩

variable {source : Text} {host : η} {first : Interpreter}

/-- Every history begins with the interpreter that the settings build. -/
theorem Reached.renewed_eq (h : Reached η settings interpreter)
    (hfirst : ofSettings settings = .ok first) : interpreter.renewed = first :=
  Except.ok.inj ((ofSettings_renewed h.builtFor).symm.trans hfirst)

/-- After any history a run ends as it ends without one. -/
theorem Reached.runs_like_first (h : Reached η settings interpreter)
    (hfirst : ofSettings settings = .ok first) {fresh : Interpreter}
    {verdict : Verdict} {host' : η}
    (hfresh : first.RunsTo source host fresh verdict host') :
    (∃ after verdict host', interpreter.RunsTo source host after verdict host')
      ∧ ∀ after v host₁, interpreter.RunsTo source host after v host₁ →
          v = verdict ∧ host₁ = host'
            ∧ after.state.machine = fresh.state.machine
            ∧ after.output = interpreter.output ++ fresh.output := by
  have hrenewed := h.renewed_eq hfirst
  subst hrenewed
  constructor
  · obtain ⟨after, hafter⟩ := hfresh.of_renewed h.builtFor
    exact ⟨after, verdict, host', hafter⟩
  · intro after v host₁ hafter
    obtain ⟨fresh', hfresh', hmachine, houtput⟩ := hafter.renewed h.builtFor
    obtain ⟨rfl, rfl, rfl⟩ := hfresh.unique hfresh'
    exact ⟨rfl, rfl, hmachine, houtput⟩

/-- Runs are independent of history. Of two interpreters with the same
settings, whatever was run on them before, a script's run ends on both
or on neither, on the same files with the same verdict, the same machine
and the same files afterwards; and the lines that it puts out depend on
settings, files and script alone. -/
theorem runs_independent_of_history (settings : Settings) (source : Text)
    (host : η) :
    ∃ echoed : List Text, ∀ a b : Interpreter, Reached η settings a →
      Reached η settings b →
      ((∃ after verdict host', a.RunsTo source host after verdict host')
          ↔ ∃ after verdict host', b.RunsTo source host after verdict host')
        ∧ ∀ after after' verdict verdict' host₁ host₂,
            a.RunsTo source host after verdict host₁ →
            b.RunsTo source host after' verdict' host₂ →
            verdict' = verdict ∧ host₂ = host₁
              ∧ after'.state.machine = after.state.machine
              ∧ after.output = a.output ++ echoed
              ∧ after'.output = b.output ++ echoed := by
  by_cases hends : ∃ first fresh verdict host', ofSettings settings = .ok first
      ∧ first.RunsTo source host fresh verdict host'
  · -- both put out what the interpreter that the settings build puts out
    obtain ⟨first, fresh, verdict, host', hfirst, hfresh⟩ := hends
    refine ⟨fresh.output, fun a b ha hb => ?_⟩
    obtain ⟨hendsA, hlikeA⟩ := ha.runs_like_first hfirst hfresh
    obtain ⟨hendsB, hlikeB⟩ := hb.runs_like_first hfirst hfresh
    refine ⟨⟨fun _ => hendsB, fun _ => hendsA⟩, ?_⟩
    intro after after' v v' host₁ host₂ hafter hafter'
    obtain ⟨rfl, rfl, hmachine, houtput⟩ := hlikeA after v host₁ hafter
    obtain ⟨rfl, rfl, hmachine', houtput'⟩ := hlikeB after' v' host₂ hafter'
    exact ⟨rfl, rfl, hmachine'.trans hmachine.symm, houtput, houtput'⟩
  · -- that one never ends, so neither do the two
    have hnever : ∀ a after verdict host', Reached η settings a →
        ¬ a.RunsTo source host after verdict host' := by
      intro a after verdict host' ha hafter
      obtain ⟨fresh, hfresh, -, -⟩ := hafter.renewed ha.builtFor
      exact hends ⟨a.renewed, fresh, verdict, host',
        ofSettings_renewed ha.builtFor, hfresh⟩
    refine ⟨[], fun a b ha hb => ⟨⟨?_, ?_⟩, ?_⟩⟩
    · rintro ⟨after, verdict, host', hafter⟩
      exact absurd hafter (hnever a after verdict host' ha)
    · rintro ⟨after, verdict, host', hafter⟩
      exact absurd hafter (hnever b after verdict host' hb)
    · intro after after' verdict verdict' host₁ host₂ hafter
      exact absurd hafter (hnever a after verdict host₁ ha)

/-- For instance, after a run that failed and left a variable, a label
and a line of output behind, of a script that reads the variable: it
finds none, as on the interpreter as it was built. -/
theorem runs_independent_of_history_of_failed_run :
    ∃ (b after after' : Interpreter) (failure : Failure) (echoed : List Text),
      b.vars.names = ["y".toList] ∧ b.label? "l".toList = some 1
        ∧ b.output = ["b".toList]
        ∧ standard.RunsTo "echo y".toList (⟨.empty⟩ : MemoryHost) after
          (.error failure) ⟨.empty⟩
        ∧ b.RunsTo "echo y".toList (⟨.empty⟩ : MemoryHost) after'
          (.error failure) ⟨.empty⟩
        ∧ after'.state.machine = after.state.machine
        ∧ after.output = echoed ∧ after'.output = ["b".toList] ++ echoed := by
  have hfailed : standard.RunsTo "set y, 'b'\n:l\necho y\nboom".toList
      (⟨.empty⟩ : MemoryHost)
      _ (.error _) ⟨.empty⟩ := runsTo_of_stepsWithin rfl 5 rfl
  have hrun : standard.RunsTo "echo y".toList (⟨.empty⟩ : MemoryHost) _
      (.error _) ⟨.empty⟩ :=
    runsTo_of_stepsWithin rfl 2 rfl
  have ha : Reached MemoryHost {} standard := .built rfl
  obtain ⟨fuel, h⟩ := hfailed
  have hstart : (standard.start fuel
      (.source "set y, 'b'\n:l\necho y\nboom".toList)).result
      (⟨.empty⟩ : MemoryHost) = (some (_, .error _), ⟨.empty⟩) := h
  obtain ⟨echoed, hindependent⟩ :=
    runs_independent_of_history {} "echo y".toList (⟨.empty⟩ : MemoryHost)
  obtain ⟨hends, hlike⟩ := hindependent standard _ ha (.started ha hstart)
  obtain ⟨after', verdict', host', hrun'⟩ := hends.1 ⟨_, _, _, hrun⟩
  obtain ⟨rfl, rfl, hmachine, houtput, houtput'⟩ :=
    hlike _ _ _ _ _ _ hrun hrun'
  exact ⟨_, _, after', _, echoed, rfl, rfl, rfl, hrun, hrun', hmachine,
    houtput, houtput'⟩

end Interpreter

end LineScript
