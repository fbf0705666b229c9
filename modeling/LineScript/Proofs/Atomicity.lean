/-
A failure leaves no step half done.

What a start that fails has changed depends on the phase of the failure
alone: nothing when the script is not loaded; only the forgetting of the
last run when it is refused; and when a line fails, exactly what the
steps before that line have done. In the last case the machine is still
at the line, in the state in which it came there.
-/
import LineScript.Proofs.Counter

set_option autoImplicit false

namespace LineScript

variable {η : Type} [Host η]

namespace Interpreter

variable {interpreter after : Interpreter} {settings : Settings}

/-- A script that is refused is refused before its first step. -/
theorem result_runSource_of_refused {source : Text} {failure : Failure}
    (hread : (interpreter.reading source).listing = .error failure)
    (fuel : Nat) (host : η) :
    (interpreter.runSource fuel source).result host
      = (some
        ({ interpreter with state := (interpreter.reading source).state },
          .error failure), host) := by
  unfold reading at hread
  rw [result_runSource, Engine.result_runSource, hread]
  rfl

/-- A failure leaves no step half done. A script that cannot be loaded
leaves everything as it was; one that is refused leaves no variables, and
output and host as they were, without one step being allowed; and a line
that fails leaves the state and the host that the steps before it led to,
with the counter still at that line. -/
theorem start_failure_atomic (built : interpreter.BuiltFor settings)
    {fuel : Nat}
    {start : Start} {host host' : η} {failure : Failure}
    (h : (interpreter.start fuel start).result host
      = (some (after, .error failure), host')) :
    match failure with
    | .configuration _ => False
    | .load _ _ => after = interpreter ∧ host' = host
    | .preprocessing _ _ =>
      after.vars = .empty ∧ after.output = interpreter.output ∧ host' = host
        ∧ (interpreter.start 0 start).result host
          = (some (after, .error failure), host')
    | .decoding site _ | .runtime site _ =>
      ∃ source listing, start.text interpreter.engine host = .ok source
        ∧ interpreter.Visits source host listing (after.state, host')
        ∧ (interpreter.engine.step listing after.state).result host'
            = (.failed after.state failure, host')
        ∧ site.index = after.state.machine.pc := by
  have hstart := result_start interpreter fuel start host
  rw [h] at hstart
  cases htext : start.text interpreter.engine host with
  | error failure' =>
      rw [htext] at hstart
      obtain ⟨path, fault, rfl⟩ := Start.load_of_text htext
      cases hstart
      exact ⟨rfl, rfl⟩
  | ok source =>
      rw [htext] at hstart
      have hrun : interpreter.RunsTo source host after
          (.error failure) host' :=
        ⟨fuel, hstart.symm⟩
      rcases hrun.inv built with ⟨refusal, hread, -, hverdict, -⟩
        | ⟨listing, hvisit, hstop⟩
      · cases hverdict
        obtain ⟨site, name, rfl⟩ := refusal_of_reading built hread
        simp only [result_runSource_of_refused hread] at hstart
        cases hstart
        -- no step is needed to get here, so none was taken
        refine ⟨rfl, ?_, rfl, ?_⟩
        · show (interpreter.reading source).own.lines
            = interpreter.state.own.lines
          rw [own_reading built]
        · rw [result_start, htext]
          exact result_runSource_of_refused hread 0 host
      · obtain ⟨hkind, hline, -, -⟩ :=
          Engine.counter_of_stops built.isScript hstop
          (fits_of_visits built hvisit).1
        have hstep : (interpreter.engine.step listing after.state).result host'
            = (.failed after.state failure, host') := by
          cases hstop with
          | failed hstep => exact hstep
        have hindex : ∀ site, failure.site? = some site →
            site.index = after.state.machine.pc := by
          intro site hsite
          unfold Failure.line? at hline
          rw [hsite] at hline
          exact Nat.succ.inj (Option.some.inj hline)
        rcases hkind with ⟨site, fault, rfl⟩ | ⟨site, fault, rfl⟩
        · exact ⟨source, listing, rfl, hvisit, hstep, hindex site rfl⟩
        · exact ⟨source, listing, rfl, hvisit, hstep, hindex site rfl⟩

/-- For instance, of a script whose third line fails: the variable and
the output of the first two lines are there, and nothing else. -/
theorem start_failure_atomic_of_third_line :
    ∃ fuel after failure listing,
      (standard.start fuel
        (.source "set x, 'a'\necho x\nappend y, x".toList)).result
          (⟨.empty⟩ : MemoryHost) = (some (after, .error failure), ⟨.empty⟩)
        ∧ after.vars.names = ["x".toList] ∧ after.output = ["a".toList]
        ∧ standard.Visits "set x, 'a'\necho x\nappend y, x".toList
          (⟨.empty⟩ : MemoryHost)
            listing (after.state, ⟨.empty⟩)
        ∧ (standard.engine.step listing after.state).result
          (⟨.empty⟩ : MemoryHost)
            = (.failed after.state failure, ⟨.empty⟩)
        ∧ failure.line? = some 3 := by
  have hrun : standard.RunsTo "set x, 'a'\necho x\nappend y, x".toList
      (⟨.empty⟩ : MemoryHost)
      _ (.error _) ⟨.empty⟩ := runsTo_of_stepsWithin rfl 4 rfl
  obtain ⟨fuel, h⟩ := hrun
  have hstart : (standard.start fuel
      (.source "set x, 'a'\necho x\nappend y, x".toList)).result
      (⟨.empty⟩ : MemoryHost) = (some (_, .error _), ⟨.empty⟩) := h
  obtain ⟨source, listing, htext, hvisit, hstep, -⟩ :=
    start_failure_atomic builtFor_standard hstart
  cases htext
  exact ⟨fuel, _, _, listing, h, rfl, rfl, hvisit, hstep, rfl⟩

end Interpreter

end LineScript
