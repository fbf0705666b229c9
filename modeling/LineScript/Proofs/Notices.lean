/-
What is reported while a script runs, and that the lines put out are the
lines reported as echoed.

The notices of a plan on a host are those of its parts in order
(`Plan.notices_bind`), as its result is that of its parts. Lines are put
out by one command, which reports each line at the time. So the lines
that a state holds after any number of steps are those that it held
before, and behind them the lines echoed in these steps
(`Engine.lines_of_stepsWithin`). Nothing is lost if the run fails: a
state that a run fails in holds what was echoed up to the failure.
-/
import LineScript.Proofs.Preparation
import LineScript.Proofs.Session

set_option autoImplicit false

namespace LineScript

variable {η : Type} [Host η]

-- ============================================================== notices

namespace Plan

variable {α β : Type}

/-- The notices on the way when a plan is carried out on a host. -/
def notices : Plan α → η → List Notice
  | .done _, _ => []
  | .isFile path next, host => (next (Host.isFile host path)).notices host
  | .read path next, host => (next (Host.read host path)).notices host
  | .write path contents next, host =>
    match Host.write host path contents with
    | .ok host => (next (.ok ())).notices host
    | .error fault => (next (.error fault)).notices host
  | .report notice next, host => notice :: (next ()).notices host

/-- Notices are collected on top of earlier ones. -/
theorem resultOnto_eq_notices (plan : Plan α) (host : η)
    (earlier : List Notice) :
    plan.resultOnto host earlier
      = ((plan.result host).1, (plan.result host).2,
        (plan.notices host).reverse ++ earlier) := by
  induction plan generalizing host earlier with
  | done value => rfl
  | isFile path answer ih => exact ih _ host earlier
  | read path answer ih => exact ih _ host earlier
  | write path contents answer ih =>
      simp only [resultOnto, result, notices]
      cases Host.write host path contents with
      | ok host' => exact ih _ host' earlier
      | error fault => exact ih _ host earlier
  | report notice answer ih =>
      simp only [resultOnto, result, notices, ih, List.reverse_cons,
        List.append_assoc, List.singleton_append]

theorem resultNoted_eq (plan : Plan α) (host : η) :
    plan.resultNoted host
      = ((plan.result host).1, (plan.result host).2, plan.notices host) := by
  simp only [resultNoted, resultOnto_eq_notices, List.append_nil,
    List.reverse_reverse]

/-- The notices of plans that are carried out one after the other. -/
@[simp] theorem notices_bind (plan : Plan α) (next : α → Plan β) (host : η) :
    (plan.bind next).notices host
      = plan.notices host
        ++ (next (plan.result host).1).notices (plan.result host).2 := by
  induction plan generalizing host with
  | done value => rfl
  | isFile path answer ih => exact ih _ host
  | read path answer ih => exact ih _ host
  | write path contents answer ih =>
      simp only [bind, result, notices]
      cases Host.write host path contents with
      | ok host' => exact ih _ host'
      | error fault => exact ih _ host
  | report notice answer ih => exact congrArg (notice :: ·) (ih () host)

@[simp] theorem notices_done (value : α) (host : η) :
    (done value).notices host = [] := rfl

@[simp] theorem notices_askIsFile (path : Text) (host : η) :
    (askIsFile path).notices host = [] :=
  rfl

@[simp] theorem notices_askRead (path : Text) (host : η) :
    (askRead path).notices host = [] := rfl

@[simp] theorem notices_askWrite (path contents : Text) (host : η) :
    (askWrite path contents).notices host = [] := by
  simp only [askWrite, notices]
  cases Host.write host path contents with
  | ok host' => rfl
  | error fault => rfl

@[simp] theorem notices_log (event : Event) (host : η) :
    (log event).notices host = [.event event] := rfl

@[simp] theorem notices_logAll (events : List Event) (host : η) :
    (logAll events).notices host = events.map .event := by
  induction events with
  | nil => rfl
  | cons event events ih => exact congrArg (Notice.event event :: ·) ih

@[simp] theorem notices_complainAll (lines : List String) (host : η) :
    (complainAll lines).notices host = lines.map .complaint := by
  induction lines with
  | nil => rfl
  | cons line lines ih => exact congrArg (Notice.complaint line :: ·) ih

end Plan

-- ========================================================= lines echoed

/-- The line that a notice reports as echoed. -/
def Notice.echoed? : Notice → Option Text
  | .event (.echoed line) => some line
  | _ => none

/-- The lines that notices report as echoed, in order. -/
def echoedLines (notices : List Notice) : List Text :=
  notices.filterMap Notice.echoed?

@[simp] theorem echoedLines_nil : echoedLines [] = [] := rfl

@[simp] theorem echoedLines_append (a b : List Notice) :
    echoedLines (a ++ b) = echoedLines a ++ echoedLines b :=
  List.filterMap_append

/-- An action puts out the line that it reports as echoed. -/
theorem lines_of_perform (action : Action) (call : Call) (machine : Machine)
    (output : Output) (host : η) :
    ((action.perform call machine output).result host).1.own.lines
      = output.lines ++ echoedLines
        ((action.perform call machine output).notices host) := by
  cases action with
  | assign name value => exact (List.append_nil _).symm
  | emit line => exact Output.lines_emit output line
  | goTo index => exact (List.append_nil _).symm
  | readFile path target =>
      simp only [Action.perform, Plan.bind_eq, Plan.result_bind,
        Plan.result_askIsFile, Plan.notices_bind, Plan.notices_askIsFile,
        List.nil_append]
      by_cases hfile : Host.isFile host path = true
      · simp only [hfile, if_true, Plan.result_bind, Plan.result_askRead,
          Plan.notices_bind, Plan.notices_askRead, List.nil_append]
        cases Host.read host path with
        | ok contents => exact (List.append_nil _).symm
        | error fault => exact (List.append_nil _).symm
      · simp only [hfile]
        exact (List.append_nil _).symm
  | writeFile path contents =>
      simp only [Action.perform, Plan.bind_eq, Plan.result_bind,
        Plan.result_askWrite, Plan.notices_bind, Plan.notices_askWrite,
        List.nil_append]
      cases Host.write host path contents with
      | ok host' => exact (List.append_nil _).symm
      | error fault => exact (List.append_nil _).symm

theorem lines_of_handler (instruction : Instruction) (call : Call)
    (machine : Machine) (output : Output) (host : η) :
    ((instruction.handler call machine output).result host).1.own.lines
      = output.lines
        ++ echoedLines
          ((instruction.handler call machine output).notices host) := by
  unfold Instruction.handler
  cases instruction.action call machine with
  | ok action => exact lines_of_perform action call machine output host
  | error fault => exact (List.append_nil _).symm

/-- The state that a step leads to. -/
def Progress.stateAfter (before : State Output) :
    Progress Output → State Output
  | .finished => before
  | .moved state => state
  | .failed state _ => state

namespace Engine

variable {engine : Engine Output} {listing : Listing}

/-- A step adds the lines that it echoes, whether it goes on or not. -/
theorem lines_of_step (hs : engine.IsScript) (listing : Listing)
    (state : State Output) (host : η) :
    (((engine.step listing state).result host).1.stateAfter state).own.lines
      = state.own.lines ++ echoedLines
        ((engine.step listing state).notices host) := by
  rcases hs.at_counter listing state with
    hnone | ⟨line, hline, hblank⟩ | ⟨line, fault, hline, hblank, hdecode⟩
      | ⟨i, call, hcall⟩
  · simp only [step, hnone, Plan.result_done, Plan.notices_done,
      Progress.stateAfter, echoedLines_nil, List.append_nil]
  · simp only [step, hline, hblank, if_true, Plan.result_done,
      Plan.notices_done, Progress.stateAfter, echoedLines_nil, List.append_nil]
  · simp only [step, hline, hblank, hdecode, Bool.false_eq_true, if_false,
      Plan.result_done, Plan.notices_done, Progress.stateAfter,
      echoedLines_nil, List.append_nil]
  · have hhandler :=
      lines_of_handler i
        ⟨state.machine.pc, call.line, call.keyword, call.arguments⟩
      state.machine state.own host
    simp only [step, hcall.line, hcall.notBlank, hcall.decode,
      Bool.false_eq_true, if_false, Plan.bind_eq, Plan.result_bind,
      Plan.result_log, Plan.notices_bind, Plan.notices_log, Plan.pure_eq_done,
      Plan.result_done, Plan.notices_done, List.append_nil, echoedLines_append]
    refine Eq.trans ?_ hhandler
    simp only [Instruction.command, settle]
    cases (((i.handler
      ⟨state.machine.pc, call.line, call.keyword, call.arguments⟩ state.machine
      state.own).result host).1).next with
    | ok pc => rfl
    | error failure => rfl

/-- Steps add the lines that they echo, however the run ends. -/
theorem lines_of_stepsWithin (hs : engine.IsScript) {fuel : Nat}
    {state final : State Output}
    {host : η} {verdict : Verdict}
    (h : ((engine.stepsWithin listing fuel state).result host).1
      = some (final, verdict)) :
    final.own.lines
      = state.own.lines ++ echoedLines
        ((engine.stepsWithin listing fuel state).notices host) := by
  induction fuel generalizing state host with
  | zero =>
      rw [stepsWithin, Plan.result_done] at h
      cases h
  | succ fuel ih =>
      have hstep := lines_of_step hs listing state host
      simp only [stepsWithin, Plan.bind_eq, Plan.result_bind,
        Plan.notices_bind] at h ⊢
      generalize (engine.step listing state).notices host = noted at *
      rcases hprogress : (engine.step listing state).result
        host with ⟨progress, host'⟩
      rw [hprogress] at h hstep
      cases progress with
      | finished =>
          cases h
          simpa [Progress.stateAfter] using hstep
      | failed state' failure =>
          cases h
          simpa [Progress.stateAfter] using hstep
      | moved state' =>
          have hrest := ih h
          rw [hrest]
          simp only [Progress.stateAfter] at hstep
          rw [hstep, echoedLines_append, List.append_assoc]

/-- The same of a listing that is carried out from its first line. -/
theorem lines_of_interpret (hs : engine.IsScript) {fuel : Nat}
    {state final : State Output}
    {host : η} {verdict : Verdict}
    (h : ((engine.interpret fuel listing state).result host).1
      = some (final, verdict)) :
    final.own.lines
      = state.own.lines ++ echoedLines
        ((engine.interpret fuel listing state).notices host) :=
  lines_of_stepsWithin hs h

/-- Nothing is echoed while a script is prepared. -/
theorem echoedLines_preprocess (engine : Engine Output) (text : Text)
    (state : State Output) (host : η) :
    echoedLines ((engine.preprocess text state).notices host) = [] := by
  have hlabels : ∀ labels,
      echoedLines ((labelEvents labels).map .event) = [] := by
    intro labels
    unfold labelEvents echoedLines
    rw [List.filterMap_eq_nil_iff]
    intro notice hnotice
    obtain ⟨event, hevent, rfl⟩ := List.mem_map.1 hnotice
    obtain ⟨entry, -, rfl⟩ := List.mem_map.1 hevent
    rfl
  simp only [preprocess, Plan.bind_eq, Plan.notices_bind, Plan.notices_log,
    Plan.notices_logAll, Plan.pure_eq_done, Plan.notices_done, List.append_nil,
    echoedLines_append, hlabels]
  rfl

/-- A run of a script's text adds the lines that it echoes, however it
ends. -/
theorem lines_of_runSource (hs : engine.IsScript) {fuel : Nat} {source : Text}
    {state final : State Output} {host : η} {verdict : Verdict}
    (h : ((engine.runSource fuel source state).result host).1
      = some (final, verdict)) :
    final.own.lines
      = state.own.lines ++ echoedLines
        ((engine.runSource fuel source state).notices host) := by
  have hprepared := echoedLines_preprocess engine source state host
  have hown : (engine.read source state.own).state.own = state.own :=
    congrArg Reading.own
      (readFrom_own hs state.own state.own (engine.pieces source) 0 .empty)
  simp only [runSource, Plan.bind_eq, Plan.result_bind, Plan.notices_bind,
    result_preprocess, echoedLines_append, hprepared, List.nil_append] at h ⊢
  generalize engine.read source state.own = reading at *
  cases hlines : reading.listing with
  | error failure =>
      rw [hlines] at h
      cases h
      rw [hown]
      exact (List.append_nil _).symm
  | ok listing =>
      rw [hlines] at h
      simp only [Plan.result_bind, Plan.result_log, Plan.notices_bind,
        Plan.notices_log, echoedLines_append] at h ⊢
      have hrunning : ∀ labels,
          echoedLines [.event (.running listing.size labels)] = [] :=
        fun _ => rfl
      have hfinished : ∀ vars, echoedLines [.event (.finished vars)] = [] :=
        fun _ => rfl
      rcases hended : (engine.interpret fuel listing reading.state).result
        host with ⟨ended, host'⟩
      rw [hended] at h
      rcases ended with _ | ⟨last, failure | _⟩
      · cases h
      · cases h
        rw [lines_of_interpret hs (congrArg Prod.fst hended), hown]
        simp [hrunning]
      · cases h
        rw [lines_of_interpret hs (congrArg Prod.fst hended), hown]
        simp [hrunning, hfinished]

theorem notices_loadFile (path : Text) (host : η) :
    (loadFile path).notices host = [.event (.loading path)] := by
  simp only [loadFile, Plan.bind_eq, Plan.notices_bind, Plan.notices_log,
    Plan.result_log, Plan.result_askRead, Plan.notices_askRead,
    List.nil_append]
  cases Host.read host path with
  | ok source => rfl
  | error fault => rfl

/-- A run of a script file adds the lines that it echoes, however it
ends. -/
theorem lines_of_runFile (hs : engine.IsScript) {fuel : Nat} {path : Text}
    {state final : State Output} {host : η} {verdict : Verdict}
    (h : ((engine.runFile fuel path state).result host).1
      = some (final, verdict)) :
    final.own.lines
      = state.own.lines ++ echoedLines
        ((engine.runFile fuel path state).notices host) := by
  have hloading : echoedLines [.event (.loading path)] = [] := rfl
  simp only [runFile, Plan.bind_eq, Plan.result_bind, Plan.notices_bind,
    result_loadFile, notices_loadFile, echoedLines_append, hloading,
    List.nil_append] at h ⊢
  cases hread : (Host.read host path).mapError (Failure.load path) with
  | error failure =>
      rw [hread] at h
      cases h
      exact (List.append_nil _).symm
  | ok source =>
      rw [hread] at h
      exact lines_of_runSource hs h

end Engine

end LineScript
