/-
Runs as a transition system: a run on a listing is a sequence of steps
between situations (a state and a host), and it ends where no step goes
on. The number of steps that a run is given does not enter: a run ends
under some number of steps exactly when the transition system comes to
a stop (`runSource_eq_some_iff`), and how it ends is then the same under
every number that suffices (`Ends.unique`).

Everything here is about an arbitrary language on an arbitrary host. A
statement about runs is proved of one step (`advance?`) and of the stop
(`Stops`), and carried over to whole runs by induction on the steps.
-/
import LineScript.Engine.Run
import Mathlib.Computability.StateTransition

set_option autoImplicit false

namespace LineScript

open StateTransition
open Relation (ReflTransGen)

variable {σ η : Type} [Host η]

/-- The state in which the lines of a listing begin to be carried out. -/
def State.entering (state : State σ) (listing : Listing) : State σ :=
  { state with
    machine := { state.machine with pc := 0, lineCount := listing.size } }

namespace Engine

variable {engine : Engine σ} {listing : Listing}

-- ================================================== steps and stops

/-- The situation after a step that goes on. -/
def advance? (engine : Engine σ) (listing : Listing) (here : State σ × η) :
    Option (State σ × η) :=
  match (engine.step listing here.1).result here.2 with
  | (.moved state, host) => some (state, host)
  | _ => none

/-- A situation whose step does not go on, with the situation and the
verdict that it leads to. -/
inductive Stops (engine : Engine σ) (listing : Listing) (here : State σ × η) :
    State σ × η → Verdict → Prop
  | finished {host : η}
      (h : (engine.step listing here.1).result here.2 = (.finished, host)) :
      Stops engine listing here (here.1, host) (.ok ())
  | failed {state : State σ} {host : η} {failure : Failure}
      (h : (engine.step listing here.1).result here.2
        = (.failed state failure, host)) :
      Stops engine listing here (state, host) (.error failure)

/-- A run from a situation that ends: where it leads, and its verdict. -/
def Ends (engine : Engine σ) (listing : Listing) (here there : State σ × η)
    (verdict : Verdict) : Prop :=
  ∃ last, Reaches (engine.advance? listing) here last
    ∧ engine.Stops listing last there verdict

theorem advance?_eq_some_iff {here there : State σ × η} :
    engine.advance? listing here = some there
      ↔ (engine.step listing here.1).result here.2
        = (.moved there.1, there.2) := by
  unfold advance?
  split
  next state host h =>
    rw [h]
    constructor
    · intro heq
      cases heq
      rfl
    · intro heq
      cases heq
      rfl
  next hno =>
    constructor
    · intro heq
      cases heq
    · intro heq
      exact absurd heq (hno _ _)

/-- Where a run stops it does not go on. -/
theorem Stops.advance?_eq_none {here there : State σ × η} {verdict : Verdict}
    (h : engine.Stops listing here there verdict) :
    engine.advance? listing here = none := by
  unfold advance?
  cases h with
  | finished h => rw [h]
  | failed h => rw [h]

/-- Stopping leads to one situation and one verdict. -/
theorem Stops.unique {here there₁ there₂ : State σ × η} {v₁ v₂ : Verdict}
    (h₁ : engine.Stops listing here there₁ v₁)
    (h₂ : engine.Stops listing here there₂ v₂) :
    there₁ = there₂ ∧ v₁ = v₂ := by
  cases h₁ with
  | finished e₁ =>
      cases h₂ with
      | finished e₂ =>
          rw [e₁] at e₂
          cases e₂
          exact ⟨rfl, rfl⟩
      | failed e₂ =>
          rw [e₁] at e₂
          cases e₂
  | failed e₁ =>
      cases h₂ with
      | finished e₂ =>
          rw [e₁] at e₂
          cases e₂
      | failed e₂ =>
          rw [e₁] at e₂
          cases e₂
          exact ⟨rfl, rfl⟩

/-- A situation either goes on or stops. -/
theorem advance?_or_stops (engine : Engine σ) (listing : Listing)
    (here : State σ × η) :
    (∃ next, engine.advance? listing here = some next)
      ∨ ∃ there verdict, engine.Stops listing here there verdict := by
  rcases h : (engine.step listing here.1).result here.2 with ⟨progress, host⟩
  cases progress with
  | finished => exact .inr ⟨_, _, .finished h⟩
  | moved state => exact .inl ⟨(state, host), advance?_eq_some_iff.2 h⟩
  | failed state failure => exact .inr ⟨_, _, .failed h⟩

/-- A run ends in one way only. -/
theorem Ends.unique {here there₁ there₂ : State σ × η} {v₁ v₂ : Verdict}
    (h₁ : engine.Ends listing here there₁ v₁)
    (h₂ : engine.Ends listing here there₂ v₂) :
    there₁ = there₂ ∧ v₁ = v₂ := by
  obtain ⟨last₁, hr₁, hs₁⟩ := h₁
  obtain ⟨last₂, hr₂, hs₂⟩ := h₂
  have hlast : last₁ = last₂ :=
    Part.mem_unique (mem_eval.2 ⟨hr₁, hs₁.advance?_eq_none⟩)
      (mem_eval.2 ⟨hr₂, hs₂.advance?_eq_none⟩)
  subst hlast
  exact hs₁.unique hs₂

-- ============================================ a number of steps given

theorem result_stepsWithin_succ (fuel : Nat) (here : State σ × η) :
    (engine.stepsWithin listing (fuel + 1) here.1).result here.2
      = match (engine.step listing here.1).result here.2 with
        | (.finished, host) => (some (here.1, .ok ()), host)
        | (.failed state failure, host) => (some (state, .error failure), host)
        | (.moved state, host) =>
          (engine.stepsWithin listing fuel state).result host := by
  simp only [stepsWithin, Plan.bind_eq, Plan.result_bind, Plan.pure_eq_done]
  rcases (engine.step listing here.1).result here.2 with ⟨progress, host⟩
  cases progress with
  | finished => rfl
  | moved state => rfl
  | failed state failure => rfl

/-- What a number of steps yields is how the run ends. -/
theorem ends_of_stepsWithin {fuel : Nat} {here there : State σ × η}
    {verdict : Verdict}
    (h : (engine.stepsWithin listing fuel here.1).result here.2
      = (some (there.1, verdict), there.2)) :
    engine.Ends listing here there verdict := by
  obtain ⟨final, hostAfter⟩ := there
  induction fuel generalizing here with
  | zero =>
      rw [stepsWithin, Plan.result_done] at h
      cases h
  | succ fuel ih =>
      rw [result_stepsWithin_succ] at h
      split at h
      next host hstep =>
        cases h
        exact ⟨here, .refl, .finished hstep⟩
      next state failure host hstep =>
        cases h
        exact ⟨here, .refl, .failed hstep⟩
      next state host hstep =>
        have hends : engine.Ends listing (state, host) (final, hostAfter)
            verdict := ih h
        obtain ⟨last, hreach, hstop⟩ := hends
        exact ⟨last, hreach.head (advance?_eq_some_iff.2 hstep), hstop⟩

/-- A stop yields its verdict in one step. -/
theorem Stops.result_stepsWithin {here there : State σ × η} {verdict : Verdict}
    (h : engine.Stops listing here there verdict) (fuel : Nat) :
    (engine.stepsWithin listing (fuel + 1) here.1).result here.2
      = (some (there.1, verdict), there.2) := by
  rw [result_stepsWithin_succ]
  cases h with
  | finished e => rw [e]
  | failed e => rw [e]

/-- A run that ends does so within some number of steps. -/
theorem Ends.exists_stepsWithin {here there : State σ × η} {verdict : Verdict}
    (h : engine.Ends listing here there verdict) :
    ∃ fuel, (engine.stepsWithin listing fuel here.1).result here.2
      = (some (there.1, verdict), there.2) := by
  obtain ⟨last, hreach, hstop⟩ := h
  induction hreach using ReflTransGen.head_induction_on with
  | refl => exact ⟨1, hstop.result_stepsWithin 0⟩
  | head hstep _ ih =>
      obtain ⟨fuel, hfuel⟩ := ih
      refine ⟨fuel + 1, ?_⟩
      rw [result_stepsWithin_succ, advance?_eq_some_iff.1 hstep]
      exact hfuel

-- ============================================================ one step

theorem result_step_of_none {state : State σ} (host : η)
    (h : listing[state.machine.pc]? = none) :
    (engine.step listing state).result host = (.finished, host) := by
  unfold step
  simp only [h]
  rfl

theorem result_step_of_blank {state : State σ} {line : Text} (host : η)
    (h : listing[state.machine.pc]? = some line)
    (hblank : Text.isAllBlank line = true) :
    (engine.step listing state).result host
      = (.moved { state with machine :=
          { state.machine with pc := state.machine.pc + 1 } }, host) := by
  unfold step
  simp only [h, hblank]
  rfl

theorem result_step_of_undecoded {state : State σ} {line : Text}
    {fault : DecodingFault} (host : η)
    (h : listing[state.machine.pc]? = some line)
    (hblank : Text.isAllBlank line = false)
    (hdecode : engine.decode line = .error fault) :
    (engine.step listing state).result host
      = (.failed state (.decoding ⟨state.machine.pc, line⟩ fault), host) := by
  unfold step
  simp only [h, hblank, hdecode]
  rfl

theorem result_step_of_decoded {state : State σ} {line keyword : Text}
    {command : Command σ} {arguments : List Text} (host : η)
    (h : listing[state.machine.pc]? = some line)
    (hblank : Text.isAllBlank line = false)
    (hdecode : engine.decode line = .ok (keyword, command, arguments)) :
    (engine.step listing state).result host
      = (settle state
        ((command.handler ⟨state.machine.pc, line, keyword, arguments⟩
            state.machine state.own).result host).1,
          ((command.handler ⟨state.machine.pc, line, keyword, arguments⟩
            state.machine state.own).result host).2) := by
  unfold step
  simp only [h, hblank, hdecode, Bool.false_eq_true, if_false, Plan.bind_eq,
    Plan.result_bind, Plan.result_log, Plan.pure_eq_done, Plan.result_done]

/-- A command that is found comes from the table of commands. -/
theorem get?_of_decode {line keyword : Text} {command : Command σ}
    {arguments : List Text}
    (h : engine.decode line = .ok (keyword, command, arguments)) :
    engine.commands.get? keyword = some command := by
  unfold decode at h
  split at h
  next => cases h
  next found rest hsplit =>
    split at h
    next => cases h
    next command' hget =>
      split at h
      next => cases h
      next arguments' hextract =>
        cases h
        exact hget

-- ============================================================== a run

/-- A run is the reading of the script and then steps on its lines. -/
theorem result_runSource (engine : Engine σ) (fuel : Nat) (source : Text)
    (state : State σ) (host : η) :
    (engine.runSource fuel source state).result host
      = match (engine.read source state.own).listing with
        | .error failure =>
          (some ((engine.read source state.own).state, .error failure), host)
        | .ok listing =>
          (engine.stepsWithin listing fuel
            ((engine.read source state.own).state.entering listing)).result
              host := by
  simp only [runSource, preprocess, Plan.bind_eq, Plan.result_bind,
    Plan.result_log, Plan.result_logAll, Plan.pure_eq_done, Plan.result_done]
  cases (engine.read source state.own).listing with
  | error failure => rfl
  | ok listing =>
      simp only [Plan.result_bind, Plan.result_log, interpret, State.entering]
      generalize Plan.result (stepsWithin _ _ _ _) host = ended
      obtain ⟨outcome, host'⟩ := ended
      cases outcome with
      | none => rfl
      | some pair =>
          obtain ⟨final, verdict⟩ := pair
          cases verdict with
          | error failure => rfl
          | ok => rfl

/-- How a run from a script's text ends: at once if the text is refused,
and as the steps on its lines end if not. -/
theorem runSource_eq_some_iff {source : Text} {state final : State σ}
    {host host' : η} {verdict : Verdict} :
    (∃ fuel, (engine.runSource fuel source state).result host
      = (some (final, verdict), host'))
      ↔ (∃ failure, (engine.read source state.own).listing = .error failure
          ∧ final = (engine.read source state.own).state
          ∧ verdict = .error failure
          ∧ host' = host)
        ∨ ∃ listing, (engine.read source state.own).listing = .ok listing
          ∧ engine.Ends listing
            ((engine.read source state.own).state.entering listing, host)
              (final, host') verdict := by
  simp only [result_runSource]
  cases (engine.read source state.own).listing with
  | error failure =>
      constructor
      · rintro ⟨_, h⟩
        cases h
        exact .inl ⟨failure, rfl, rfl, rfl, rfl⟩
      · rintro (⟨_, hread, rfl, rfl, rfl⟩ | ⟨_, hread, -⟩)
        · cases hread
          exact ⟨0, rfl⟩
        · cases hread
  | ok listing =>
      constructor
      · rintro ⟨fuel, h⟩
        exact .inr ⟨listing, rfl, ends_of_stepsWithin h⟩
      · rintro (⟨_, hread, -⟩ | ⟨_, hread, h⟩)
        · cases hread
        · cases hread
          exact h.exists_stepsWithin

end Engine

end LineScript
