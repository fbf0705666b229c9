/-
Engines: a language together with settings, ready to run scripts.

A language declares commands (a signature for each keyword) and binds
handlers to keywords, in two tables. An engine is built only if every
declared command has a handler; it then holds both in one table, so
that a command that is found can always be carried out. Handlers of
undeclared keywords are left out and reported.
-/
import LineScript.Machine

set_option autoImplicit false

namespace LineScript

/-- What a language does with a line that is neither blank nor a comment
nor a label: keep it (`none`), put another text in its place, or refuse
it. The own state afterwards counts in each case. -/
abbrev Hook (σ : Type) :=
  Settings → Nat → Text → σ → Except Failure (Option Text) × σ

/-- A language with own state `σ`. -/
structure Dialect (σ : Type) where
  hook : Hook σ
  commands : Table Signature
  handlers : Table (Handler σ)

/-- A command that can be carried out. -/
structure Command (σ : Type) where
  signature : Signature
  handler : Handler σ

/-- A language with settings, checked. -/
structure Engine (σ : Type) where
  settings : Settings
  hook : Hook σ
  commands : Table (Command σ)

/-- What changes from run to run: the machine and the language's own
state. -/
structure State (σ : Type) where
  machine : Machine := .fresh
  own : σ

namespace Hook

variable {σ : Type}

/-- The hook that keeps every line. -/
def keep : Hook σ := fun _ _ _ own => (.ok none, own)

end Hook

namespace Dialect

variable {σ : Type}

/-- The declared commands that have a handler, with it. -/
def bound (dialect : Dialect σ) : Table (Command σ) :=
  dialect.commands.filterMap fun keyword signature =>
    (dialect.handlers.get? keyword).map fun handler => ⟨signature, handler⟩

/-- The declared commands without a handler, ascending. -/
def unbound (dialect : Dialect σ) : List Text :=
  dialect.commands.names.filter fun keyword =>
    !dialect.handlers.contains keyword

/-- The keywords with a handler that are not declared, ascending. -/
def undeclared (dialect : Dialect σ) : List Text :=
  dialect.handlers.names.filter fun keyword =>
    !dialect.commands.contains keyword

/-- The first fault of a language under some settings, if there is one. -/
def fault? (dialect : Dialect σ) (settings : Settings) :
    Option ConfigurationFault :=
  match settings.fault? with
  | some fault => some (.settings fault)
  | none =>
    if dialect.commands.isEmpty then some .emptyTable
    else if dialect.unbound.isEmpty then none
    else some (.unbound dialect.unbound)

/-- The engine of a language under settings without a fault. -/
def engine (dialect : Dialect σ) (settings : Settings) :
    Except Failure (Engine σ) :=
  match dialect.fault? settings with
  | some fault => .error (.configuration fault)
  | none => .ok ⟨settings, dialect.hook, dialect.bound⟩

/-- Building an engine, with a warning for every handler left out. -/
def build (dialect : Dialect σ) (settings : Settings) :
    Plan (Except Failure (Engine σ)) :=
  match dialect.engine settings with
  | .error failure => .done (.error failure)
  | .ok engine => do
    Plan.logAll (dialect.undeclared.map Event.unusedHandler)
    return .ok engine

-- ====================================================== small lemmas

/-- Under what conditions a language has an engine, and which. -/
theorem engine_eq_ok_iff {dialect : Dialect σ} {settings : Settings}
    {engine : Engine σ} :
    dialect.engine settings = .ok engine
      ↔ settings.fault? = none ∧ dialect.commands.isEmpty = false
        ∧ dialect.unbound = []
        ∧ engine = ⟨settings, dialect.hook, dialect.bound⟩ := by
  unfold Dialect.engine fault?
  cases settings.fault? with
  | some fault => simp
  | none =>
    cases dialect.commands.isEmpty with
    | true => simp
    | false =>
      cases hunbound : dialect.unbound with
      | nil => simp [eq_comm]
      | cons keyword rest => simp

end Dialect

end LineScript
