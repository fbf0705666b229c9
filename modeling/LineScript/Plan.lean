/-
Plans: computations that use files and report events, before it is
decided where the files live.

A plan is either done or makes a request and goes on with the answer. It
can be carried out on any host (`result`), which is how statements about
runs are made, or by the program's outer layer on the real file system.
The same plan serves both, so what is proved of the first holds of what
the second is asked to do.

Requests are answered once each and in order. A report expects no answer.
-/
import LineScript.Host.Basic
import LineScript.Log

set_option autoImplicit false

namespace LineScript

/-- Something to be shown while a plan is carried out. -/
inductive Notice where
  | event (event : Event)
  /-- A line that the program writes for its user. -/
  | complaint (line : String)
  deriving DecidableEq

/-- A computation with requests to a host. -/
inductive Plan (α : Type) where
  | done (value : α)
  | isFile (path : Text) (next : Bool → Plan α)
  | read (path : Text) (next : Except HostFault Text → Plan α)
  | write (path contents : Text) (next : Except HostFault Unit → Plan α)
  | report (notice : Notice) (next : Unit → Plan α)

namespace Plan

variable {α β η : Type}

/-- One plan after another. -/
def bind : Plan α → (α → Plan β) → Plan β
  | .done value, next => next value
  | .isFile path answer, next =>
    .isFile path fun present => (answer present).bind next
  | .read path answer, next =>
    .read path fun contents => (answer contents).bind next
  | .write path contents answer, next =>
    .write path contents fun reply => (answer reply).bind next
  | .report notice answer, next =>
    .report notice fun _ => (answer ()).bind next

instance : Monad Plan where
  pure := .done
  bind := .bind

/-- The request to say whether there is a file at a path. -/
def askIsFile (path : Text) : Plan Bool := .isFile path .done

/-- The request for the text of a file. -/
def askRead (path : Text) : Plan (Except HostFault Text) := .read path .done

/-- The request to write a file. -/
def askWrite (path contents : Text) : Plan (Except HostFault Unit) :=
  .write path contents .done

/-- The report of an event. -/
def log (event : Event) : Plan Unit := .report (.event event) .done

/-- The reports of events, in order. -/
def logAll : List Event → Plan Unit
  | [] => .done ()
  | event :: events => .report (.event event) fun _ => logAll events

/-- The report of a line for the user. -/
def complain (line : String) : Plan Unit := .report (.complaint line) .done

/-- The report of lines for the user, in order. -/
def complainAll : List String → Plan Unit
  | [] => .done ()
  | line :: lines => .report (.complaint line) fun _ => complainAll lines

-- =================================================== on a given host

/-- What a plan yields on a host, and the host afterwards. -/
def result [Host η] : Plan α → η → α × η
  | .done value, host => (value, host)
  | .isFile path next, host => (next (Host.isFile host path)).result host
  | .read path next, host => (next (Host.read host path)).result host
  | .write path contents next, host =>
    match Host.write host path contents with
    | .ok host => (next (.ok ())).result host
    | .error fault => (next (.error fault)).result host
  | .report _ next, host => (next ()).result host

/-- What a plan yields on a host, the host afterwards, and the notices on
the way, the latest first, on top of earlier ones. -/
def resultOnto [Host η] : Plan α → η → List Notice → α × η × List Notice
  | .done value, host, notices => (value, host, notices)
  | .isFile path next, host, notices =>
    (next (Host.isFile host path)).resultOnto host notices
  | .read path next, host, notices =>
    (next (Host.read host path)).resultOnto host notices
  | .write path contents next, host, notices =>
    match Host.write host path contents with
    | .ok host => (next (.ok ())).resultOnto host notices
    | .error fault => (next (.error fault)).resultOnto host notices
  | .report notice next, host, notices =>
    (next ()).resultOnto host (notice :: notices)

/-- What a plan yields on a host, the host afterwards, and the notices on
the way, in order. -/
def resultNoted [Host η] (plan : Plan α) (host : η) : α × η × List Notice :=
  let (value, host, notices) := plan.resultOnto host []
  (value, host, notices.reverse)

-- ====================================================== small lemmas

@[simp] theorem pure_eq_done (value : α) :
    (pure value : Plan α) = .done value := rfl

@[simp] theorem bind_eq (plan : Plan α) (next : α → Plan β) :
    (plan >>= next) = plan.bind next :=
  rfl

@[simp] theorem done_bind (value : α) (next : α → Plan β) :
    (done value).bind next = next value :=
  rfl

@[simp] theorem result_done [Host η] (value : α) (host : η) :
    (done value).result host = (value, host) := rfl

/-- A sequence of plans is carried out one after the other. -/
@[simp] theorem result_bind [Host η] (plan : Plan α) (next : α → Plan β)
    (host : η) :
    (plan.bind next).result host =
      (next (plan.result host).1).result (plan.result host).2 := by
  induction plan generalizing host with
  | done value => rfl
  | isFile path answer ih => exact ih _ host
  | read path answer ih => exact ih _ host
  | write path contents answer ih =>
    simp only [bind, result]
    cases Host.write host path contents with
    | ok host' => exact ih _ host'
    | error fault => exact ih _ host
  | report notice answer ih => exact ih _ host

@[simp] theorem result_log [Host η] (event : Event) (host : η) :
    (log event).result host = ((), host) := rfl

@[simp] theorem result_complain [Host η] (line : String) (host : η) :
    (complain line).result host = ((), host) := rfl

@[simp] theorem result_logAll [Host η] (events : List Event) (host : η) :
    (logAll events).result host = ((), host) := by
  induction events with
  | nil => rfl
  | cons event events ih => exact ih

@[simp] theorem result_complainAll [Host η] (lines : List String) (host : η) :
    (complainAll lines).result host = ((), host) := by
  induction lines with
  | nil => rfl
  | cons line lines ih => exact ih

@[simp] theorem result_askIsFile [Host η] (path : Text) (host : η) :
    (askIsFile path).result host = (Host.isFile host path, host) := rfl

@[simp] theorem result_askRead [Host η] (path : Text) (host : η) :
    (askRead path).result host = (Host.read host path, host) := rfl

theorem result_askWrite [Host η] (path contents : Text) (host : η) :
    (askWrite path contents).result host =
      match Host.write host path contents with
      | .ok host => (.ok (), host)
      | .error fault => (.error fault, host) := by
  simp only [askWrite, result]

end Plan

end LineScript
