import CallGuard.Event
import CallGuard.Signature

/-!
# Logging guards

A logging guard checks all arguments of a call, whatever fails. Each failure is
reported as soon as it is found : with a warning, and to the sink of the guard if it
has one. The call answers with all failures in order.

`Run` is what happens in a guarded call. Its `moments` are the checks and the reports
in the order in which they happen, and its `failures` are the answer.
-/

namespace CallGuard

/-- Something that happens in a call under a logging guard. -/
inductive Moment
  /-- An argument is checked. -/
  | checked (call : Call)
  /-- An event is told. -/
  | told (event : Event)
  /-- A failure is handed to the sink. -/
  | handed (failure : Failure)

namespace Moment

/-- The check that is made. -/
def call? : Moment → Option Call
  | checked c => some c
  | _ => none

/-- The event that is told. -/
def event? : Moment → Option Event
  | told e => some e
  | _ => none

/-- The failure that is handed to the sink. -/
def handed? : Moment → Option Failure
  | handed f => some f
  | _ => none

end Moment

/-- What happens in a call under a logging guard, and its answer. -/
structure Run where
  /-- The checks and the reports, in order. -/
  moments : List Moment
  /-- The failures, in order. -/
  failures : List Failure

/-- How the end of a check is reported. -/
def report (hasSink : Bool) : Outcome → List Moment
  | .pass => []
  | .fail f => .told (.ofFailure f) :: if hasSink then [.handed f] else []

/-- Makes planned checks one after another and reports each. -/
def runPlan (hasSink : Bool) (method : String) : List Assignment → Run
  | [] => ⟨[], []⟩
  | a :: rest =>
    let c := a.call method
    let later := runPlan hasSink method rest
    ⟨.checked c :: (report hasSink c.outcome ++ later.moments),
      c.outcome.failure?.toList ++ later.failures⟩

namespace Run

/-- The checks. -/
def calls (r : Run) : List Call := r.moments.filterMap Moment.call?

/-- The events. -/
def events (r : Run) : List Event := r.moments.filterMap Moment.event?

/-- What the sink gets. -/
def handed (r : Run) : List Failure := r.moments.filterMap Moment.handed?

end Run

/-- A guard that reports every failure and goes on. -/
structure LoggingGuard where
  /-- What it checks, if it checks anything. -/
  signature? : Option Signature
  /-- Whether there is a sink that failures are handed to. -/
  hasSink : Bool

namespace LoggingGuard

/-- A guard for a signature, with a sink or without one. -/
def ofSignature (s : Signature) (hasSink : Bool) : LoggingGuard := ⟨some s, hasSink⟩

/-- A guard that checks nothing. -/
def off : LoggingGuard := ⟨none, false⟩

/-- Whether it checks anything. -/
def isActive (g : LoggingGuard) : Bool := g.signature?.isSome

/-- What happens in a call. -/
def run (g : LoggingGuard) (args : List Value) : Run :=
  match g.signature? with
  | some s => runPlan g.hasSink s.method (s.plan args)
  | none => ⟨[], []⟩

/-- The failures that a call answers with. -/
def failures (g : LoggingGuard) (args : List Value) : List Failure := (g.run args).failures

end LoggingGuard

/-! ## Laws -/

section Laws

variable (hasSink : Bool) (method : String) (plan : List Assignment)

/-- Every planned check is made once, in order. -/
theorem calls_runPlan :
    (runPlan hasSink method plan).calls = plan.map (Assignment.call method) := by
  have key : ∀ o, (report hasSink o).filterMap Moment.call? = [] := by
    intro o
    cases o <;> cases hasSink <;> rfl
  induction plan with
  | nil => rfl
  | cons a rest ih =>
    rw [Run.calls, runPlan, List.filterMap_cons_some (by rfl), List.filterMap_append, key,
      List.nil_append, List.map_cons, ← ih, Run.calls]

/-- The answer is the failures of the planned checks, in order. -/
theorem failures_runPlan :
    (runPlan hasSink method plan).failures =
      plan.filterMap fun a => (a.outcome method).failure? := by
  induction plan with
  | nil => rfl
  | cons a rest ih =>
    rw [runPlan, List.filterMap_cons, ih]
    show ((a.outcome method).failure?).toList ++ _ = _
    cases (a.outcome method).failure? <;> rfl

end Laws

end CallGuard
