import CallGuard.Checker.Behaviour

/-!
# Probes

Custom checkers that leave a trace. A probe passes every value or refuses every
value, missing ones included, and each of its answers is on record : under which
name, how it was entered, where, and with what value. A probe may answer to both
entries or only to `Entry.present`.

The record of a call is read off its visits : those where a labelled checker was
entered by an entry that it answers to itself.
-/

namespace CallGuard

/-- The failure of a probe that was entered in some way. -/
def probeFailure (name : String) (entry : Entry) (site : Site) : Failure :=
  ((Failure.ofSite site .valueMismatch "probe_failed" ("Probe " ++ name ++ " failed.")).withParam
    "probe" name).withParam "how" entry.name

/-- The answer of a probe to every value. -/
def probeAnswer (name : String) (fails : Bool) (entry : Entry) (_ : Value) (site : Site) :
    Outcome :=
  if fails then .fail (probeFailure name entry site) else .pass

namespace Custom

/-- A probe that answers to both entries. -/
def probe (name : String) (fails : Bool) : Custom where
  label? := some name
  present := probeAnswer name fails .present
  check? := some (probeAnswer name fails .check)
  isRest := false

/-- A probe that answers to values that are there and to no others. -/
def presentProbe (name : String) (fails : Bool) : Custom where
  label? := some name
  present := probeAnswer name fails .present
  check? := none
  isRest := false

/-- Passes a number above zero and refuses everything else as not being a number. -/
def positive : Custom where
  label? := none
  present v s :=
    match v with
    | .number x => .ofBool x.isPositive s (.typeMismatch .number .number)
    | other => .fail (Cause.failure s (.typeMismatch .number other.kind))
  check? := none
  isRest := false

/-- Whether a custom checker answers to an entry itself. -/
def answersTo (c : Custom) : Entry → Bool
  | .present => true
  | .check => c.check?.isSome

end Custom

/-- What is on record of one answer of a labelled checker. -/
structure Trace where
  /-- The label. -/
  label : String
  /-- How it was entered. -/
  entry : Entry
  /-- Where. -/
  site : Site
  /-- With what value. -/
  value : Value

/-- What a visit leaves on record. -/
def Visit.trace? (visit : Visit) : Option Trace :=
  match visit.checker with
  | .custom c =>
    if c.answersTo visit.entry then
      c.label?.map fun label => ⟨label, visit.entry, visit.site, visit.value⟩
    else none
  | _ => none

/-- What a call leaves on record, in order. -/
def Call.traces (c : Call) : List Trace := c.visits.filterMap Visit.trace?

end CallGuard
