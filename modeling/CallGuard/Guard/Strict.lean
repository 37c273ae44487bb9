import CallGuard.Signature

/-!
# Strict guards

A strict guard checks the arguments of a call up to the first failure and reports
that failure alone. One without a signature checks nothing and passes every call.
-/

namespace CallGuard

/-- A guard that stops at the first failure. -/
structure StrictGuard where
  /-- What it checks, if it checks anything. -/
  signature? : Option Signature

namespace StrictGuard

/-- A guard for a signature. -/
def ofSignature (s : Signature) : StrictGuard := ⟨some s⟩

/-- A guard that checks nothing. -/
def off : StrictGuard := ⟨none⟩

/-- Whether it checks anything. -/
def isActive (g : StrictGuard) : Bool := g.signature?.isSome

/-- The checks that are made of arguments, in order. -/
def calls (g : StrictGuard) (args : List Value) : List Call :=
  match g.signature? with
  | some s => untilFailure (Assignment.call s.method) (s.plan args)
  | none => []

/-- How a guarded call ends. -/
def outcome (g : StrictGuard) (args : List Value) : Outcome :=
  firstFailure ((g.calls args).map Call.outcome)

end StrictGuard

end CallGuard
