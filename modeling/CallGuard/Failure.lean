import CallGuard.Location
import CallGuard.Value.Text

/-!
# Failures

What is reported about a value that a checker refuses. A `Failure` is a record of
texts : a code, a message, the method, the location of the value, the position of
its argument, and parameters in order.

The failures of the checkers of this library have one of five causes. `Cause` says
which, with what it needs to know, and `Cause.failure` writes it down at a site.
Other checkers write a failure down themselves, with `Failure.ofSite`.
-/

namespace CallGuard

/-- What sort of thing is wrong. -/
inductive FailureKind
  /-- A value is missing. -/
  | missingRequired
  /-- A value has the wrong kind. -/
  | typeMismatch
  /-- A value is wrong in another way. -/
  | valueMismatch
  deriving DecidableEq

/-- The name of a sort of failure. -/
def FailureKind.name : FailureKind → String
  | missingRequired => "missing_required"
  | typeMismatch => "type_mismatch"
  | valueMismatch => "value_mismatch"

/-- What is reported about a refused value. -/
structure Failure where
  /-- The name of the cause. -/
  code : String
  /-- What sort of thing is wrong. -/
  kind : FailureKind
  /-- The report in words. -/
  message : String
  /-- The method. -/
  method : String
  /-- Where the value stands, in words. -/
  location : String
  /-- The position of the argument it came in. -/
  position : Nat
  /-- Details, in order. -/
  params : List (String × String)
  deriving DecidableEq

namespace Failure

/-- A failure at a site, without parameters. -/
def ofSite (site : Site) (kind : FailureKind) (code message : String) : Failure where
  code := code
  kind := kind
  message := message
  method := site.method
  location := site.location.text
  position := site.location.position
  params := []

/-- Puts a parameter after the others. -/
def withParam (f : Failure) (key value : String) : Failure :=
  { f with params := f.params ++ [(key, value)] }

/-- The first parameter with a name. -/
def param? (f : Failure) (key : String) : Option String := f.params.lookup key

/-- A list of failures in words, numbered from 1, a line for each. -/
def listing (failures : List Failure) : String :=
  "Validation failed with " ++ failures.length.repr ++ " error(s):\n" ++
    String.join ((failures.zipIdx 1).map fun entry =>
      "  " ++ entry.2.repr ++ ". " ++ entry.1.message ++ "\n")

/-- A value, unless there are failures. -/
def resultOf {α : Type} (failures : List Failure) (value : α) : Except (List Failure) α :=
  if failures.isEmpty then .ok value else .error failures

end Failure

/-- Why a checker of this library refuses a value. -/
inductive Cause
  /-- A value is required, and there is none. -/
  | required
  /-- The value is of another kind. -/
  | typeMismatch (expected actual : Kind)
  /-- The value does not belong to a class. -/
  | notInstance (expected : Class)
  /-- The value is not one of those allowed, which are given as JSON text. -/
  | notOneOf (value : Value) (allowed : String)
  /-- The value passes none of a number of alternatives. -/
  | noMatchingType (value : Value) (alternatives : Nat)

namespace Cause

/-- The name of a cause. -/
def code : Cause → String
  | required => "required"
  | typeMismatch _ _ => "type_mismatch"
  | notInstance _ => "not_instance"
  | notOneOf _ _ => "not_one_of"
  | noMatchingType _ _ => "no_matching_type"

/-- What sort of failure a cause makes. -/
def kind : Cause → FailureKind
  | required => .missingRequired
  | typeMismatch _ _ => .typeMismatch
  | _ => .valueMismatch

/-- The details of a cause. -/
def params : Cause → List (String × String)
  | required => []
  | typeMismatch expected actual => [("expected", expected.name), ("actual", actual.name)]
  | notInstance expected => [("expected", expected.name)]
  | notOneOf value allowed => [("value", value.text), ("allowed", allowed)]
  | noMatchingType value alternatives =>
    [("value", value.text), ("alternatives", alternatives.repr)]

/-- A cause in words, at a location in a method. -/
def message (location method : String) : Cause → String
  | required => "Required " ++ location ++ " parameter was not specified in " ++ method ++ "."
  | typeMismatch expected actual =>
    "Invalid " ++ location ++ " parameter of type " ++ actual.name ++ " supplied to " ++ method ++
      ", expected " ++ expected.wanted ++ "."
  | notInstance expected =>
    "Invalid " ++ location ++ " parameter supplied to " ++ method ++ ", expected instanceof " ++
      expected.name ++ "."
  | notOneOf value allowed =>
    "Invalid " ++ location ++ " parameter of value " ++ value.text ++ " supplied to " ++ method ++
      ", expected to be one of " ++ allowed ++ "."
  | noMatchingType value alternatives =>
    "Invalid " ++ location ++ " parameter of value " ++ value.text ++ " supplied to " ++ method ++
      ", expected it to match one of " ++ alternatives.repr ++ " types."

/-- The failure that a cause makes at a site. -/
def failure (site : Site) (cause : Cause) : Failure where
  code := cause.code
  kind := cause.kind
  message := cause.message site.location.text site.method
  method := site.method
  location := site.location.text
  position := site.location.position
  params := cause.params

end Cause

/-- How a check ends. -/
inductive Outcome
  /-- The value passes. -/
  | pass
  /-- The value is refused. -/
  | fail (failure : Failure)
  deriving DecidableEq

namespace Outcome

/-- Whether the value passes. -/
def passes : Outcome → Bool
  | pass => true
  | fail _ => false

/-- The failure, if there is one. -/
def failure? : Outcome → Option Failure
  | pass => none
  | fail f => some f

/-- Passes if something holds, and otherwise fails for a cause. -/
def ofBool (holds : Bool) (site : Site) (cause : Cause) : Outcome :=
  if holds then pass else fail (cause.failure site)

@[simp] theorem passes_ofBool (holds : Bool) (site : Site) (cause : Cause) :
    (ofBool holds site cause).passes = holds := by
  cases holds <;> rfl

end Outcome

end CallGuard
