import CallGuard.Checker.Behaviour

/-!
# Signatures

A `Signature` is a method with the checkers of its parameters. The last checker may
take all arguments that remain; an earlier one may not, since the checkers behind
it would get none. `Signature.new?` builds one and says which checker stands wrong.

`Signature.plan` sets out what is checked for a list of arguments : which checker
gets which argument, at which position. A missing argument is undefined, and
arguments that no checker asks for are left alone.
-/

namespace CallGuard

/-- Why checkers do not make a signature. -/
inductive SignatureError
  /-- A checker that takes the arguments that remain is not the last one. -/
  | restNotLast (method : String) (position : Nat)
  deriving DecidableEq

/-- A signature error in words. -/
def SignatureError.message : SignatureError → String
  | restNotLast method position =>
    "rest checker of " ++ method ++ " must be the last parameter, but found at position " ++
      position.repr

/-- A method with the checkers of its parameters. -/
structure Signature where
  /-- The method. -/
  method : String
  /-- The checkers, one for each parameter. -/
  checkers : List Checker
  /-- Only the last one may take the arguments that remain. -/
  restLast : ∀ c ∈ checkers.dropLast, c.isRest = false

/-- A checker, and the argument that it gets. -/
structure Assignment where
  /-- The position of the argument. -/
  position : Nat
  /-- The checker. -/
  checker : Checker
  /-- The argument, or undefined if it is missing. -/
  value : Value

/-- Hands arguments to checkers, the first at a position. -/
def assign (position : Nat) : List Checker → List Value → List Assignment
  | [], _ => []
  | [c], args =>
    if c.isRest then (args.zipIdx position).map fun arg => ⟨arg.2, c, arg.1⟩
    else [⟨position, c, args.headD .undefined⟩]
  | c :: rest, args => ⟨position, c, args.headD .undefined⟩ :: assign (position + 1) rest args.tail

namespace Assignment

/-- The call that checks an argument of a method. -/
def call (method : String) (a : Assignment) : Call :=
  a.checker.checkCall a.value (.argument method a.position)

/-- How the check of an argument ends. -/
def outcome (method : String) (a : Assignment) : Outcome :=
  a.checker.check a.value (.argument method a.position)

end Assignment

namespace Signature

/-- The signature of a method with checkers, unless one that takes the arguments that remain
stands before another. The first such checker is reported. -/
def new? (method : String) (checkers : List Checker) : Except SignatureError Signature :=
  match h : checkers.dropLast.findIdx? Checker.isRest with
  | some position => .error (.restNotLast method position)
  | none =>
    .ok ⟨method, checkers, fun c hc => by
      simpa using List.findIdx?_eq_none_iff.1 h c hc⟩

/-- How many parameters there are. -/
def size (s : Signature) : Nat := s.checkers.length

/-- Whether the last parameter takes the arguments that remain. -/
def hasRest (s : Signature) : Bool := s.checkers.getLast?.any Checker.isRest

/-- What is checked for a list of arguments, in order. -/
def plan (s : Signature) (args : List Value) : List Assignment := assign 0 s.checkers args

end Signature

end CallGuard
