import CallGuard.Failure

/-!
# Checkers

A `Checker` says what a value should be. Some look at a value alone : its kind, its
class, whether it is one of a list. Some look into it : at the elements of an array,
at the properties of an object, or at it through several checkers of which one must
pass. The modifiers `required`, `nullable` and `rest` change what happens to a
missing value or to the arguments that remain.

A checker can be entered in two ways. `Entry.check` takes any value;
`Entry.present` takes a value that is there, and a checker that does not care about
missing values passes them and leaves the others to its `Entry.present`.

A `Custom` checker is given by what it answers. It may leave `Entry.check` to that
rule or have an answer of its own.
-/

namespace CallGuard

/-- How a checker is entered. -/
inductive Entry
  /-- With any value. -/
  | check
  /-- With a value that is there. -/
  | present
  deriving DecidableEq

/-- The name of an entry. -/
def Entry.name : Entry → String
  | check => "check"
  | present => "check_present"

/-- A checker given by its answers. -/
structure Custom where
  /-- The name under which its answers are traced, if they are. -/
  label? : Option String
  /-- Its answer to a value that is there. -/
  present : Value → Site → Outcome
  /-- Its answer to any value, if it has one of its own. -/
  check? : Option (Value → Site → Outcome)
  /-- Whether it takes the arguments that remain. -/
  isRest : Bool

/-- What a value should be. -/
inductive Checker : Type
  /-- A value of a kind. -/
  | kindOf (expected : Kind)
  /-- Any value. -/
  | any
  /-- A value that belongs to a class. -/
  | instanceOf (expected : Class)
  /-- One of a list of values. -/
  | oneOf (allowed : List Value)
  /-- An array whose elements all pass. -/
  | arrayOf (element : Checker)
  /-- An object whose properties all pass. -/
  | objectOf (property : Checker)
  /-- An object whose properties pass the checkers that stand under their keys. -/
  | shape (fields : Properties Checker)
  /-- A value that passes one of several checkers. -/
  | oneOfType (alternatives : List Checker)
  /-- A value that is there and passes. -/
  | required (inner : Checker)
  /-- A value that is missing or passes. -/
  | nullable (inner : Checker)
  /-- Every argument that remains, each of which passes. -/
  | rest (inner : Checker)
  /-- A value to which given answers are made. -/
  | custom (answers : Custom)

namespace Checker

instance : Inhabited Checker := ⟨any⟩

/-- A shape from keys and checkers. A repeated key keeps its first place and takes the last
checker. -/
def ofFields (fields : List (String × Checker)) : Checker := shape (.ofList fields)

/-- Whether a checker takes the arguments that remain. Only the modifiers around a checker
can say so, and a custom checker itself. -/
def isRest : Checker → Bool
  | rest _ => true
  | required inner | nullable inner => inner.isRest
  | custom answers => answers.isRest
  | _ => false

end Checker

/-- A shape on its own, for building one up. -/
structure Shape where
  /-- The checkers under their keys. -/
  fields : Properties Checker

namespace Shape

/-- A shape without fields. -/
def empty : Shape := ⟨.empty⟩

/-- Puts a checker under a key, in place of the one that is there. -/
def field (s : Shape) (key : String) (c : Checker) : Shape := ⟨s.fields.insert key c⟩

end Shape

/-- A shape as a checker. -/
def Checker.ofShape (s : Shape) : Checker := shape s.fields

end CallGuard
