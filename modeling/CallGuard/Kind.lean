/-!
# Kinds

The ten kinds that values are told apart by. Each has a name in small letters,
and no two share one : `ofName?_name` reads a name back.
-/

namespace CallGuard

/-- What a value is, as far as a check by kind can see. -/
inductive Kind
  /-- An array. -/
  | array
  /-- A regular expression. -/
  | regexp
  /-- A date. -/
  | date
  /-- A symbol. -/
  | symbol
  /-- An object of any class, or null. -/
  | object
  /-- A text. -/
  | string
  /-- A number, NaN included. -/
  | number
  /-- A truth value. -/
  | boolean
  /-- A function. -/
  | function
  /-- The value of what is not there. -/
  | undefined
  deriving DecidableEq

namespace Kind

/-- Every kind. -/
def all : List Kind :=
  [array, regexp, date, symbol, object, string, number, boolean, function, undefined]

/-- The name of a kind. -/
def name : Kind → String
  | array => "array"
  | regexp => "regexp"
  | date => "date"
  | symbol => "symbol"
  | object => "object"
  | string => "string"
  | number => "number"
  | boolean => "boolean"
  | function => "function"
  | undefined => "undefined"

/-- A kind as something that is wanted. -/
def wanted : Kind → String
  | array => "an array"
  | object => "an object"
  | kind => kind.name

/-- The kind with a name. -/
def ofName? (name : String) : Option Kind := all.find? fun kind => kind.name == name

/-- A name reads back. -/
@[simp] theorem ofName?_name (kind : Kind) : ofName? kind.name = some kind := by
  cases kind <;> rfl

end Kind

end CallGuard
