import CallGuard.Class
import CallGuard.Date
import CallGuard.Kind
import CallGuard.Number.Rounding
import CallGuard.Properties

/-!
# Values

`Value` is everything a call can be given : the primitive values, symbols and
functions, arrays, objects with their properties in order, dates and regular
expressions. `undefined` is what a missing argument or property is taken to be;
it and `null` are the *nullish* values.

Symbols and functions have an identity, a serial number that is theirs alone.
What a function does with its arguments is one of a few `Rule`s, so that a
value is a finite tree.

`Object` is an object on its own, for building one up. `Value.ofObject` and
`Value.object?` go to and fro.
-/

namespace CallGuard

/-- A value that is equal to nothing but itself. -/
structure Symbol where
  /-- Its identity. -/
  serial : Nat
  /-- The text it was made with, if it was made with one. -/
  description? : Option String
  deriving DecidableEq

/-- What a function answers. -/
inductive Rule
  /-- The number of arguments. -/
  | count
  /-- The first argument, or undefined. -/
  | first
  /-- An array of the arguments. -/
  | all
  /-- Twice the first argument if it is a number, otherwise undefined. -/
  | double
  /-- Undefined. -/
  | nothing
  deriving DecidableEq

/-- A function, with an identity as symbols have one. -/
structure Function where
  /-- Its identity. -/
  serial : Nat
  /-- Its name, if it has one. -/
  name? : Option String
  /-- What it answers. -/
  rule : Rule
  deriving DecidableEq

/-- What a call can be given. -/
inductive Value : Type
  /-- What a missing argument is taken to be. -/
  | undefined
  /-- The value for nothing. -/
  | null
  /-- A truth value. -/
  | bool (b : Bool)
  /-- A number. -/
  | number (x : Number)
  /-- A text. -/
  | string (s : String)
  /-- A symbol. -/
  | symbol (s : Symbol)
  /-- A function. -/
  | function (f : Function)
  /-- An array. -/
  | array (items : List Value)
  /-- An object, of a class or of none. -/
  | object (class? : Option Class) (properties : Properties Value)
  /-- A date. -/
  | date (d : Date)
  /-- A regular expression, by its pattern. -/
  | regexp (pattern : String)

/-- An object on its own. -/
structure Object where
  /-- Its class, if it has one. -/
  class? : Option Class
  /-- Its properties. -/
  properties : Properties Value

namespace Value

instance : Inhabited Value := ⟨undefined⟩

/-- Whether the value is null or undefined. -/
def isNullish : Value → Bool
  | undefined | null => true
  | _ => false

/-- Whether the value is a number and a NaN. -/
def isNaN : Value → Bool
  | number x => x.isNaN
  | _ => false

/-- The kind of a value. Null counts as an object. -/
def kind : Value → Kind
  | array _ => .array
  | regexp _ => .regexp
  | date _ => .date
  | symbol _ => .symbol
  | object _ _ | null => .object
  | string _ => .string
  | number _ => .number
  | bool _ => .boolean
  | function _ => .function
  | undefined => .undefined

/-- The elements of an array. -/
def array? : Value → Option (List Value)
  | array items => some items
  | _ => none

/-- The object that a value is. -/
def object? : Value → Option Object
  | object class? properties => some ⟨class?, properties⟩
  | _ => none

/-- An object as a value. -/
def ofObject (o : Object) : Value := object o.class? o.properties

/-- The class that a value belongs to most closely. Primitive values and symbols have none;
an object that was made without a class belongs to `Object`. -/
def ownClass? : Value → Option Class
  | array _ => some .array
  | date _ => some .date
  | regexp _ => some .regexp
  | function _ => some .function
  | object class? _ => some (class?.getD .object)
  | _ => none

/-- Whether a value belongs to a class : its own class is the class or below it. -/
def isInstanceOf (v : Value) (c : Class) : Bool := v.ownClass?.any (·.isSubclassOf c)

/-- The number nearest to an integer, as a value. -/
def ofInt (n : Int) : Value := number (.ofInt n)

/-- A value that may be absent; null stands for it then. -/
def ofOption (v? : Option Value) : Value := v?.getD null

/-- Only undefined has the kind of undefined. -/
theorem kind_eq_undefined_iff (v : Value) : v.kind = .undefined ↔ v = undefined := by
  cases v <;> simp [kind]

/-- A value belongs to its own class and the superclasses of it. -/
theorem isInstanceOf_iff_exists (v : Value) (c : Class) :
    v.isInstanceOf c ↔ ∃ own, v.ownClass? = some own ∧ own.isSubclassOf c := by
  unfold isInstanceOf
  cases v.ownClass? <;> simp

end Value

namespace Object

/-- An object of a class, or of none, with no properties. -/
def ofClass (class? : Option Class) : Object := ⟨class?, .empty⟩

/-- The value of a property. -/
def get? (o : Object) (key : String) : Option Value := o.properties.get? key

/-- Whether a property is there. -/
def contains (o : Object) (key : String) : Bool := o.properties.contains key

/-- The keys of the properties, in order. -/
def keys (o : Object) : List String := o.properties.keys

/-- How many properties there are. -/
def size (o : Object) : Nat := o.properties.size

/-- Whether there are no properties. -/
def isEmpty (o : Object) : Bool := o.properties.isEmpty

/-- Writes a property. -/
def insert (o : Object) (key : String) (value : Value) : Object :=
  { o with properties := o.properties.insert key value }

/-- Writes a property and gives back the value that was there before, if one was. -/
def exchange (o : Object) (key : String) (value : Value) : Option Value × Object :=
  (o.get? key, o.insert key value)

/-- Writes properties one after another. -/
def insertAll (o : Object) (pairs : List (String × Value)) : Object :=
  { o with properties := o.properties.insertAll pairs }

/-- An object of no class from pairs, written one after another. -/
def ofPairs (pairs : List (String × Value)) : Object := (ofClass none).insertAll pairs

end Object

/-- What a function answers to arguments. -/
def Function.call (f : Function) (args : List Value) : Value :=
  match f.rule with
  | .count => .ofInt args.length
  | .first => args.headD .undefined
  | .all => .array args
  | .double =>
    match args with
    | .number x :: _ => .number x.double
    | _ => .undefined
  | .nothing => .undefined

end CallGuard
