/-!
# Classes

A class is the class `Object`, which has no parent, or it is derived from a
parent. A derived class carries the serial number that it was given when it was
made : two classes are equal exactly when they are one class, however they are
named. A `Population` makes classes and never gives a serial number twice.

`isSubclassOf` walks from a class to its parent until it meets the other. The
walk ends because a class is a finite tree. `ancestry` lists what it passes, and
`isSubclassOf_iff` says that being a subclass is being below on that list.
-/

namespace CallGuard

/-- A class with its line of parents. -/
inductive Class
  /-- The class `Object`, of which all others are subclasses. -/
  | object
  /-- A class made under a parent. -/
  | derived (serial : Nat) (name : String) (parent : Class)
  deriving DecidableEq

namespace Class

/-- The name of a class. -/
def name : Class → String
  | object => "Object"
  | derived _ name _ => name

/-- The class that a class is derived from. -/
def parent? : Class → Option Class
  | object => none
  | derived _ _ parent => some parent

/-- The class itself, its parent, and so on up to `Object`. -/
def ancestry : Class → List Class
  | object => [object]
  | derived serial name parent => derived serial name parent :: parent.ancestry

/-- Whether the walk from a class through its parents meets another class. -/
def isSubclassOf : Class → Class → Bool
  | object, other => decide (object = other)
  | derived serial name parent, other =>
    decide (derived serial name parent = other) || parent.isSubclassOf other

/-- The class of arrays. -/
def array : Class := derived 0 "Array" object

/-- The class of dates. -/
def date : Class := derived 1 "Date" object

/-- The class of regular expressions. -/
def regexp : Class := derived 2 "RegExp" object

/-- The class of functions. -/
def function : Class := derived 3 "Function" object

/-- The classes that are always there. -/
def builtin : List Class := [object, array, date, regexp, function]

/-- Being a subclass is being below on the list of ancestors. -/
theorem isSubclassOf_iff (c d : Class) : c.isSubclassOf d = true ↔ d ∈ c.ancestry := by
  induction c with
  | object => rw [isSubclassOf, ancestry, decide_eq_true_iff, List.mem_singleton, eq_comm]
  | derived serial name parent ih =>
    rw [isSubclassOf, ancestry, Bool.or_eq_true, decide_eq_true_iff, ih, List.mem_cons, eq_comm]

/-- A class is on its own list. -/
theorem mem_ancestry_self (c : Class) : c ∈ c.ancestry := by
  cases c <;> simp [ancestry]

/-- Every list ends in `Object`. -/
theorem object_mem_ancestry (c : Class) : object ∈ c.ancestry := by
  induction c with
  | object => simp [ancestry]
  | derived serial name parent ih => simp [ancestry, ih]

end Class

/-- The classes made so far. -/
structure Population where
  /-- They, the latest first. -/
  classes : List Class
  deriving DecidableEq

namespace Population

/-- The classes that are always there. -/
def initial : Population := ⟨Class.builtin.reverse⟩

/-- Makes a class under a parent. Its serial number is the number of classes made before it. -/
def derive (p : Population) (name : String) (parent : Class) : Class × Population :=
  let made := Class.derived (p.classes.length - 1) name parent
  (made, ⟨made :: p.classes⟩)

/-- Makes a class directly under `Object`. -/
def make (p : Population) (name : String) : Class × Population := p.derive name .object

end Population

end CallGuard
