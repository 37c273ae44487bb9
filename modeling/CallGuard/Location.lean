import CallGuard.Text.Ordinal

/-!
# Locations

Where a checked value stands : the position of the argument it came in, and the
path from the argument down to it. A `Site` is a location in a call of a method.

A location is written from the inside out, `property name of 0th element of 2nd`,
and so its path is kept from the inside out.
-/

namespace CallGuard

/-- A step from a value to one of its parts. -/
inductive Step
  /-- To an element of an array. -/
  | element (index : Nat)
  /-- To a property of an object. -/
  | property (key : String)
  deriving DecidableEq

/-- Where a value stands among the arguments of a call. -/
structure Location where
  /-- The steps down from the argument, the last one first. -/
  path : List Step
  /-- The position of the argument. -/
  position : Nat
  deriving DecidableEq

/-- A step as it is written. -/
def Step.text : Step → String
  | element index => ordinal index ++ " element"
  | property key => "property " ++ key

namespace Location

/-- The location of an argument. -/
def argument (position : Nat) : Location := ⟨[], position⟩

/-- The location one step further down. -/
def below (l : Location) (step : Step) : Location := ⟨step :: l.path, l.position⟩

/-- Steps, the last one first, in front of the argument they lead from. -/
def pathText (position : Nat) : List Step → String
  | [] => ordinal position
  | step :: path => step.text ++ " of " ++ pathText position path

/-- A location as it is written. -/
def text (l : Location) : String := pathText l.position l.path

example : (⟨[.property "name", .element 0], 2⟩ : Location).text =
    "property name of 0th element of 2nd" := by decide

end Location

/-- A location in a call of a method. -/
structure Site where
  /-- The method. -/
  method : String
  /-- Where the value stands. -/
  location : Location
  deriving DecidableEq

namespace Site

/-- The site of an argument. -/
def argument (method : String) (position : Nat) : Site := ⟨method, .argument position⟩

/-- The site one step further down. -/
def below (s : Site) (step : Step) : Site := ⟨s.method, s.location.below step⟩

/-- The site of an element. -/
def element (s : Site) (index : Nat) : Site := s.below (.element index)

/-- The site of a property. -/
def property (s : Site) (key : String) : Site := s.below (.property key)

end Site

end CallGuard
