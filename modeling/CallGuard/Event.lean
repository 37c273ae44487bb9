import CallGuard.Failure

/-!
# Events

What the library tells an observer about itself : warnings about reported failures
and about a profile that cannot be read, and a remark when checking is off. The
fields of an event are in the order of their names.
-/

namespace CallGuard

/-- How urgent an event is. -/
inductive Level
  /-- Something is wrong. -/
  | warn
  /-- Something may be of interest. -/
  | debug
  deriving DecidableEq

/-- The name of a level. -/
def Level.name : Level → String
  | warn => "WARN"
  | debug => "DEBUG"

/-- Something that the library tells about itself. -/
structure Event where
  /-- How urgent it is. -/
  level : Level
  /-- What it says, by name. -/
  fields : List (String × String)
  deriving DecidableEq

namespace Event

/-- A failure has been reported. -/
def ofFailure (f : Failure) : Event where
  level := .warn
  fields := [("code", f.code), ("location", f.location), ("message", f.message),
    ("method", f.method)]

/-- A guard has been built that checks nothing. -/
def disabled (method : String) : Event where
  level := .debug
  fields := [("message", "validation disabled"), ("method", method)]

/-- A variable of the environment holds no profile. -/
def ignoredProfile (name error : String) : Event where
  level := .warn
  fields := [("error", error), ("message", "ignoring invalid build profile"), ("var", name)]

end Event

end CallGuard
