import CallGuard.Guard.Logging
import CallGuard.Guard.Strict
import CallGuard.Profile

/-!
# Building guards

A `Config` decides how guards are built : whether they check anything, and whether
there is a sink for failures. Building a guard that checks something fails if the
checkers do not make a signature. Building one that checks nothing never fails,
whatever the checkers are, and is worth a remark.
-/

namespace CallGuard

/-- How guards are built. -/
structure Config where
  /-- Whether they check anything. -/
  profile : Profile := .default
  /-- Whether there is a sink that logging guards hand failures to. -/
  hasSink : Bool := false
  deriving DecidableEq

/-- What building a guard comes to. -/
structure Built (α : Type) where
  /-- What there is to tell. -/
  events : List Event
  /-- The guard, or why there is none. -/
  result : Except SignatureError α

namespace Config

/-- Builds a guard for a method with `wrap`, or takes `off` if nothing is to be checked. -/
def build {α : Type} (config : Config) (off : α) (wrap : Signature → α) (method : String)
    (checkers : List Checker) : Built α :=
  if config.profile.isActive then ⟨[], (Signature.new? method checkers).map wrap⟩
  else ⟨[.disabled method], .ok off⟩

/-- Builds a strict guard. -/
def strict (config : Config) (method : String) (checkers : List Checker) : Built StrictGuard :=
  config.build .off .ofSignature method checkers

/-- Builds a logging guard. -/
def logging (config : Config) (method : String) (checkers : List Checker) : Built LoggingGuard :=
  config.build .off (.ofSignature · config.hasSink) method checkers

end Config

end CallGuard
