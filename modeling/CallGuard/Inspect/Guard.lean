import CallGuard.Guard.Config
import CallGuard.Inspect.Checker

/-!
# Guards under inspection

How signatures, guards and configurations are built, and failures and errors with
them. A sink cannot be looked into and is shown as a callback.
-/

namespace CallGuard

/-- A sort of failure under inspection. -/
def FailureKind.inspect : FailureKind → String
  | missingRequired => "MissingRequired"
  | typeMismatch => "TypeMismatch"
  | valueMismatch => "ValueMismatch"

/-- A failure under inspection. -/
def Failure.inspect (f : Failure) : String :=
  Inspect.record "ValidationError"
    [("code", Inspect.text f.code), ("kind", f.kind.inspect), ("message", Inspect.text f.message),
      ("method", Inspect.text f.method), ("location", Inspect.text f.location),
      ("position", f.position.repr),
      ("params", Inspect.list (f.params.map fun param =>
        "(" ++ Inspect.text param.1 ++ ", " ++ Inspect.text param.2 ++ ")"))]

/-- A signature error under inspection. -/
def SignatureError.inspect : SignatureError → String
  | restNotLast method position =>
    Inspect.record "RestNotLast" [("method", Inspect.text method), ("position", position.repr)]

/-- A signature under inspection. -/
def Signature.inspect (s : Signature) : String :=
  Inspect.record "ParamList"
    [("method", Inspect.text s.method), ("checkers", Inspect.list (s.checkers.map Checker.inspect))]

/-- A profile under inspection. -/
def Profile.inspect : Profile → String
  | active => "Active"
  | disabled => "Disabled"

/-- A sink under inspection. -/
def inspectSink (hasSink : Bool) : String :=
  Inspect.option (if hasSink then some (Inspect.text "<callback>") else none)

/-- A strict guard under inspection. -/
def StrictGuard.inspect (g : StrictGuard) : String :=
  Inspect.record "StrictValidator"
    [("params", Inspect.option (g.signature?.map Signature.inspect))]

/-- A logging guard under inspection. -/
def LoggingGuard.inspect (g : LoggingGuard) : String :=
  Inspect.record "LoggingValidator"
    [("params", Inspect.option (g.signature?.map Signature.inspect)),
      ("sink", inspectSink g.hasSink)]

/-- A configuration under inspection. -/
def Config.inspect (c : Config) : String :=
  Inspect.record "ValidatorConfig" [("profile", c.profile.inspect), ("sink", inspectSink c.hasSink)]

end CallGuard
