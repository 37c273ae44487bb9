import CallGuard.Checker.Behaviour
import CallGuard.Inspect.Value

/-!
# Checkers under inspection

How checkers are built. A list of allowed values is shown with the JSON text that
its failures give.
-/

namespace CallGuard

mutual

/-- A checker under inspection. -/
def Checker.inspect : Checker → String
  | .kindOf expected => Inspect.record "KindOf" [("expected", expected.inspect)]
  | .any => "Any"
  | .instanceOf expected => Inspect.record "InstanceOf" [("class", expected.inspect)]
  | .oneOf allowed =>
    Inspect.record "OneOf"
      [("allowed", Inspect.list (inspectItems allowed)),
        ("rendered", Inspect.text (allowedText allowed))]
  | .arrayOf element => Inspect.record "ArrayOf" [("element", element.inspect)]
  | .objectOf property => Inspect.record "ObjectOf" [("property", property.inspect)]
  | .shape ⟨entries, _⟩ =>
    Inspect.record "Shape" [("fields", Inspect.map (inspectFields entries))]
  | .oneOfType alternatives =>
    Inspect.record "OneOfType"
      [("alternatives", Inspect.list (inspectAlternatives alternatives))]
  | .required inner => Inspect.record "Required" [("inner", inner.inspect)]
  | .nullable inner => Inspect.record "Nullable" [("inner", inner.inspect)]
  | .rest inner => Inspect.record "Rest" [("inner", inner.inspect)]
  | .custom answers =>
    Inspect.record "Custom" [("label", Inspect.option (answers.label?.map Inspect.text))]

/-- The alternatives of a union under inspection. -/
def inspectAlternatives : List Checker → List String
  | [] => []
  | c :: rest => c.inspect :: inspectAlternatives rest

/-- The fields of a shape under inspection. -/
def inspectFields : {keys : List String} → Entries Checker keys → List (String × String)
  | _, .nil => []
  | _, .cons key c rest => (key, c.inspect) :: inspectFields rest

end

end CallGuard
