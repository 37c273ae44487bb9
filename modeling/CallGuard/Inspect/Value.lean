import CallGuard.Inspect.Form
import CallGuard.Value.Text

/-!
# Values under inspection

How values are built : every value is shown with its constructor, a class with all
its parents, and an object with its class and its properties in order.
-/

namespace CallGuard

/-- A kind under inspection. -/
def Kind.inspect : Kind → String
  | array => "Array"
  | regexp => "RegExp"
  | date => "Date"
  | symbol => "Symbol"
  | object => "Object"
  | string => "String"
  | number => "Number"
  | boolean => "Boolean"
  | function => "Function"
  | undefined => "Undefined"

/-- A class under inspection. -/
def Class.inspect : Class → String
  | object => node "Object" none
  | derived _ name parent => node name (some parent.inspect)
where
  /-- A class with a name and a parent. -/
  node (name : String) (parent? : Option String) : String :=
    Inspect.tuple "Class" (Inspect.record "ClassNode"
      [("name", Inspect.text name), ("parent", Inspect.option parent?)])

/-- A function under inspection. -/
def Function.inspect (f : Function) : String :=
  Inspect.record "Function" [("name", Inspect.option (f.name?.map Inspect.text))]

mutual

/-- A value under inspection. -/
def Value.inspect : Value → String
  | .undefined => "Undefined"
  | .null => "Null"
  | .bool b => Inspect.tuple "Bool" (Inspect.bool b)
  | .number x => Inspect.tuple "Number" x.inspect
  | .string s => Inspect.tuple "String" (Inspect.text s)
  | .symbol s => Inspect.tuple "Symbol" s.text
  | .function f => Inspect.tuple "Function" f.inspect
  | .array items => Inspect.tuple "Array" (Inspect.list (inspectItems items))
  | .object class? ⟨entries, _⟩ =>
    Inspect.tuple "Object" (Inspect.record "Object"
      [("class", Inspect.option (class?.map Class.inspect)),
        ("properties", Inspect.map (inspectEntries entries))])
  | .date d => Inspect.tuple "Date" d.inspect
  | .regexp pattern => Inspect.tuple "RegExp" (Inspect.tuple "Regex" (Inspect.text pattern))

/-- The elements of an array under inspection. -/
def inspectItems : List Value → List String
  | [] => []
  | v :: vs => v.inspect :: inspectItems vs

/-- The properties of an object under inspection. -/
def inspectEntries : {keys : List String} → Entries Value keys → List (String × String)
  | _, .nil => []
  | _, .cons key value rest => (key, value.inspect) :: inspectEntries rest

end

end CallGuard
