import CallGuard.Number.Written
import CallGuard.Value.Basic

/-!
# Values in messages

The text of a value as a message shows it. An array is its elements between
commas, where a nullish element leaves its place empty; an object is only the
name of its class.
-/

namespace CallGuard

namespace Symbol

/-- A symbol in a message. -/
def text (s : Symbol) : String := "Symbol(" ++ s.description?.getD "" ++ ")"

end Symbol

namespace Function

/-- A function in a message. -/
def text (f : Function) : String := "function " ++ f.name?.getD "anonymous"

end Function

mutual

/-- A value in a message. -/
def Value.text : Value → String
  | .undefined => "undefined"
  | .null => "null"
  | .bool b => if b then "true" else "false"
  | .number x => x.text
  | .string s => s
  | .symbol s => s.text
  | .function f => f.text
  | .array items => ",".intercalate (textItems items)
  | .object class? _ => "[object " ++ (class?.getD .object).name ++ "]"
  | .date d => d.text
  | .regexp pattern => "/" ++ pattern ++ "/"

/-- The elements of an array in a message. -/
def textItems : List Value → List String
  | [] => []
  | v :: vs => (if v.isNullish then "" else v.text) :: textItems vs

end

theorem textItems_eq (vs : List Value) :
    textItems vs = vs.map fun v => if v.isNullish then "" else v.text := by
  induction vs with
  | nil => rfl
  | cons v vs ih => rw [textItems, ih, List.map_cons]

end CallGuard
