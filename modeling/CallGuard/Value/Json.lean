import CallGuard.Json.Basic
import CallGuard.Value.Equality
import CallGuard.Value.Text

/-!
# Values and JSON

`Value.toJson` writes a value as a JSON document and loses what JSON has no
words for : undefined, symbols, functions, NaN and the infinities become null, a
date its text, a regular expression an object without members, and an object
forgets its class. Whole numbers below `2 ^ 53` in size become integers.

`Value.ofJson` reads a document back, and `Value.argumentsOf` takes a document
for the arguments of a call : the elements of an array, or else one argument.

Both keep the names and the order of the members of an object, which is seen
in the types of `toJsonEntries` and `ofJsonEntries`.
-/

namespace CallGuard

/-- A number as a JSON document. -/
def Number.toJson (x : Number) : Json :=
  if finite : x.isFinite then
    match x.toInt? with
    | some n =>
      if small : n.natAbs < 2 ^ (53 : Nat) then .number (.integer n (by omega))
      else .number (.real x finite)
    | none => .number (.real x finite)
  else .null

mutual

/-- A value as a JSON document. -/
def Value.toJson : Value → Json
  | .undefined | .null | .symbol _ | .function _ => .null
  | .bool b => .bool b
  | .number x => x.toJson
  | .string s => .string s
  | .array items => .array (toJsonItems items)
  | .object _ ⟨entries, nodup⟩ => .object ⟨toJsonEntries entries, nodup⟩
  | .date d => .string d.text
  | .regexp _ => .object .empty

/-- The elements of an array as JSON documents. -/
def toJsonItems : List Value → List Json
  | [] => []
  | v :: vs => v.toJson :: toJsonItems vs

/-- The properties of an object as members of a JSON object. -/
def toJsonEntries : {keys : List String} → Entries Value keys → Entries Json keys
  | _, .nil => .nil
  | _, .cons key value rest => .cons key value.toJson (toJsonEntries rest)

end

mutual

/-- A JSON document as a value. -/
def Value.ofJson : Json → Value
  | .null => .null
  | .bool b => .bool b
  | .number n => .number n.toNumber
  | .string s => .string s
  | .array items => .array (ofJsonItems items)
  | .object ⟨entries, nodup⟩ => .object none ⟨ofJsonEntries entries, nodup⟩

/-- The elements of a JSON array as values. -/
def ofJsonItems : List Json → List Value
  | [] => []
  | j :: js => Value.ofJson j :: ofJsonItems js

/-- The members of a JSON object as properties. -/
def ofJsonEntries : {keys : List String} → Entries Json keys → Entries Value keys
  | _, .nil => .nil
  | _, .cons key value rest => .cons key (Value.ofJson value) (ofJsonEntries rest)

end

/-- A JSON document as the arguments of a call. -/
def Value.argumentsOf : Json → List Value
  | .array items => items.map Value.ofJson
  | j => [Value.ofJson j]

/-! ## Conversion of containers -/

theorem toJsonItems_eq_map (vs : List Value) : toJsonItems vs = vs.map Value.toJson := by
  induction vs with
  | nil => rfl
  | cons v vs ih => rw [toJsonItems, ih, List.map_cons]

theorem ofJsonItems_eq_map (js : List Json) : ofJsonItems js = js.map Value.ofJson := by
  induction js with
  | nil => rfl
  | cons j js ih => rw [ofJsonItems, ih, List.map_cons]

theorem toJsonEntries_eq_map {keys : List String} (e : Entries Value keys) :
    toJsonEntries e = e.map Value.toJson := by
  induction e with
  | nil => rfl
  | cons key value rest ih => rw [toJsonEntries, ih, Entries.map]

theorem ofJsonEntries_eq_map {keys : List String} (e : Entries Json keys) :
    ofJsonEntries e = e.map Value.ofJson := by
  induction e with
  | nil => rfl
  | cons key value rest ih => rw [ofJsonEntries, ih, Entries.map]

/-- The properties of an object are converted one by one. -/
theorem toJson_object (c : Option Class) (p : Properties Value) :
    (Value.object c p).toJson = .object (p.map Value.toJson) := by
  obtain ⟨entries, nodup⟩ := p
  rw [Value.toJson, toJsonEntries_eq_map, Properties.map]

/-- The members of an object are converted one by one. -/
theorem ofJson_object (p : Properties Json) :
    Value.ofJson (.object p) = .object none (p.map Value.ofJson) := by
  obtain ⟨entries, nodup⟩ := p
  rw [Value.ofJson, ofJsonEntries_eq_map, Properties.map]

end CallGuard
