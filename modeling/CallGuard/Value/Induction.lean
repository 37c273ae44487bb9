import CallGuard.Value.Basic

/-!
# Induction over values

A value is an array, an object, or has no parts. `Value.induct` proves a statement
for all values from these three cases, where the elements of an array and the
properties of an object may be taken to satisfy it already.
-/

namespace CallGuard

namespace Value

/-- Whether a value is neither an array nor an object. -/
def isLeaf : Value → Bool
  | array _ | object _ _ => false
  | _ => true

/-- The statements that an induction over values starts from. -/
structure Cases (P : Value → Prop) : Prop where
  /-- A value that has no parts. -/
  leaf : ∀ v : Value, v.isLeaf → P v
  /-- An array, whose elements satisfy the statement. -/
  array : ∀ items, (∀ v ∈ items, P v) → P (array items)
  /-- An object, whose properties satisfy the statement. -/
  object : ∀ c (p : Properties Value), (∀ pair ∈ p.toList, P pair.2) → P (object c p)

variable {P : Value → Prop}

mutual

/-- Induction over the parts of values. -/
theorem induct (cases : Cases P) : (v : Value) → P v
  | .array items => cases.array items (induct_items cases items)
  | .object c ⟨entries, nodup⟩ => cases.object c ⟨entries, nodup⟩ (induct_entries cases entries)
  | .undefined => cases.leaf _ rfl
  | .null => cases.leaf _ rfl
  | .bool _ => cases.leaf _ rfl
  | .number _ => cases.leaf _ rfl
  | .string _ => cases.leaf _ rfl
  | .symbol _ => cases.leaf _ rfl
  | .function _ => cases.leaf _ rfl
  | .date _ => cases.leaf _ rfl
  | .regexp _ => cases.leaf _ rfl

/-- Every element of an array satisfies the statement. -/
theorem induct_items (cases : Cases P) : (items : List Value) → ∀ v ∈ items, P v
  | [], _, h => absurd h List.not_mem_nil
  | w :: rest, v, h => by
    rcases List.mem_cons.1 h with e | h
    · rw [e]
      exact induct cases w
    · exact induct_items cases rest v h

/-- Every property of an object satisfies the statement. -/
theorem induct_entries (cases : Cases P) {keys : List String} :
    (entries : Entries Value keys) → ∀ pair ∈ entries.toList, P pair.2
  | .nil, _, h => absurd h List.not_mem_nil
  | .cons _ w rest, pair, h => by
    rcases List.mem_cons.1 h with e | h
    · rw [e]
      exact induct cases w
    · exact induct_entries cases rest pair h

end

end Value

end CallGuard
