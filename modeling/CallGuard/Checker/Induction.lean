import CallGuard.Checker.Basic

/-!
# Induction over checkers

A checker looks at a value alone, or it has one checker inside, or several : the
fields of a shape or the alternatives of a union. `Checker.induct` proves a statement
for all checkers from these cases, where those inside may be taken to satisfy it.
-/

namespace CallGuard

namespace Checker

/-- Whether a checker has no checker inside. -/
def isLeaf : Checker → Bool
  | kindOf _ | any | instanceOf _ | oneOf _ | custom _ => true
  | _ => false

/-- The statements that an induction over checkers starts from. -/
structure Cases (P : Checker → Prop) : Prop where
  /-- A checker that looks at a value alone. -/
  leaf : ∀ c : Checker, c.isLeaf → P c
  /-- A checker of elements. -/
  arrayOf : ∀ c, P c → P (arrayOf c)
  /-- A checker of properties. -/
  objectOf : ∀ c, P c → P (objectOf c)
  /-- A shape. -/
  shape : ∀ fields : Properties Checker, (∀ field ∈ fields.toList, P field.2) → P (shape fields)
  /-- A union. -/
  oneOfType : ∀ cs, (∀ c ∈ cs, P c) → P (oneOfType cs)
  /-- The modifier that asks for a value. -/
  required : ∀ c, P c → P (required c)
  /-- The modifier that does without a value. -/
  nullable : ∀ c, P c → P (nullable c)
  /-- The modifier that takes the arguments that remain. -/
  rest : ∀ c, P c → P (rest c)

variable {P : Checker → Prop}

mutual

/-- Induction over the checkers inside checkers. -/
theorem induct (cases : Cases P) : (c : Checker) → P c
  | .arrayOf c => cases.arrayOf c (induct cases c)
  | .objectOf c => cases.objectOf c (induct cases c)
  | .shape ⟨entries, nodup⟩ => cases.shape ⟨entries, nodup⟩ (induct_fields cases entries)
  | .oneOfType cs => cases.oneOfType cs (induct_alternatives cases cs)
  | .required c => cases.required c (induct cases c)
  | .nullable c => cases.nullable c (induct cases c)
  | .rest c => cases.rest c (induct cases c)
  | .kindOf _ => cases.leaf _ rfl
  | .any => cases.leaf _ rfl
  | .instanceOf _ => cases.leaf _ rfl
  | .oneOf _ => cases.leaf _ rfl
  | .custom _ => cases.leaf _ rfl

/-- Every alternative of a union satisfies the statement. -/
theorem induct_alternatives (cases : Cases P) : (cs : List Checker) → ∀ c ∈ cs, P c
  | [], _, h => absurd h List.not_mem_nil
  | d :: tail, c, h => by
    rcases List.mem_cons.1 h with e | h
    · rw [e]
      exact induct cases d
    · exact induct_alternatives cases tail c h

/-- Every field of a shape satisfies the statement. -/
theorem induct_fields (cases : Cases P) {keys : List String} :
    (entries : Entries Checker keys) → ∀ field ∈ entries.toList, P field.2
  | .nil, _, h => absurd h List.not_mem_nil
  | .cons _ d tail, field, h => by
    rcases List.mem_cons.1 h with e | h
    · rw [e]
      exact induct cases d
    · exact induct_fields cases tail field h

end

end Checker

end CallGuard
