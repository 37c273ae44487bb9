import CallGuard.Value.Basic

/-!
# Strict equality

`strictEq` compares values of one kind : truth values, texts, symbols,
functions, dates and patterns by what they are, numbers numerically, so that
NaN is unequal to itself and the zeros are equal, arrays element by element.
Objects are equal if they have the same class, as many properties as each
other, and every property of the left one has an equal one on the right,
wherever it stands there.

`sameValue` is strict equality with one exception at the top : NaN is the same
value as NaN.
-/

namespace CallGuard

mutual

/-- Strict equality of values. -/
def Value.strictEq : Value → Value → Bool
  | .undefined, .undefined => true
  | .null, .null => true
  | .bool a, .bool b => a == b
  | .number x, .number y => x.numEq y
  | .string s, .string t => s == t
  | .symbol s, .symbol t => decide (s = t)
  | .function f, .function g => decide (f = g)
  | .array as, .array bs => strictEqItems as bs
  | .object c ⟨entries, _⟩, .object d q =>
    decide (c = d) && entries.toList.length == q.size && strictEqEntries entries q
  | .date d, .date e => decide (d = e)
  | .regexp p, .regexp q => p == q
  | _, _ => false

/-- Strict equality of arrays, element by element. -/
def strictEqItems : List Value → List Value → Bool
  | [], [] => true
  | a :: as, b :: bs => a.strictEq b && strictEqItems as bs
  | _, _ => false

/-- Whether every entry has a strictly equal property under its key. -/
def strictEqEntries : {keys : List String} → Entries Value keys → Properties Value → Bool
  | _, .nil, _ => true
  | _, .cons key value rest, q =>
    (match q.get? key with
      | some other => value.strictEq other
      | none => false) && strictEqEntries rest q

end

/-- Strict equality, except that NaN is the same value as NaN. -/
def Value.sameValue (v w : Value) : Bool := v.strictEq w || v.isNaN && w.isNaN

/-- Strict equality of objects. -/
def Object.strictEq (o p : Object) : Bool := (Value.ofObject o).strictEq (Value.ofObject p)

/-! ## Equality of containers -/

theorem strictEqItems_eq (as bs : List Value) :
    strictEqItems as bs =
      (as.length == bs.length && (as.zip bs).all fun pair => pair.1.strictEq pair.2) := by
  induction as generalizing bs with
  | nil => cases bs <;> simp [strictEqItems]
  | cons a as ih =>
    cases bs with
    | nil => simp [strictEqItems]
    | cons b bs =>
      simp only [strictEqItems, ih, List.length_cons, List.zip_cons_cons, List.all_cons]
      rw [← Bool.and_assoc, Bool.and_comm (a.strictEq b), Bool.and_assoc]
      congr 1
      simp

theorem strictEqEntries_eq {keys : List String} (entries : Entries Value keys)
    (q : Properties Value) :
    strictEqEntries entries q =
      entries.toList.all fun pair => (q.get? pair.1).any fun other => pair.2.strictEq other := by
  induction entries with
  | nil => simp [strictEqEntries, Entries.toList]
  | cons key value rest ih =>
    rw [strictEqEntries, ih, Entries.toList, List.all_cons]
    cases q.get? key <;> rfl

/-- Objects are equal if they have the same class, as many properties as each other, and every
property of the one has an equal one in the other. -/
theorem strictEq_object (c d : Option Class) (p q : Properties Value) :
    (Value.object c p).strictEq (.object d q) =
      (decide (c = d) && p.size == q.size &&
        p.toList.all fun pair => (q.get? pair.1).any fun other => pair.2.strictEq other) := by
  obtain ⟨entries, nodup⟩ := p
  rw [Value.strictEq, strictEqEntries_eq, Properties.toList,
    ← Properties.length_toList ⟨entries, nodup⟩]
  rfl

end CallGuard
