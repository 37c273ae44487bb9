import CallGuard.Checker.Call
import CallGuard.Json.Text
import CallGuard.Value.Json

/-!
# What checkers do

`Checker.behaviour` gives every checker its two entries, each a function from a
value and a site to the call that is made. A checker's behaviour is put together
from the behaviours of its parts by three combinators :

* `Behaviour.plain` is for a checker that passes missing values and answers to
  the others;
* `Behaviour.modifier` is for one that stands around another and may decide
  about missing values itself;
* `Behaviour.custom` is for one that is given by its answers.

Elements are checked by index, properties in the order of the object, both until
one fails; alternatives in the order of the union until one passes. A property whose
key has no checker in a shape is not checked, and a checker whose key is not in the
object has nothing to check.

`Checker.check` and `Checker.checkPresent` are the outcomes alone. The lemmas at the
end give them without calls, for the checkers that have others inside.
-/

namespace CallGuard

/-- What a checker does at each of its entries. -/
structure Behaviour where
  /-- With any value. -/
  check : Value → Site → Call
  /-- With a value that is there. -/
  present : Value → Site → Call

/-- The calls that a checker makes about a value, and how it ends. -/
structure Answer where
  /-- The calls. -/
  parts : List (Slot × Call)
  /-- The end. -/
  outcome : Outcome

/-- An answer that makes no calls. -/
def Answer.alone (outcome : Outcome) : Answer := ⟨[], outcome⟩

namespace Behaviour

/-- Passes missing values and answers to the others. -/
def plain (self : Checker) (answer : Value → Site → Answer) : Behaviour :=
  let present v s :=
    let a := answer v s
    Call.mk ⟨self, .present, v, s⟩ a.parts a.outcome
  { present := present
    check := fun v s =>
      if v.isNullish then .leaf ⟨self, .check, v, s⟩ .pass
      else .through ⟨self, .check, v, s⟩ .own (present v s) }

/-- Leaves everything to another checker, except for missing values if `missing?` says
what becomes of them. -/
def modifier (self : Checker) (missing? : Option (Site → Outcome)) (inner : Behaviour) :
    Behaviour where
  present v s := .through ⟨self, .present, v, s⟩ .inner (inner.present v s)
  check v s :=
    match v.isNullish, missing? with
    | true, some missing => .leaf ⟨self, .check, v, s⟩ (missing s)
    | _, _ => .through ⟨self, .check, v, s⟩ .inner (inner.check v s)

/-- Answers as given, and passes missing values unless an answer to them is given. -/
def custom (answers : Custom) : Behaviour :=
  let byPresent := plain (.custom answers) fun v s => .alone (answers.present v s)
  match answers.check? with
  | some answer =>
    { byPresent with check := fun v s => .leaf ⟨.custom answers, .check, v, s⟩ (answer v s) }
  | none => byPresent

/-- Calls the checker of the elements for each. -/
def elements (inner : Behaviour) (items : List Value) (site : Site) : Answer :=
  let calls := untilFailure (fun item => inner.check item.1 (site.element item.2)) items.zipIdx
  ⟨calls.map fun c => (.element, c), firstFailure (calls.map Call.outcome)⟩

/-- Calls the checker of the properties for each. -/
def properties (inner : Behaviour) (pairs : List (String × Value)) (site : Site) : Answer :=
  let calls := untilFailure (fun pair => inner.check pair.2 (site.property pair.1)) pairs
  ⟨calls.map fun c => (.property, c), firstFailure (calls.map Call.outcome)⟩

/-- The properties that have a checker under their key, with it. -/
def bound {α : Type} (fields : List (String × α)) (pairs : List (String × Value)) :
    List (String × Value × α) :=
  pairs.filterMap fun pair => (fields.lookup pair.1).map fun a => (pair.1, pair.2, a)

/-- Calls for each property the checker under its key, if there is one. -/
def fields (inner : List (String × Behaviour)) (pairs : List (String × Value)) (site : Site) :
    Answer :=
  let bound := bound inner pairs
  let calls := untilFailure (fun b => b.2.2.check b.2.1 (site.property b.1)) bound
  ⟨(bound.zip calls).map fun bc => (.field bc.1.1, bc.2), firstFailure (calls.map Call.outcome)⟩

/-- Calls the alternatives with one and the same value. -/
def alternatives (inner : List Behaviour) (v : Value) (site : Site) : Answer :=
  let calls := untilPass (fun b : Behaviour => b.check v site) inner
  ⟨calls.zipIdx.map fun ci => (.alternative ci.2, ci.1),
    .ofBool (calls.any Call.passes) site (.noMatchingType v inner.length)⟩

end Behaviour

/-- The JSON text of a list of allowed values. -/
def allowedText (allowed : List Value) : String := (Value.array allowed).toJson.text

/-- Whether a value is one of those allowed. -/
def isAllowed (allowed : List Value) (v : Value) : Bool := allowed.any (·.sameValue v)

mutual

/-- What a checker does. -/
def Checker.behaviour : Checker → Behaviour
  | .kindOf expected => .plain (.kindOf expected) fun v s =>
    .alone (.ofBool (decide (v.kind = expected)) s (.typeMismatch expected v.kind))
  | .any => .plain .any fun _ _ => .alone .pass
  | .instanceOf expected => .plain (.instanceOf expected) fun v s =>
    .alone (.ofBool (v.isInstanceOf expected) s (.notInstance expected))
  | .oneOf allowed => .plain (.oneOf allowed) fun v s =>
    .alone (if isAllowed allowed v then .pass
      else .fail (Cause.failure s (.notOneOf v (allowedText allowed))))
  | .arrayOf element =>
    let inner := element.behaviour
    .plain (.arrayOf element) fun v s =>
      match v with
      | .array items => inner.elements items s
      | other => .alone (.fail (Cause.failure s (.typeMismatch .array other.kind)))
  | .objectOf property =>
    let inner := property.behaviour
    .plain (.objectOf property) fun v s =>
      match v with
      | .object _ properties => inner.properties properties.toList s
      | other => .alone (.fail (Cause.failure s (.typeMismatch .object other.kind)))
  | .shape ⟨entries, nodup⟩ =>
    let inner := (fieldBehaviours entries).toList
    .plain (.shape ⟨entries, nodup⟩) fun v s =>
      match v with
      | .object _ properties => Behaviour.fields inner properties.toList s
      | other => .alone (.fail (Cause.failure s (.typeMismatch .object other.kind)))
  | .oneOfType alternatives =>
    let inner := behaviours alternatives
    .plain (.oneOfType alternatives) fun v s => Behaviour.alternatives inner v s
  | .required inner => .modifier (.required inner)
    (some fun s => .fail (Cause.failure s .required)) inner.behaviour
  | .nullable inner => .modifier (.nullable inner) (some fun _ => .pass) inner.behaviour
  | .rest inner => .modifier (.rest inner) none inner.behaviour
  | .custom answers => .custom answers

/-- What checkers do. -/
def behaviours : List Checker → List Behaviour
  | [] => []
  | c :: rest => c.behaviour :: behaviours rest

/-- What the checkers of a shape do. -/
def fieldBehaviours : {keys : List String} → Entries Checker keys → Entries Behaviour keys
  | _, .nil => .nil
  | _, .cons key c rest => .cons key c.behaviour (fieldBehaviours rest)

end

namespace Checker

/-- The call that is made when a checker is entered with any value. -/
def checkCall (c : Checker) (v : Value) (s : Site) : Call := c.behaviour.check v s

/-- The call that is made when a checker is entered with a value that is there. -/
def presentCall (c : Checker) (v : Value) (s : Site) : Call := c.behaviour.present v s

/-- How a check of any value ends. -/
def check (c : Checker) (v : Value) (s : Site) : Outcome := (c.checkCall v s).outcome

/-- How a check of a value that is there ends. -/
def checkPresent (c : Checker) (v : Value) (s : Site) : Outcome := (c.presentCall v s).outcome

/-- Checks a value as the argument of a method at a position. -/
def checkValue (c : Checker) (v : Value) (method : String) (position : Nat) : Outcome :=
  c.check v (.argument method position)

end Checker

/-! ## Outcomes, checker by checker -/

theorem behaviours_eq_map (cs : List Checker) : behaviours cs = cs.map Checker.behaviour := by
  induction cs with
  | nil => rfl
  | cons c rest ih => rw [behaviours, ih, List.map_cons]

theorem fieldBehaviours_eq_map {keys : List String} (e : Entries Checker keys) :
    fieldBehaviours e = e.map Checker.behaviour := by
  induction e with
  | nil => rfl
  | cons key c rest ih => rw [fieldBehaviours, ih, Entries.map]

theorem toList_fieldBehaviours {keys : List String} (e : Entries Checker keys)
    (nodup : keys.Nodup) :
    (fieldBehaviours e).toList =
      (Properties.toList ⟨e, nodup⟩).map fun field => (field.1, field.2.behaviour) := by
  rw [fieldBehaviours_eq_map, Entries.toList_map, Properties.toList]

namespace Behaviour

theorem outcome_elements (inner : Behaviour) (items : List Value) (s : Site) :
    (inner.elements items s).outcome =
      firstFailure (items.zipIdx.map fun item =>
        (inner.check item.1 (s.element item.2)).outcome) :=
  firstFailure_untilFailure _ _

theorem outcome_properties (inner : Behaviour) (pairs : List (String × Value)) (s : Site) :
    (inner.properties pairs s).outcome =
      firstFailure (pairs.map fun pair => (inner.check pair.2 (s.property pair.1)).outcome) :=
  firstFailure_untilFailure _ _

theorem outcome_fields (inner : List (String × Behaviour)) (pairs : List (String × Value))
    (s : Site) :
    (fields inner pairs s).outcome =
      firstFailure ((bound inner pairs).map fun b =>
        (b.2.2.check b.2.1 (s.property b.1)).outcome) :=
  firstFailure_untilFailure _ _

theorem outcome_alternatives (inner : List Behaviour) (v : Value) (s : Site) :
    (alternatives inner v s).outcome =
      .ofBool (inner.any fun b => (b.check v s).passes) s (.noMatchingType v inner.length) := by
  rw [alternatives, any_passes_untilPass]

theorem bound_map {α β : Type} (f : α → β) (fields : List (String × α))
    (pairs : List (String × Value)) :
    bound (fields.map fun field => (field.1, f field.2)) pairs =
      (bound fields pairs).map fun b => (b.1, b.2.1, f b.2.2) := by
  unfold bound
  rw [List.map_filterMap]
  congr 1
  funext pair
  rw [lookup_map]
  cases fields.lookup pair.1 <;> rfl

end Behaviour

namespace Checker

/-- Whether a checker passes missing values and leaves the others to its other entry. -/
def isPlain : Checker → Bool
  | required _ | nullable _ | rest _ => false
  | custom answers => answers.check?.isNone
  | _ => true

/-- A plain checker passes missing values and leaves the others to its other entry. -/
theorem check_of_isPlain {c : Checker} (h : c.isPlain) (v : Value) (s : Site) :
    c.check v s = if v.isNullish then .pass else c.checkPresent v s := by
  unfold check checkPresent checkCall presentCall
  cases c with
  | required inner => cases h
  | nullable inner => cases h
  | rest inner => cases h
  | custom answers =>
    have : answers.check? = none := by simpa [isPlain] using h
    simp only [behaviour, Behaviour.custom, this, Behaviour.plain]
    split <;> rfl
  | shape fields =>
    obtain ⟨entries, nodup⟩ := fields
    simp only [behaviour, Behaviour.plain]
    split <;> rfl
  | _ =>
    simp only [behaviour, Behaviour.plain]
    split <;> rfl

theorem check_required (c : Checker) (v : Value) (s : Site) :
    (required c).check v s =
      if v.isNullish then .fail (Cause.failure s .required) else c.check v s := by
  simp only [check, checkCall, behaviour, Behaviour.modifier]
  cases v.isNullish <;> rfl

theorem check_nullable (c : Checker) (v : Value) (s : Site) :
    (nullable c).check v s = if v.isNullish then .pass else c.check v s := by
  simp only [check, checkCall, behaviour, Behaviour.modifier]
  cases v.isNullish <;> rfl

@[simp] theorem check_rest (c : Checker) (v : Value) (s : Site) :
    (rest c).check v s = c.check v s := by
  simp only [check, checkCall, behaviour, Behaviour.modifier]
  cases v.isNullish <;> rfl

theorem checkPresent_arrayOf_array (c : Checker) (items : List Value) (s : Site) :
    (arrayOf c).checkPresent (.array items) s =
      firstFailure (items.zipIdx.map fun item => c.check item.1 (s.element item.2)) :=
  Behaviour.outcome_elements _ _ _

theorem checkPresent_objectOf_object (c : Checker) (class? : Option Class) (p : Properties Value)
    (s : Site) :
    (objectOf c).checkPresent (.object class? p) s =
      firstFailure (p.toList.map fun pair => c.check pair.2 (s.property pair.1)) :=
  Behaviour.outcome_properties _ _ _

theorem checkPresent_shape_object (fields : Properties Checker) (class? : Option Class)
    (p : Properties Value) (s : Site) :
    (shape fields).checkPresent (.object class? p) s =
      firstFailure ((Behaviour.bound fields.toList p.toList).map fun b =>
        b.2.2.check b.2.1 (s.property b.1)) := by
  obtain ⟨entries, nodup⟩ := fields
  refine (Behaviour.outcome_fields (fieldBehaviours entries).toList p.toList s).trans ?_
  rw [toList_fieldBehaviours entries nodup, Behaviour.bound_map, List.map_map]
  rfl

theorem checkPresent_oneOfType (alternatives : List Checker) (v : Value) (s : Site) :
    (oneOfType alternatives).checkPresent v s =
      .ofBool (alternatives.any fun c => (c.check v s).passes) s
        (.noMatchingType v alternatives.length) := by
  refine (Behaviour.outcome_alternatives (behaviours alternatives) v s).trans ?_
  rw [behaviours_eq_map, List.any_map, List.length_map]
  rfl

end Checker

end CallGuard
