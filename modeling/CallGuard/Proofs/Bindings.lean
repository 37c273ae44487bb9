import CallGuard.Proofs.Parts

/-!
# Bindings of shapes

A shape goes through the properties of an object in their order, and skips those whose key
has no checker. A skipped property is as good as one that passes (`Checker.checkBound`), and so
the check of a shape is the check of all properties, each by the checker that is bound to its
key, if there is one (`Checker.checkPresent_shape_eq`).

Hence the result of a shape, failure included, depends on nothing but what is bound to the keys
of the object (`Checker.outcome_shape_congr`). How the shape was written does not matter, nor do
its bindings for other keys, and a property without a checker can be written into the object at
any place (`Checker.outcome_shape_insert`). A checker of properties does what a shape does that
binds it to every key of the object (`Checker.outcome_objectOf_eq`), although the two go through
the object on their own.
-/

namespace CallGuard

/-- The keys of an object. Other values have none. -/
def Value.keys (v : Value) : List String := v.object?.elim [] Object.keys

theorem Properties.fst_mem_keys {α : Type} {p : Properties α} {pair : String × α}
    (h : pair ∈ p.toList) : pair.1 ∈ p.keys :=
  p.map_fst_toList ▸ List.mem_map_of_mem h

/-! ## Passes in between -/

theorem firstFailure_cons_congr (o : Outcome) {os os' : List Outcome}
    (h : firstFailure os = firstFailure os') :
    firstFailure (o :: os) = firstFailure (o :: os') := by
  cases o with
  | pass => exact h
  | fail f => rfl

/-- A pair that passes whatever its value can be written at any place. -/
theorem firstFailure_map_place {α : Type} {g : String × α → Outcome} {key : String}
    (hg : ∀ a, g (key, a) = .pass) (a : α) (l : List (String × α)) :
    firstFailure ((place key a l).map g) = firstFailure (l.map g) := by
  induction l with
  | nil => rw [place, List.map_singleton, hg, firstFailure_pass_cons, List.map_nil]
  | cons pair l ih =>
    obtain ⟨k, b⟩ := pair
    by_cases hk : k = key
    · subst hk
      rw [place, if_pos rfl, List.map_cons, List.map_cons, hg, hg]
    · rw [place, if_neg hk, List.map_cons, List.map_cons]
      exact firstFailure_cons_congr _ ih

namespace Checker

/-! ## Properties and what is bound to them -/

/-- How the check of a property ends, given the checker that is bound to its key, if one is. -/
def checkBound (bound? : Option Checker) (v : Value) (s : Site) : Outcome :=
  bound?.elim .pass fun c => c.check v s

theorem firstFailure_map_bound (fields : List (String × Checker)) (pairs : List (String × Value))
    (s : Site) :
    firstFailure ((Behaviour.bound fields pairs).map fun b => b.2.2.check b.2.1 (s.property b.1)) =
      firstFailure (pairs.map fun pair =>
        checkBound (fields.lookup pair.1) pair.2 (s.property pair.1)) := by
  induction pairs with
  | nil => rfl
  | cons pair pairs ih =>
    unfold Behaviour.bound at ih ⊢
    rw [List.map_cons]
    cases h : fields.lookup pair.1 with
    | none => rw [List.filterMap_cons_none (by rw [h]; rfl), checkBound, Option.elim_none,
        firstFailure_pass_cons, ih]
    | some c =>
      rw [List.filterMap_cons_some (by rw [h]; rfl), List.map_cons]
      exact firstFailure_cons_congr _ ih

/-- A shape has every property checked by what is bound to its key. -/
theorem checkPresent_shape_eq (fields : Properties Checker) (class? : Option Class)
    (p : Properties Value) (s : Site) :
    (shape fields).checkPresent (.object class? p) s =
      firstFailure (p.toList.map fun pair =>
        checkBound (fields.get? pair.1) pair.2 (s.property pair.1)) :=
  (checkPresent_shape_object fields class? p s).trans (firstFailure_map_bound _ _ s)

/-- Plain checkers agree on a value once they agree on it as a value that is there. -/
theorem outcome_eq_of_checkPresent_eq {c d : Checker} (hc : c.isPlain) (hd : d.isPlain) {v : Value}
    (h : ∀ s, c.checkPresent v s = d.checkPresent v s) (entry : Entry) (s : Site) :
    c.outcome entry v s = d.outcome entry v s := by
  cases entry with
  | present => exact h s
  | check => rw [outcome_check, outcome_check, check_of_isPlain hc, check_of_isPlain hd, h s]

/-- Shapes that have the properties of a value checked alike have the same result. -/
theorem outcome_shape_congr {fields fields' : Properties Checker} {v : Value}
    (h : ∀ key ∈ v.keys, checkBound (fields.get? key) = checkBound (fields'.get? key))
    (entry : Entry) (s : Site) :
    (shape fields).outcome entry v s = (shape fields').outcome entry v s := by
  refine outcome_eq_of_checkPresent_eq rfl rfl (fun s => ?_) entry s
  cases v with
  | object class? p =>
    rw [checkPresent_shape_eq, checkPresent_shape_eq]
    congr 1
    exact List.map_congr_left fun pair hpair => by rw [h pair.1 (Properties.fst_mem_keys hpair)]
  | _ => rfl

/-- A property whose key has no checker can be written without effect. -/
theorem outcome_shape_insert {fields : Properties Checker} {key : String}
    (h : fields.get? key = none) (class? : Option Class) (p : Properties Value) (w : Value)
    (entry : Entry) (s : Site) :
    (shape fields).outcome entry (.object class? (p.insert key w)) s =
      (shape fields).outcome entry (.object class? p) s := by
  have hpresent : (shape fields).checkPresent (.object class? (p.insert key w)) s =
      (shape fields).checkPresent (.object class? p) s := by
    rw [checkPresent_shape_eq, checkPresent_shape_eq, Properties.toList_insert]
    exact firstFailure_map_place (fun a => by rw [h]; rfl) w _
  -- Neither object is nullish, so that both entries come to this.
  cases entry with
  | present => exact hpresent
  | check =>
    rw [outcome_check, check_of_isPlain rfl, check_of_isPlain rfl, hpresent]
    rfl

/-- A shape that binds one checker to every key of a value checks properties by it. -/
theorem outcome_objectOf_eq {c : Checker} {fields : Properties Checker} {v : Value}
    (h : ∀ key ∈ v.keys, fields.get? key = some c) (entry : Entry) (s : Site) :
    (objectOf c).outcome entry v s = (shape fields).outcome entry v s := by
  refine outcome_eq_of_checkPresent_eq rfl rfl (fun s => ?_) entry s
  cases v with
  | object class? p =>
    rw [checkPresent_objectOf_object, checkPresent_shape_eq]
    congr 1
    refine List.map_congr_left fun pair hpair => ?_
    rw [h pair.1 (Properties.fst_mem_keys hpair)]
    rfl
  | _ => rfl

/-! ## Writing shapes -/

theorem fields_foldl_field (pairs : List (String × Checker)) (shape : Shape) :
    (pairs.foldl (fun shape pair => shape.field pair.1 pair.2) shape).fields =
      shape.fields.insertAll pairs := by
  induction pairs generalizing shape with
  | nil => rfl
  | cons pair pairs ih => exact ih (shape.field pair.1 pair.2)

/-- A shape that is built field by field is the shape of these fields. -/
theorem ofShape_foldl_field (pairs : List (String × Checker)) :
    ofShape (pairs.foldl (fun shape pair => shape.field pair.1 pair.2) .empty) = ofFields pairs :=
  congrArg shape (fields_foldl_field pairs .empty)

theorem get?_eq_none_of_not_mem {pairs : List (String × Checker)} {key : String}
    (h : key ∉ pairs.map Prod.fst) : (Properties.ofList pairs).get? key = none :=
  (Properties.get?_eq_none_iff _).2 (mt Properties.mem_keys_ofList.1 h)

/-- The result of a shape, failure included, by either entry, is the same whether it is written
at once or field by field, and for any two lists of fields whose last checkers agree on the keys
of the value. A property under a key of no field makes no difference to it, wherever it is
written. And a checker of properties has the result of any shape whose last checkers for the
keys of the value are this one. -/
theorem outcome_of_bindings (entry : Entry) (s : Site) :
    (∀ pairs v, (ofShape (pairs.foldl (fun shape pair => shape.field pair.1 pair.2) .empty)).outcome
      entry v s = (ofFields pairs).outcome entry v s) ∧
    (∀ pairs pairs' v,
      (∀ key ∈ v.keys, pairs.reverse.lookup key = pairs'.reverse.lookup key) →
        (ofFields pairs).outcome entry v s = (ofFields pairs').outcome entry v s) ∧
    (∀ pairs class? p key w, key ∉ pairs.map Prod.fst →
      (ofFields pairs).outcome entry (.object class? (p.insert key w)) s =
        (ofFields pairs).outcome entry (.object class? p) s) ∧
    ∀ c pairs v, (∀ key ∈ v.keys, pairs.reverse.lookup key = some c) →
      (objectOf c).outcome entry v s = (ofFields pairs).outcome entry v s := by
  refine ⟨fun pairs v => by rw [ofShape_foldl_field], fun pairs pairs' v h => ?_,
    fun pairs class? p key w h => ?_, fun c pairs v h => ?_⟩
  · refine outcome_shape_congr (fun key hkey => ?_) entry s
    rw [Properties.get?_ofList, Properties.get?_ofList, h key hkey]
  · exact outcome_shape_insert (get?_eq_none_of_not_mem h) class? p w entry s
  · refine outcome_objectOf_eq (fun key hkey => ?_) entry s
    rw [Properties.get?_ofList, h key hkey]

/-- The first failure follows the order of the object and the last bindings, also behind a
property that nothing is bound to. -/
theorem outcome_of_bindings_of_repeats :
    let text := kindOf .string
    let pairs := [("a", text), ("b", any), ("z", required any), ("b", required text)]
    let pairs' := [("b", required text), ("a", text)]
    let p := Properties.ofList [("b", .null), ("a", .bool true)]
    let s := Site.argument "save" 2
    let e := Cause.required.failure (s.property "b")
    (∀ key ∈ (Value.object none p).keys,
      pairs.reverse.lookup key = pairs'.reverse.lookup key) ∧
      "c" ∉ pairs.map Prod.fst ∧
      (ofShape (pairs.foldl (fun shape pair => shape.field pair.1 pair.2) .empty)).check
        (.object none (p.insert "c" .undefined)) s = .fail e ∧
      (ofFields pairs').check (.object none p) s = .fail e ∧
      (objectOf (required text)).check (.object none p) s = .fail e := by
  intro text pairs pairs' p s e
  obtain ⟨hbuilt, hagree, hinsert, hobjectOf⟩ := outcome_of_bindings .check s
  have hkeys : ∀ key ∈ (Value.object none p).keys,
      pairs.reverse.lookup key = pairs'.reverse.lookup key := by
    intro key hkey
    rcases List.mem_pair.1 hkey with rfl | rfl <;> rfl
  have hnew : "c" ∉ pairs.map Prod.fst := by decide
  have hpairs' : (ofFields pairs').check (.object none p) s = .fail e := by decide
  refine ⟨hkeys, hnew, ?_, hpairs', ?_⟩
  · exact ((hbuilt pairs _).trans (hinsert pairs none p "c" .undefined hnew)).trans
      ((hagree pairs pairs' _ hkeys).trans hpairs')
  · refine (hobjectOf (required text) [("a", required text), ("b", required text)] _ ?_).trans
      (by decide)
    intro key hkey
    rcases List.mem_pair.1 hkey with rfl | rfl <;> rfl

end Checker

end CallGuard
