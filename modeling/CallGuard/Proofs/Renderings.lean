import CallGuard.Proofs.Conversion
import CallGuard.Proofs.Likeness

/-!
# How values look

A value is seen from outside by its kind, by the classes that it belongs to, by its text in a
message and by its JSON document. Values that are alike look alike (`Value.looks_of_alike`) : all
of these are the same, but for the order of the members of objects in the documents.

Text and document go through a value on their own, apart from the comparison. They leave out the
sign of a zero and the payload of a NaN (`Number.Same.text_eq`, `Number.Same.toJson_eq`), and
nothing else in a value can differ but the order of properties. The text does not show properties,
and the documents have the same members in another order (`Json.Reordered`).
-/

namespace CallGuard

/-! ## Numbers -/

namespace Number

variable {x y : Number}

/-- Numbers that are numerically equal are one number or two zeros. -/
theorem eq_or_isZero_of_numEq (h : x.numEq y) : x = y ∨ x.isZero ∧ y.isZero := by
  simp only [numEq, Bool.and_eq_true, Bool.or_eq_true, decide_eq_true_eq] at h
  exact h.2

theorem isFinite_eq_false_of_isNaN (h : x.isNaN) : x.isFinite = false := by
  rw [← Bool.not_eq_true]
  intro hfinite
  rw [isNaN_of_isFinite hfinite] at h
  cases h

theorem text_of_isNaN (h : x.isNaN) : x.text = "NaN" := if_pos h

theorem text_of_isZero (h : x.isZero) : x.text = "0" := by
  have hfinite := isFinite_of_isZero h
  have hinfinite : x.isInfinite = false := by
    simp only [isFinite, isInfinite, decide_eq_true_eq, beq_eq_false_iff_ne] at hfinite ⊢
    omega
  simp [text, write, writeFinite, writeSize, NumberStyle.plain, h, isNaN_of_isFinite hfinite,
    hinfinite]

theorem Same.text_eq (h : x.Same y) : x.text = y.text := by
  rcases h with h | ⟨hx, hy⟩
  · rcases eq_or_isZero_of_numEq h with rfl | ⟨hx, hy⟩
    · rfl
    · rw [text_of_isZero hx, text_of_isZero hy]
  · rw [text_of_isNaN hx, text_of_isNaN hy]

theorem Same.toJson_eq (h : x.Same y) : x.toJson = y.toJson := by
  rcases h with h | ⟨hx, hy⟩
  · exact toJson_eq_of_numEq h
  · rw [toJson_eq_null (isFinite_eq_false_of_isNaN hx),
      toJson_eq_null (isFinite_eq_false_of_isNaN hy)]

end Number

/-! ## Documents up to order -/

namespace Json

/-- Documents are the same at every depth, whatever the order of the members of objects. -/
inductive Reordered : Json → Json → Prop
  | null : Reordered null null
  | bool (b : Bool) : Reordered (bool b) (bool b)
  | number (n : JsonNumber) : Reordered (number n) (number n)
  | string (s : String) : Reordered (string s) (string s)
  | array {is js : List Json} : is.length = js.length →
    (∀ (k : Nat) i j, is[k]? = some i → js[k]? = some j → Reordered i j) →
      Reordered (array is) (array js)
  | object {p q : Properties Json} : p.keys.Perm q.keys →
    (∀ key i j, p.get? key = some i → q.get? key = some j → Reordered i j) →
      Reordered (object p) (object q)

end Json

theorem Number.reordered_toJson (x : Number) : x.toJson.Reordered x.toJson := by
  cases h : x.isFinite with
  | true =>
    obtain ⟨n, hn, -⟩ := exists_toJson_eq h
    rw [hn]
    exact .number n
  | false =>
    rw [toJson_eq_null h]
    exact .null

namespace Value

variable {a b : Value}

/-! ## Texts and documents of values that are alike -/

theorem Alike.text_eq (h : a.Alike b) : a.text = b.text := by
  induction h with
  | number h => exact h.text_eq
  | @array as bs hlength hitems ih =>
    have hitem : ∀ (i : Nat) a b, as[i]? = some a → bs[i]? = some b →
        (if a.isNullish then "" else a.text) = if b.isNullish then "" else b.text := by
      intro i a b ha hb
      rw [(hitems i a b ha hb).isNullish_eq, ih i a b ha hb]
    have htexts : textItems as = textItems bs := by
      rw [textItems_eq, textItems_eq]
      refine List.ext_getElem (by simpa using hlength) fun i hi hi' => ?_
      rw [List.getElem_map, List.getElem_map]
      exact hitem i _ _ (List.getElem?_eq_getElem _) (List.getElem?_eq_getElem _)
    rw [text, text, htexts]
  | object class? _ _ _ => rw [text, text]
  | _ => rfl

theorem Alike.reordered_toJson (h : a.Alike b) : a.toJson.Reordered b.toJson := by
  induction h with
  | number h =>
    rw [toJson, toJson, h.toJson_eq]
    exact Number.reordered_toJson _
  | @array as bs hlength _ ih =>
    rw [toJson, toJson, toJsonItems_eq_map, toJsonItems_eq_map]
    refine .array (by simpa using hlength) fun k i j hi hj => ?_
    rw [List.getElem?_map, Option.map_eq_some_iff] at hi hj
    obtain ⟨a, ha, rfl⟩ := hi
    obtain ⟨b, hb, rfl⟩ := hj
    exact ih k a b ha hb
  | @object class? p q hkeys _ ih =>
    rw [toJson_object, toJson_object]
    refine .object hkeys fun key i j hi hj => ?_
    rw [Properties.get?_map, Option.map_eq_some_iff] at hi hj
    obtain ⟨a, ha, rfl⟩ := hi
    obtain ⟨b, hb, rfl⟩ := hj
    exact ih key a b ha hb
  | bool b => exact .bool b
  | string s => exact .string s
  | date d => exact .string d.text
  | regexp pattern => exact .object (List.Perm.refl _) fun key i j hi _ => by cases hi
  | undefined | null | symbol _ | function _ => exact .null

/-- Values that are alike, as strictly equal values are, have the same kind, belong to the same
classes, have the same text in messages, and are written as the same JSON document but for the
order of the members of objects at every depth. -/
theorem looks_of_alike :
    (∀ a b : Value, a.strictEq b → a.Alike b) ∧
    ∀ a b : Value, a.Alike b → a.kind = b.kind ∧ (∀ c, a.isInstanceOf c = b.isInstanceOf c) ∧
      a.text = b.text ∧ a.toJson.Reordered b.toJson :=
  ⟨fun _ _ => alike_of_strictEq, fun _ _ h =>
    ⟨h.kind_eq, h.isInstanceOf_eq, h.text_eq, h.reordered_toJson⟩⟩

/-- An object of a class with its properties in another order, another NaN and another zero, in an
array with another zero. -/
theorem looks_of_alike_of_reordered :
    let user := Class.derived 5 "User" .object
    let zeros : Bool → Value := fun negative => array [number (.zero negative), undefined]
    let p : Properties Value := .ofList [("x", number .nan), ("y", zeros false)]
    let q : Properties Value := .ofList [("y", zeros true), ("x", number ⟨0xFFF8000000000001⟩)]
    let a := array [object (some user) p, number (.zero true), null]
    let b := array [object (some user) q, number (.zero false), null]
    a.Alike b ∧ a.strictEq b = false ∧ a.toJson.Reordered b.toJson ∧ a.toJson.text ≠ b.toJson.text ∧
      a.text = b.text ∧ b.text = "[object User],0," := by
  intro user zeros p q a b
  have hrel : p.Rel (EqBy Number.Same) q := by
    refine Properties.rel_iff.2 ⟨rfl, fun pair hpair => ?_⟩
    rcases List.mem_pair.1 hpair with rfl | rfl
    · exact ⟨_, rfl, .number (Or.inr (by decide))⟩
    · exact ⟨_, rfl, alike_of_strictEq (by decide)⟩
  have hitems : ∀ (i : Nat) v w,
      [object (some user) p, number (.zero true), null][i]? = some v →
      [object (some user) q, number (.zero false), null][i]? = some w → v.Alike w := by
    rintro (_ | _ | _ | i) v w hv hw <;> cases hv <;> cases hw
    · exact .object _ hrel.perm_keys hrel.rel_get?
    · exact .number (Or.inl (by decide))
    · exact .null
  have halike : a.Alike b := .array rfl hitems
  obtain ⟨-, hlooks⟩ := looks_of_alike
  obtain ⟨-, -, htext, hjson⟩ := hlooks a b halike
  exact ⟨halike, by decide, hjson, by decide +kernel, htext, by decide⟩

end Value

end CallGuard
