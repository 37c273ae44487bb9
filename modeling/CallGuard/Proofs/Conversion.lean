import CallGuard.Proofs.Equality
import CallGuard.Proofs.Integers
import CallGuard.Value.Json

/-!
# Values to JSON and back

A value that is written as a JSON document and read back has lost what JSON has no words
for, and nothing else (`Value.ofJson_toJson`). It is written as the same document as
before, and it is strictly equal to the value if and only if the value has the shape of a
document (`Value.IsJson`) : no undefined, symbol, function, date, regular expression or
class, and no number that is not finite, at any depth. Whatever is read from a document has
that shape.

A finite number may change its representation on the way, from a number to an integer and
back to the nearest number, but comes out numerically equal
(`Number.exists_toJson_eq`).
-/

namespace CallGuard

/-! ## Numbers -/

theorem JsonNumber.isFinite_toNumber (n : JsonNumber) : n.toNumber.isFinite := by
  cases n with
  | integer n bounds => exact Number.isFinite_ofInt (by omega)
  | real x finite => exact finite

namespace Number

variable {x y : Number}

/-- A finite number is written as a JSON number that stands for it, up to the sign of a zero. -/
theorem exists_toJson_eq (h : x.isFinite) : ∃ n : JsonNumber,
    x.toJson = .number n ∧ n.toNumber.numEq x := by
  have hself : x.numEq x := by rw [numEq_self, isNaN_of_isFinite h]; rfl
  rw [toJson, dif_pos h]
  split
  · rename_i n hn
    split
    · exact ⟨_, rfl, numEq_ofInt_of_toInt? hn⟩
    · exact ⟨_, rfl, hself⟩
  · exact ⟨_, rfl, hself⟩

theorem toJson_eq_null (h : x.isFinite = false) : x.toJson = .null := by
  rw [toJson, dif_neg (by simp [h])]

/-- Numbers that are numerically equal are written alike. -/
theorem toJson_eq_of_numEq (h : x.numEq y) : x.toJson = y.toJson := by
  have hzero : ∀ {z : Number}, z.isZero → z.toJson = .number (.integer 0 (by decide)) := by
    intro z hz
    simp [toJson, isFinite_of_isZero hz, toInt?_of_isZero hz]
  simp only [numEq, Bool.and_eq_true, Bool.or_eq_true, decide_eq_true_eq] at h
  rcases h.2 with rfl | ⟨hx, hy⟩
  · rfl
  · rw [hzero hx, hzero hy]

end Number

/-! ## The shape of a document -/

namespace Value

/-- A value that JSON has words for, at every depth. -/
inductive IsJson : Value → Prop
  | null : IsJson null
  | bool (b : Bool) : IsJson (bool b)
  | number {x : Number} : x.isFinite → IsJson (number x)
  | string (s : String) : IsJson (string s)
  | array {items : List Value} : (∀ item ∈ items, IsJson item) → IsJson (array items)
  /-- An object may not belong to a class. -/
  | object {p : Properties Value} : (∀ pair ∈ p.toList, IsJson pair.2) → IsJson (object none p)

theorem isJson_array_iff (items : List Value) :
    (array items).IsJson ↔ ∀ item ∈ items, item.IsJson :=
  ⟨fun h => by cases h; assumption, .array⟩

theorem isJson_object_iff (class? : Option Class) (p : Properties Value) :
    (object class? p).IsJson ↔ class? = none ∧ ∀ pair ∈ p.toList, pair.2.IsJson := by
  constructor
  · intro h
    cases h with
    | object h => exact ⟨rfl, h⟩
  · rintro ⟨rfl, h⟩
    exact .object h

mutual

/-- What is read from a document has its shape. -/
theorem isJson_ofJson : (j : Json) → (ofJson j).IsJson
  | .null => .null
  | .bool b => .bool b
  | .number n => .number n.isFinite_toNumber
  | .string s => .string s
  | .array items => .array (isJson_ofJsonItems items)
  | .object ⟨entries, _⟩ => .object (isJson_ofJsonEntries entries)

theorem isJson_ofJsonItems : (items : List Json) → ∀ item ∈ ofJsonItems items, item.IsJson
  | [], _, h => absurd h List.not_mem_nil
  | j :: rest, item, h => by
    rcases List.mem_cons.1 h with rfl | h
    · exact isJson_ofJson j
    · exact isJson_ofJsonItems rest item h

theorem isJson_ofJsonEntries {keys : List String} :
    (entries : Entries Json keys) → ∀ pair ∈ (ofJsonEntries entries).toList, pair.2.IsJson
  | .nil, _, h => absurd h List.not_mem_nil
  | .cons _ j rest, pair, h => by
    rcases List.mem_cons.1 h with rfl | h
    · exact isJson_ofJson j
    · exact isJson_ofJsonEntries rest pair h

end

/-! ## There and back -/

/-- A value that is written and read back. -/
def reread (v : Value) : Value := ofJson v.toJson

theorem exists_reread_number {x : Number} (h : x.isFinite) :
    ∃ y, (number x).reread = number y ∧ y.numEq x := by
  obtain ⟨n, hn, heq⟩ := Number.exists_toJson_eq h
  exact ⟨n.toNumber, by rw [reread, toJson, hn, ofJson], heq⟩

theorem reread_number_eq_null {x : Number} (h : x.isFinite = false) :
    (number x).reread = null := by
  rw [reread, toJson, Number.toJson_eq_null h, ofJson]

theorem reread_array (items : List Value) :
    (array items).reread = array (items.map reread) := by
  rw [reread, toJson, toJsonItems_eq_map, ofJson, ofJsonItems_eq_map, List.map_map]
  rfl

theorem reread_object (class? : Option Class) (p : Properties Value) :
    (object class? p).reread = object none (p.map reread) := by
  rw [reread, toJson_object, ofJson_object, Properties.map_map]
  rfl

/-- A value that is read back is written as it was, with its properties in the same order. -/
theorem toJson_reread : (v : Value) → v.reread.toJson = v.toJson := by
  refine induct ⟨fun v hv => ?_, fun items ih => ?_, fun class? p ih => ?_⟩
  · cases v with
    | number x =>
      cases hx : x.isFinite with
      | true =>
        obtain ⟨y, hy, heq⟩ := exists_reread_number hx
        rw [hy, toJson, toJson, Number.toJson_eq_of_numEq heq]
      | false => rw [reread_number_eq_null hx, toJson, toJson, Number.toJson_eq_null hx]
    | array _ | object _ _ => cases hv
    | _ => rfl
  · rw [reread_array, toJson, toJson, toJsonItems_eq_map, toJsonItems_eq_map, List.map_map]
    exact congrArg Json.array (List.map_congr_left ih)
  · rw [reread_object, toJson_object, toJson_object, Properties.map_map]
    exact congrArg Json.object (Properties.map_congr ih)

theorem strictEq_map_array_iff (f : Value → Value) (items : List Value) :
    (array (items.map f)).strictEq (array items) ↔ ∀ item ∈ items, (f item).strictEq item := by
  rw [strictEq_array_iff]
  constructor
  · rintro ⟨-, h⟩ item hitem
    obtain ⟨i, hi⟩ := List.getElem?_of_mem hitem
    exact h i _ _ (by rw [List.getElem?_map, hi, Option.map_some]) hi
  · refine fun h => ⟨List.length_map f, fun i b a hb ha => ?_⟩
    rw [List.getElem?_map, ha, Option.map_some, Option.some.injEq] at hb
    exact hb ▸ h a (List.mem_of_getElem? ha)

theorem strictEq_map_object_iff (f : Value → Value) (class? : Option Class)
    (p : Properties Value) :
    (object none (p.map f)).strictEq (object class? p) ↔
      class? = none ∧ ∀ pair ∈ p.toList, (f pair.2).strictEq pair.2 := by
  rw [strictEq_object_iff, Properties.rel_map_left_iff, eq_comm]

/-- Reading back gives an equal value exactly if JSON has words for all of it. -/
theorem strictEq_reread_iff : (v : Value) → (v.reread.strictEq v ↔ v.IsJson) := by
  refine induct ⟨fun v hv => ?_, fun items ih => ?_, fun class? p ih => ?_⟩
  · cases v with
    | number x =>
      cases hx : x.isFinite with
      | true =>
        obtain ⟨y, hy, heq⟩ := exists_reread_number hx
        rw [hy]
        exact ⟨fun _ => .number hx, fun _ => heq⟩
      | false =>
        rw [reread_number_eq_null hx]
        constructor
        · intro h
          cases h
        · intro h
          cases h with
          | number hfinite =>
            rw [hfinite] at hx
            cases hx
    | null => exact ⟨fun _ => .null, fun _ => rfl⟩
    | bool b => exact ⟨fun _ => .bool b, fun _ => beq_self_eq_true b⟩
    | string s => exact ⟨fun _ => .string s, fun _ => beq_self_eq_true s⟩
    | array _ | object _ _ => cases hv
    -- All others are read back as a value of another kind.
    | _ => constructor <;> intro h <;> cases h
  · rw [reread_array, strictEq_map_array_iff, isJson_array_iff]
    exact forall₂_congr ih
  · rw [reread_object, strictEq_map_object_iff, isJson_object_iff]
    exact and_congr_right fun _ => forall₂_congr ih

/-- A value that is written as a document and read back is written as the same document, and is
strictly equal to what it was if and only if it has the shape of a document. What is read from
any document has, and so it comes back equal. -/
theorem ofJson_toJson (v : Value) :
    (ofJson v.toJson).toJson = v.toJson ∧ ((ofJson v.toJson).strictEq v ↔ v.IsJson) ∧
      ∀ j : Json, (ofJson j).IsJson ∧ (ofJson (ofJson j).toJson).strictEq (ofJson j) :=
  ⟨toJson_reread v, strictEq_reread_iff v, fun j =>
    ⟨isJson_ofJson j, (strictEq_reread_iff _).2 (isJson_ofJson j)⟩⟩

end Value

end CallGuard
