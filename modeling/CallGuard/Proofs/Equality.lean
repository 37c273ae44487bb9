import CallGuard.Proofs.Lookup
import CallGuard.Value.Equality
import CallGuard.Value.Induction

/-!
# Equal values

`Value.EqBy N` relates values that are the same at every depth but for the order of the
properties of objects, and for numbers, which are compared by `N`. It looks at both
sides alike : arrays are compared index by index and objects key by key.

Strict equality is this relation with numbers compared numerically
(`Value.strictEq_iff_eqBy`), although it goes through the properties of the left object
alone. So what is known of numbers carries over : `EqBy` is turned round and put together
as the relations between numbers are (`EqBy.symm`, `EqBy.comp`), and strict equality is
symmetric and transitive because numeric equality is. It is not reflexive, since NaN may
stand at any depth.
-/

namespace CallGuard

/-! ## Strict equality of containers -/

/-- Arrays are strictly equal if they are so index by index. -/
theorem strictEq_array_iff (as bs : List Value) :
    (Value.array as).strictEq (.array bs) ↔ as.length = bs.length ∧
      ∀ (i : Nat) a b, as[i]? = some a → bs[i]? = some b → a.strictEq b := by
  rw [Value.strictEq, strictEqItems_eq, Bool.and_eq_true, beq_iff_eq, List.all_eq_true]
  refine and_congr_right fun _ => ⟨fun h i a b ha hb => ?_, fun h pair hpair => ?_⟩
  · exact h (a, b) (List.mem_of_getElem? (List.getElem?_zip_eq_some.2 ⟨ha, hb⟩))
  · obtain ⟨i, hi⟩ := List.getElem?_of_mem hpair
    obtain ⟨ha, hb⟩ := List.getElem?_zip_eq_some.1 hi
    exact h i _ _ ha hb

/-- Objects are strictly equal if they have one class and are so key by key. -/
theorem strictEq_object_iff (c d : Option Class) (p q : Properties Value) :
    (Value.object c p).strictEq (.object d q) ↔
      c = d ∧ p.Rel (fun a b => a.strictEq b) q := by
  rw [strictEq_object, Properties.rel_iff, Bool.and_eq_true, Bool.and_eq_true, decide_eq_true_iff,
    beq_iff_eq, List.all_eq_true, and_assoc]
  simp only [Option.any_eq_true]

namespace Value

/-! ## Equality but for numbers and order -/

/-- Values are the same at every depth, whatever the order of properties, with numbers compared
by `N`. -/
inductive EqBy (N : Number → Number → Prop) : Value → Value → Prop
  | undefined : EqBy N undefined undefined
  | null : EqBy N null null
  | bool (b : Bool) : EqBy N (bool b) (bool b)
  | number {x y : Number} : N x y → EqBy N (number x) (number y)
  | string (s : String) : EqBy N (string s) (string s)
  | symbol (s : Symbol) : EqBy N (symbol s) (symbol s)
  | function (f : Function) : EqBy N (function f) (function f)
  | array {as bs : List Value} : as.length = bs.length →
    (∀ (i : Nat) a b, as[i]? = some a → bs[i]? = some b → EqBy N a b) →
      EqBy N (array as) (array bs)
  | object (class? : Option Class) {p q : Properties Value} : p.keys.Perm q.keys →
    (∀ key a b, p.get? key = some a → q.get? key = some b → EqBy N a b) →
      EqBy N (object class? p) (object class? q)
  | date (d : Date) : EqBy N (date d) (date d)
  | regexp (pattern : String) : EqBy N (regexp pattern) (regexp pattern)

section EqBy

variable {N M K : Number → Number → Prop} {a b c : Value}

theorem EqBy.mono (h : a.EqBy N b) (hN : ∀ x y, N x y → M x y) : a.EqBy M b := by
  induction h with
  | number h => exact .number (hN _ _ h)
  | array hlength _ ih => exact .array hlength ih
  | object class? hkeys _ ih => exact .object class? hkeys ih
  | _ => constructor

theorem EqBy.symm (h : a.EqBy N b) (hN : ∀ x y, N x y → M y x) : b.EqBy M a := by
  induction h with
  | number h => exact .number (hN _ _ h)
  | array hlength _ ih => exact .array hlength.symm fun i b a hb ha => ih i a b ha hb
  | object class? hkeys _ ih =>
    exact .object class? hkeys.symm fun key b a hb ha => ih key a b ha hb
  | _ => constructor

theorem exists_getElem?_of_length_eq {as bs : List Value} (h : as.length = bs.length) {i : Nat}
    {a : Value} (ha : as[i]? = some a) : ∃ b, bs[i]? = some b := by
  obtain ⟨hi, -⟩ := List.getElem?_eq_some_iff.1 ha
  exact ⟨bs[i], List.getElem?_eq_getElem (h ▸ hi)⟩

/-- One comparison after another is a comparison by what the two make of numbers. -/
theorem EqBy.comp (h : a.EqBy N b) (h' : b.EqBy M c) (hN : ∀ x y z, N x y → M y z → K x z) :
    a.EqBy K c := by
  induction h generalizing c with
  | number h =>
    cases h' with
    | number h' => exact .number (hN _ _ _ h h')
  | array hlength _ ih =>
    cases h' with
    | array hlength' h' =>
      refine .array (hlength.trans hlength') fun i a c ha hc => ?_
      obtain ⟨b, hb⟩ := exists_getElem?_of_length_eq hlength ha
      exact ih i a b ha hb (h' i b c hb hc)
  | object class? hkeys _ ih =>
    cases h' with
    | object _ hkeys' h' =>
      refine .object class? (hkeys.trans hkeys') fun key a c ha hc => ?_
      obtain ⟨b, hb⟩ := Properties.exists_get?_of_perm_keys hkeys ha
      exact ih key a b ha hb (h' key b c hb hc)
  | _ =>
    cases h'
    constructor

/-! ## Strict equality -/

theorem eq_of_strictEq_of_isLeaf (ha : a.isLeaf) (hnumber : ∀ x, a ≠ number x)
    (h : a.strictEq b) : a = b := by
  cases a <;> cases b <;> simp_all [strictEq, isLeaf]

theorem eqBy_of_strictEq : (a b : Value) → a.strictEq b → a.EqBy (fun x y => x.numEq y) b := by
  refine induct ⟨fun a ha b h => ?_, fun as ih b h => ?_, fun class? p ih b h => ?_⟩
  · cases a with
    | number x =>
      cases b with
      | number y => exact .number h
      | _ => cases h
    | array _ | object _ _ => cases ha
    | _ =>
      obtain rfl := eq_of_strictEq_of_isLeaf ha (by simp) h
      constructor
  · cases b with
    | array bs =>
      obtain ⟨hlength, hitems⟩ := (strictEq_array_iff as bs).1 h
      exact .array hlength fun i a b ha hb =>
        ih a (List.mem_of_getElem? ha) b (hitems i a b ha hb)
    | _ => cases h
  · cases b with
    | object class?' q =>
      obtain ⟨rfl, hrel⟩ := (strictEq_object_iff class? class?' p q).1 h
      exact .object class? hrel.perm_keys fun key a b ha hb =>
        ih (key, a) (p.mem_toList_iff.2 ha) b (hrel.rel_get? key a b ha hb)
    | _ => cases p; cases h

theorem strictEq_of_eqBy (h : a.EqBy (fun x y => x.numEq y) b) : a.strictEq b := by
  induction h with
  | number h => exact h
  | array hlength _ ih => exact (strictEq_array_iff _ _).2 ⟨hlength, ih⟩
  | object class? hkeys _ ih => exact (strictEq_object_iff _ _ _ _).2 ⟨rfl, hkeys, ih⟩
  | _ => simp [strictEq]

/-- Strict equality is the same value but for the order of properties, with numbers compared
numerically. -/
theorem strictEq_iff_eqBy : a.strictEq b ↔ a.EqBy (fun x y => x.numEq y) b :=
  ⟨eqBy_of_strictEq a b, strictEq_of_eqBy⟩

theorem strictEq_symm (h : a.strictEq b) : b.strictEq a :=
  strictEq_of_eqBy ((eqBy_of_strictEq a b h).symm fun x y hxy => x.numEq_comm y ▸ hxy)

theorem strictEq_trans (h : a.strictEq b) (h' : b.strictEq c) : a.strictEq c :=
  strictEq_of_eqBy ((eqBy_of_strictEq a b h).comp (eqBy_of_strictEq b c h') fun _ _ _ =>
    Number.numEq_trans)

end EqBy

/-- Strict equality is symmetric and transitive, for all values. -/
theorem strictEq_partial_equivalence (a b c : Value) :
    a.strictEq b = b.strictEq a ∧ (a.strictEq b → b.strictEq c → a.strictEq c) :=
  ⟨Bool.eq_iff_iff.2 ⟨strictEq_symm, strictEq_symm⟩, strictEq_trans⟩

/-- One object with its properties in three orders, and with both zeros. -/
theorem strictEq_of_three_orders :
    let x : Bool → String × Value := fun negative => ("x", number (.zero negative))
    let y : String × Value := ("y", array [null])
    let z : String × Value := ("z", bool true)
    let a := object none (.ofList [x false, y, z])
    let b := object none (.ofList [z, x true, y])
    let c := object none (.ofList [y, z, x false])
    a.strictEq b = b.strictEq a ∧ a.strictEq b ∧ b.strictEq c ∧ a.strictEq c := by
  intro x y z a b c
  obtain ⟨hcomm, htrans⟩ := strictEq_partial_equivalence a b c
  have hab : a.strictEq b := by decide
  have hbc : b.strictEq c := by decide
  exact ⟨hcomm, hab, hbc, htrans hab hbc⟩

end Value

end CallGuard
