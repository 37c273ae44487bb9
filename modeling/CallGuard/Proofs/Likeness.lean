import CallGuard.Proofs.Conformance
import CallGuard.Proofs.Equality

/-!
# Values that are alike

Two values are alike (`Value.Alike`) if they are the same at every depth but for the
order of the properties of objects, the signs of zeros and the payloads of NaNs. It is an
equivalence (`Value.alike_equivalence`), and values that are strictly equal are alike.

Checkers of this library do not tell such values apart, at either entry and wherever the
values stand (`Checker.IsStandard.passes_iff_of_alike`). A checker says the same itself
about both (`Checker.passes_own_of_alike`), and the parts of the one that it has looked at
are alike to parts of the other (`Value.EqBy.exists_part`), although they may come in
another order. So a failure may name another property, but there is a failure for both
or for neither.
-/

namespace CallGuard

/-! ## Likeness -/

/-- Numbers are numerically equal, or both NaN. -/
def Number.Same (x y : Number) : Prop := x.numEq y ∨ x.isNaN ∧ y.isNaN

namespace Number

variable {x y z : Number}

theorem Same.refl (x : Number) : x.Same x := by
  cases h : x.isNaN <;> simp [Same, h]

theorem Same.symm (h : x.Same y) : y.Same x :=
  h.imp (fun h => x.numEq_comm y ▸ h) And.symm

theorem isNaN_eq_false_of_numEq (h : x.numEq y) : x.isNaN = false ∧ y.isNaN = false := by
  simp only [numEq, Bool.and_eq_true, Bool.not_eq_true'] at h
  exact h.1

theorem Same.isNaN_eq (h : x.Same y) : x.isNaN = y.isNaN := by
  rcases h with h | ⟨hx, hy⟩
  · obtain ⟨hx, hy⟩ := isNaN_eq_false_of_numEq h
    rw [hx, hy]
  · rw [hx, hy]

theorem numEq_of_same (h : x.numEq y) (h' : y.Same z) : x.numEq z := by
  rcases h' with h' | ⟨hy, -⟩
  · exact numEq_trans h h'
  · rw [(isNaN_eq_false_of_numEq h).2] at hy
    cases hy

theorem Same.trans (h : x.Same y) (h' : y.Same z) : x.Same z := by
  rcases h with h | ⟨hx, hy⟩
  · exact Or.inl (numEq_of_same h h')
  · exact Or.inr ⟨hx, h'.isNaN_eq ▸ hy⟩

end Number

namespace Value

/-- Values are the same at every depth but for the order of properties, the signs of zeros and
the payloads of NaNs. -/
def Alike : Value → Value → Prop := EqBy Number.Same

variable {N : Number → Number → Prop} {a b : Value}

theorem EqBy.refl (hN : ∀ x, N x x) : (a : Value) → a.EqBy N a := by
  refine induct ⟨fun a ha => ?_, fun items ih => ?_, fun class? p ih => ?_⟩
  · cases a with
    | number x => exact .number (hN x)
    | array _ | object _ _ => cases ha
    | _ => constructor
  · refine .array rfl fun i a b ha hb => ?_
    obtain rfl := Option.some.inj (ha.symm.trans hb)
    exact ih a (List.mem_of_getElem? ha)
  · refine .object class? (List.Perm.refl _) fun key a b ha hb => ?_
    obtain rfl := Option.some.inj (ha.symm.trans hb)
    exact ih (key, a) (p.mem_toList_iff.2 ha)

theorem alike_equivalence : Equivalence Alike where
  refl := EqBy.refl Number.Same.refl
  symm h := EqBy.symm h fun _ _ => Number.Same.symm
  trans h h' := EqBy.comp h h' fun _ _ _ => Number.Same.trans

theorem alike_of_strictEq (h : a.strictEq b) : a.Alike b :=
  (eqBy_of_strictEq a b h).mono fun _ _ => Or.inl

/-! ## What values that are alike have in common -/

theorem EqBy.kind_eq (h : a.EqBy N b) : a.kind = b.kind := by
  cases h <;> rfl

theorem EqBy.isNullish_eq (h : a.EqBy N b) : a.isNullish = b.isNullish := by
  cases h <;> rfl

theorem EqBy.isInstanceOf_eq (h : a.EqBy N b) (c : Class) :
    a.isInstanceOf c = b.isInstanceOf c := by
  cases h <;> rfl

theorem EqBy.isSome_array?_eq (h : a.EqBy N b) : a.array?.isSome = b.array?.isSome := by
  cases h <;> rfl

theorem EqBy.isSome_object?_eq (h : a.EqBy N b) : a.object?.isSome = b.object?.isSome := by
  cases h <;> rfl

theorem Alike.isNaN_eq (h : a.Alike b) : a.isNaN = b.isNaN := by
  cases h with
  | number h => exact h.isNaN_eq
  | _ => rfl

/-- What is strictly equal to one of two values that are alike is so to the other : it holds
no NaN, and so nor do they. -/
theorem strictEq_of_alike {w : Value} (h : w.strictEq a) (h' : a.Alike b) : w.strictEq b :=
  strictEq_of_eqBy ((eqBy_of_strictEq w a h).comp h' fun _ _ _ => Number.numEq_of_same)

theorem isAllowed_of_alike {allowed : List Value} (h : a.Alike b) (ha : isAllowed allowed a) :
    isAllowed allowed b := by
  rw [Checker.isAllowed_iff] at ha ⊢
  obtain ⟨w, hw, hsame⟩ := ha
  refine ⟨w, hw, ?_⟩
  rw [← h.isNaN_eq]
  exact hsame.imp_left fun heq => strictEq_of_alike heq h

/-- A part of one of two values stands for a part of the other, which the same checker looks at. -/
theorem EqBy.exists_part (h : a.EqBy N b) {c : Checker} {entry : Entry} {p : Part}
    (hp : p ∈ c.parts entry b) :
    ∃ q ∈ c.parts entry a, q.checker = p.checker ∧ q.entry = p.entry ∧
      q.value.EqBy N p.value := by
  cases c with
  | required c | rest c =>
    obtain rfl := List.mem_singleton.1 hp
    exact ⟨_, List.mem_singleton_self _, rfl, rfl, h⟩
  | nullable c =>
    simp only [Checker.parts, h.isNullish_eq] at hp ⊢
    split at hp
    · cases hp
    · rename_i hmissing
      obtain rfl := List.mem_singleton.1 hp
      rw [if_neg hmissing]
      exact ⟨_, List.mem_singleton_self _, rfl, rfl, h⟩
  | arrayOf c =>
    cases h with
    | array hlength hitems =>
      obtain ⟨⟨item, i⟩, hi, rfl⟩ := List.mem_map.1 hp
      rw [List.mk_mem_zipIdx_iff_getElem?] at hi
      obtain ⟨item', hi'⟩ := exists_getElem?_of_length_eq hlength.symm hi
      exact ⟨_, List.mem_map_of_mem (List.mk_mem_zipIdx_iff_getElem?.2 hi'), rfl, rfl,
        hitems i item' item hi' hi⟩
    | _ => cases hp
  | objectOf c =>
    cases h with
    | @object class? p q hkeys hvalues =>
      obtain ⟨⟨key, w⟩, hw, rfl⟩ := List.mem_map.1 hp
      rw [Properties.mem_toList_iff] at hw
      obtain ⟨w', hw'⟩ := Properties.exists_get?_of_perm_keys hkeys.symm hw
      exact ⟨_, List.mem_map_of_mem (p.mem_toList_iff.2 hw'), rfl, rfl, hvalues key w' w hw' hw⟩
    | _ => cases hp
  | shape fields =>
    cases h with
    | @object class? p q hkeys hvalues =>
      obtain ⟨⟨key, w, c⟩, hb, rfl⟩ := List.mem_map.1 hp
      obtain ⟨hw, hc⟩ := Checker.mem_bound_iff.1 hb
      rw [Properties.mem_toList_iff] at hw
      obtain ⟨w', hw'⟩ := Properties.exists_get?_of_perm_keys hkeys.symm hw
      exact ⟨_, List.mem_map_of_mem (Checker.mem_bound_iff.2 ⟨p.mem_toList_iff.2 hw', hc⟩), rfl,
        rfl, hvalues key w' w hw' hw⟩
    | _ => cases hp
  | _ => cases hp

end Value

/-! ## Verdicts -/

namespace Checker

variable {c : Checker} {a b : Value}

theorem passes_test_of_alike (hc : c.IsStandard) (h : a.Alike b) {s s' : Site}
    (hchildren : ∀ d ∈ c.children, (d.check a s).passes → (d.check b s').passes)
    (ha : (c.test a s).passes) : (c.test b s').passes := by
  cases hc with
  | kindOf _ => simpa [test, h.kind_eq] using ha
  | instanceOf expected => simpa [test, h.isInstanceOf_eq] using ha
  | oneOf allowed =>
    simp only [test, Outcome.passes_ofBool] at ha ⊢
    exact Value.isAllowed_of_alike h ha
  | arrayOf _ => simpa [test, h.isSome_array?_eq] using ha
  | objectOf _ | shape _ => simpa [test, h.isSome_object?_eq] using ha
  | oneOfType _ =>
    simp only [test, Outcome.passes_ofBool, List.any_eq_true] at ha ⊢
    obtain ⟨d, hd, hpass⟩ := ha
    exact ⟨d, hd, hchildren d hd hpass⟩
  | any | required _ | nullable _ | rest _ => rfl

theorem passes_own_of_alike (hc : c.IsStandard) (h : a.Alike b) {s s' : Site} {entry : Entry}
    (hchildren : ∀ d ∈ c.children, (d.check a s).passes → (d.check b s').passes)
    (ha : (c.own entry a s).passes) : (c.own entry b s').passes := by
  have htest := passes_test_of_alike hc h hchildren
  cases entry with
  | present => exact htest ha
  | check =>
    cases hc with
    | required _ => simpa [own, h.isNullish_eq] using ha
    | _ =>
      simp only [own, ← h.isNullish_eq] at ha ⊢
      split
      · rfl
      · rename_i hthere
        exact htest (by simpa [hthere] using ha)

theorem passes_outcome_of_alike (hc : c.IsStandard) (entry : Entry) (h : a.Alike b)
    {s s' : Site} (ha : (c.outcome entry a s).passes) : (c.outcome entry b s').passes := by
  induction c using induct_children generalizing entry a b s s' with
  | step c ih =>
    rw [passes_outcome_iff] at ha ⊢
    refine ⟨passes_own_of_alike hc h (fun d hd => ?_) ha.1, fun p hp => ?_⟩
    · exact ih d hd (hc.of_mem_children hd) .check h
    · -- Parts are matched by what they are, since their order may differ.
      obtain ⟨q, hq, hchecker, hentry, hvalue⟩ := h.exists_part hp
      have hmem := mem_children_of_mem_parts hp
      have hpass := ha.2 q hq
      rw [Part.outcome, hchecker, hentry] at hpass
      exact ih _ hmem (hc.of_mem_children hmem) _ hvalue hpass

theorem IsStandard.passes_outcome_congr (hc : c.IsStandard) (entry : Entry) (h : a.Alike b)
    (s s' : Site) : (c.outcome entry a s).passes ↔ (c.outcome entry b s').passes :=
  ⟨passes_outcome_of_alike hc entry h,
    passes_outcome_of_alike hc entry (Value.alike_equivalence.symm h)⟩

/-- Values that are alike, as strictly equal values are, pass the same checkers of this library,
wherever they stand and however the checkers are entered. -/
theorem IsStandard.passes_iff_of_alike (hc : c.IsStandard) :
    (∀ a b : Value, a.strictEq b → a.Alike b) ∧
      ∀ a b : Value, a.Alike b → ∀ s s' : Site,
        ((c.check a s).passes ↔ (c.check b s').passes) ∧
        ((c.checkPresent a s).passes ↔ (c.checkPresent b s').passes) :=
  ⟨fun _ _ => Value.alike_of_strictEq, fun _ _ h s s' =>
    ⟨hc.passes_outcome_congr .check h s s', hc.passes_outcome_congr .present h s s'⟩⟩

/-- Another order of properties, another zero and another NaN are as good. -/
theorem passes_of_alike_reordered :
    let c := objectOf (oneOf [.number (.zero false), .number .nan])
    let p : Properties Value := .ofList [("x", .number .nan), ("y", .number (.zero false))]
    let q : Properties Value :=
      .ofList [("y", .number (.zero true)), ("x", .number ⟨0xFFF8000000000001⟩)]
    c.IsStandard ∧ (Value.object none p).Alike (.object none q) ∧
      (Value.object none p).strictEq (.object none q) = false ∧
      (c.check (.object none p) (.argument "m" 0)).passes ∧
      (c.check (.object none q) (.argument "n" 1)).passes := by
  intro c p q
  have hc : c.IsStandard := .objectOf (.oneOf _)
  have hrel : p.Rel (Value.EqBy Number.Same) q := by
    refine Properties.rel_iff.2 ⟨rfl, fun pair hpair => ?_⟩
    rcases List.mem_pair.1 hpair with rfl | rfl
    · exact ⟨_, rfl, .number (Or.inr (by decide))⟩
    · exact ⟨_, rfl, .number (Or.inl (by decide))⟩
  have halike : (Value.object none p).Alike (.object none q) :=
    .object none hrel.perm_keys hrel.rel_get?
  have hpass : (c.check (.object none p) (.argument "m" 0)).passes := by decide
  obtain ⟨-, hcongr⟩ := hc.passes_iff_of_alike
  exact ⟨hc, halike, by decide, hpass, (hcongr _ _ halike _ _).1.1 hpass⟩

end Checker

end CallGuard
