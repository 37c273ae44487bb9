import CallGuard.Proofs.Parts

/-!
# Conformance

`Checker.Conforms` says what a checker stands for, as a relation between checkers and
values with a rule for each way to conform. It knows of no sites, no calls and no order :
all elements of an array, all properties of an object and some alternative of a union
conform, whichever is looked at first.

A value passes a checker if and only if it conforms, for the checkers that are built
from those of this library alone (`Checker.IsStandard`). `Conforms.passes` is by
induction over the rules, `IsStandard.conforms_of_passes` over the checker; both go
through `passes_outcome_iff`, so that each rule answers for one checker's own outcome and
its parts. Since `Conforms` has no site, `IsStandard.passes_check_congr` follows : where a
value stands does not decide whether it passes.
-/

namespace CallGuard

namespace Checker

/-! ## Checkers of this library -/

/-- Checkers with no custom checker inside. -/
inductive IsStandard : Checker → Prop
  | kindOf (expected : Kind) : IsStandard (kindOf expected)
  | any : IsStandard any
  | instanceOf (expected : Class) : IsStandard (instanceOf expected)
  | oneOf (allowed : List Value) : IsStandard (oneOf allowed)
  | arrayOf {c : Checker} : IsStandard c → IsStandard (arrayOf c)
  | objectOf {c : Checker} : IsStandard c → IsStandard (objectOf c)
  | shape {fields : Properties Checker} :
    (∀ field ∈ fields.toList, IsStandard field.2) → IsStandard (shape fields)
  | oneOfType {cs : List Checker} : (∀ c ∈ cs, IsStandard c) → IsStandard (oneOfType cs)
  | required {c : Checker} : IsStandard c → IsStandard (required c)
  | nullable {c : Checker} : IsStandard c → IsStandard (nullable c)
  | rest {c : Checker} : IsStandard c → IsStandard (rest c)

theorem IsStandard.of_mem_children {c d : Checker} (hc : c.IsStandard) (hd : d ∈ c.children) :
    d.IsStandard := by
  cases hc with
  | kindOf | any | instanceOf | oneOf => cases hd
  | shape h =>
    obtain ⟨field, hf, rfl⟩ := List.mem_map.1 hd
    exact h field hf
  | oneOfType h => exact h d hd
  | arrayOf h | objectOf h | required h | nullable h | rest h =>
    exact List.mem_singleton.1 hd ▸ h

/-! ## The relation -/

/-- A value is what a checker says. -/
inductive Conforms : Checker → Value → Prop
  /-- A missing value conforms to every checker that is no modifier. -/
  | missing {c : Checker} {v : Value} : c.isPlain → v.isNullish → Conforms c v
  | kindOf {expected : Kind} {v : Value} : v.kind = expected → Conforms (kindOf expected) v
  | any {v : Value} : Conforms any v
  /-- The class lies on the line of parents of the value's own class. -/
  | instanceOf {expected own : Class} {v : Value} :
    v.ownClass? = some own → expected ∈ own.ancestry → Conforms (instanceOf expected) v
  | oneOf {allowed : List Value} {w v : Value} :
    w ∈ allowed → w.strictEq v ∨ w.isNaN ∧ v.isNaN → Conforms (oneOf allowed) v
  | arrayOf {c : Checker} {items : List Value} :
    (∀ item ∈ items, Conforms c item) → Conforms (arrayOf c) (.array items)
  | objectOf {c : Checker} {class? : Option Class} {p : Properties Value} :
    (∀ pair ∈ p.toList, Conforms c pair.2) → Conforms (objectOf c) (.object class? p)
  /-- Only keys that both the shape and the object have are asked about. -/
  | shape {fields : Properties Checker} {class? : Option Class} {p : Properties Value} :
    (∀ key c w, fields.get? key = some c → p.get? key = some w → Conforms c w) →
      Conforms (shape fields) (.object class? p)
  | oneOfType {cs : List Checker} {c : Checker} {v : Value} :
    c ∈ cs → Conforms c v → Conforms (oneOfType cs) v
  | required {c : Checker} {v : Value} :
    v.isNullish = false → Conforms c v → Conforms (required c) v
  | nullableMissing {c : Checker} {v : Value} : v.isNullish → Conforms (nullable c) v
  | nullable {c : Checker} {v : Value} : Conforms c v → Conforms (nullable c) v
  | rest {c : Checker} {v : Value} : Conforms c v → Conforms (rest c) v

/-! ## Passing is conforming -/

theorem passes_check_iff_of_isPlain {c : Checker} (hc : c.isPlain) (v : Value) (s : Site) :
    (c.check v s).passes ↔ v.isNullish ∨
      (c.test v s).passes ∧ ∀ p ∈ c.parts .present v, (p.outcome s).passes := by
  rw [check_of_isPlain hc]
  by_cases hv : v.isNullish
  · simp [hv, Outcome.passes]
  · rw [if_neg hv, ← outcome_present, passes_outcome_iff]
    simp [hv, own]

theorem isInstanceOf_iff (v : Value) (expected : Class) :
    v.isInstanceOf expected ↔ ∃ own, v.ownClass? = some own ∧ expected ∈ own.ancestry := by
  simp only [Value.isInstanceOf_iff_exists, Class.isSubclassOf_iff]

theorem isSome_array?_iff (v : Value) : v.array?.isSome ↔ ∃ items, v = .array items := by
  cases v <;> simp [Value.array?]

theorem isSome_object?_iff (v : Value) : v.object?.isSome ↔ ∃ class? p, v = .object class? p := by
  cases v <;> simp [Value.object?]

theorem isAllowed_iff (allowed : List Value) (v : Value) :
    isAllowed allowed v ↔ ∃ w ∈ allowed, w.strictEq v ∨ w.isNaN ∧ v.isNaN := by
  simp [isAllowed, Value.sameValue]

/-- Soundness : a value that conforms passes, wherever it stands. -/
theorem Conforms.passes {c : Checker} {v : Value} (h : c.Conforms v) (s : Site) :
    (c.check v s).passes := by
  induction h generalizing s with
  | missing hc hv => exact (passes_check_iff_of_isPlain hc _ s).2 (Or.inl hv)
  | kindOf hk =>
    refine (passes_check_iff_of_isPlain rfl _ s).2 (Or.inr ⟨?_, by simp [parts]⟩)
    simpa [test] using hk
  | any => exact (passes_check_iff_of_isPlain rfl _ s).2 (Or.inr ⟨rfl, by simp [parts]⟩)
  | instanceOf hown hmem =>
    refine (passes_check_iff_of_isPlain rfl _ s).2 (Or.inr ⟨?_, by simp [parts]⟩)
    simpa [test] using (isInstanceOf_iff _ _).2 ⟨_, hown, hmem⟩
  | oneOf hw hsame =>
    refine (passes_check_iff_of_isPlain rfl _ s).2 (Or.inr ⟨?_, by simp [parts]⟩)
    simpa [test] using (isAllowed_iff _ _).2 ⟨_, hw, hsame⟩
  | arrayOf _ ih =>
    refine (passes_check_iff_of_isPlain rfl _ s).2 (Or.inr ⟨rfl, fun p hp => ?_⟩)
    obtain ⟨⟨item, i⟩, hi, rfl⟩ := List.mem_map.1 hp
    exact ih item (List.fst_mem_of_mem_zipIdx hi) _
  | objectOf _ ih =>
    refine (passes_check_iff_of_isPlain rfl _ s).2 (Or.inr ⟨rfl, fun p hp => ?_⟩)
    obtain ⟨pair, hpair, rfl⟩ := List.mem_map.1 hp
    exact ih pair hpair _
  | @shape fields class? properties _ ih =>
    refine (passes_check_iff_of_isPlain rfl _ s).2 (Or.inr ⟨rfl, fun p hp => ?_⟩)
    obtain ⟨⟨key, w, c⟩, hb, rfl⟩ := List.mem_map.1 hp
    obtain ⟨hw, hc⟩ := mem_bound_iff.1 hb
    exact ih key c w hc (properties.mem_toList_iff.1 hw) _
  | oneOfType hc _ ih =>
    refine (passes_check_iff_of_isPlain rfl _ s).2 (Or.inr ⟨?_, by simp [parts]⟩)
    simpa [test] using ⟨_, hc, ih s⟩
  | required hv _ ih => simpa [check_required, hv] using ih s
  | nullableMissing hv => simp [check_nullable, hv, Outcome.passes]
  | nullable _ ih =>
    rw [check_nullable]
    split
    · rfl
    · exact ih s
  | rest _ ih => exact (check_rest _ _ _).symm ▸ ih s

theorem conforms_of_isPlain {c : Checker} (hc : c.isPlain) {v : Value} {s : Site}
    (h : (c.check v s).passes)
    (hthere : (c.test v s).passes → (∀ p ∈ c.parts .present v, (p.outcome s).passes) →
      c.Conforms v) : c.Conforms v := by
  rcases (passes_check_iff_of_isPlain hc v s).1 h with hv | ⟨ht, hp⟩
  · exact .missing hc hv
  · exact hthere ht hp

/-- Completeness : what passes a checker of this library conforms. -/
theorem IsStandard.conforms_of_passes {c : Checker} (hc : c.IsStandard) {v : Value} {s : Site}
    (h : (c.check v s).passes) : c.Conforms v := by
  induction hc generalizing v s with
  | kindOf expected =>
    refine conforms_of_isPlain rfl h fun ht _ => ?_
    exact .kindOf (by simpa [test] using ht)
  | any => exact .any
  | instanceOf expected =>
    refine conforms_of_isPlain rfl h fun ht _ => ?_
    obtain ⟨own, hown, hmem⟩ := (isInstanceOf_iff v expected).1 (by simpa [test] using ht)
    exact .instanceOf hown hmem
  | oneOf allowed =>
    refine conforms_of_isPlain rfl h fun ht _ => ?_
    obtain ⟨w, hw, hsame⟩ := (isAllowed_iff allowed v).1 (by simpa [test] using ht)
    exact .oneOf hw hsame
  | arrayOf _ ih =>
    refine conforms_of_isPlain rfl h fun ht hp => ?_
    obtain ⟨items, rfl⟩ := (isSome_array?_iff v).1 (by simpa [test] using ht)
    refine .arrayOf fun item hitem => ?_
    obtain ⟨i, hi⟩ := List.getElem?_of_mem hitem
    exact ih (hp _ (List.mem_map_of_mem (List.mk_mem_zipIdx_iff_getElem?.2 hi)))
  | objectOf _ ih =>
    refine conforms_of_isPlain rfl h fun ht hp => ?_
    obtain ⟨class?, p, rfl⟩ := (isSome_object?_iff v).1 (by simpa [test] using ht)
    exact .objectOf fun pair hpair => ih (hp _ (List.mem_map_of_mem hpair))
  | shape _ ih =>
    refine conforms_of_isPlain rfl h fun ht hp => ?_
    obtain ⟨class?, p, rfl⟩ := (isSome_object?_iff v).1 (by simpa [test] using ht)
    refine .shape fun key c w hc hw => ?_
    exact ih (key, c) ((Properties.mem_toList_iff _).2 hc)
      (hp _ (List.mem_map_of_mem (mem_bound_iff.2 ⟨p.mem_toList_iff.2 hw, hc⟩)))
  | oneOfType _ ih =>
    refine conforms_of_isPlain rfl h fun ht _ => ?_
    simp only [test, Outcome.passes_ofBool, List.any_eq_true] at ht
    obtain ⟨c, hmem, hc⟩ := ht
    exact .oneOfType hmem (ih c hmem hc)
  | required _ ih =>
    rw [check_required] at h
    by_cases hv : v.isNullish
    · simp [hv, Outcome.passes] at h
    · exact .required (by simpa using hv) (ih (by simpa [hv] using h))
  | nullable _ ih =>
    rw [check_nullable] at h
    by_cases hv : v.isNullish
    · exact .nullableMissing hv
    · exact .nullable (ih (by simpa [hv] using h))
  | rest _ ih => exact .rest (ih (by simpa using h))

/-- Where a value stands does not decide whether it passes. -/
theorem IsStandard.passes_check_congr {c : Checker} (hc : c.IsStandard) (v : Value)
    (s s' : Site) : (c.check v s).passes ↔ (c.check v s').passes :=
  ⟨fun h => (hc.conforms_of_passes h).passes s', fun h => (hc.conforms_of_passes h).passes s⟩

/-- A shape that is written from keys and checkers asks about the last checker of each key. -/
theorem conforms_ofFields_iff (fields : List (String × Checker)) (v : Value) :
    (ofFields fields).Conforms v ↔ v.isNullish ∨ ∃ class? p, v = .object class? p ∧
      ∀ key c w, fields.reverse.lookup key = some c → p.get? key = some w → c.Conforms w := by
  simp only [← Properties.get?_ofList]
  constructor
  · intro h
    cases h with
    | missing _ hv => exact Or.inl hv
    | shape h => exact Or.inr ⟨_, _, rfl, h⟩
  · rintro (hv | ⟨class?, p, rfl, h⟩)
    · exact .missing rfl hv
    · exact .shape h

/-- A value passes a checker of this library if and only if it conforms, wherever it stands.
A shape that is written from keys and checkers means the last checker of each key. -/
theorem passes_check_iff_conforms {c : Checker} (hc : c.IsStandard) (v : Value) (s : Site) :
    ((c.check v s).passes ↔ c.Conforms v) ∧
      ∀ fields w, (ofFields fields).Conforms w ↔ w.isNullish ∨ ∃ class? p, w = .object class? p ∧
        ∀ key d u, fields.reverse.lookup key = some d → p.get? key = some u → d.Conforms u :=
  ⟨⟨hc.conforms_of_passes, fun h => h.passes s⟩, conforms_ofFields_iff⟩

/-- A key that a shape requires may be absent, but not null. -/
theorem conforms_shape_of_required :
    (ofFields [("a", any), ("a", required any)]).IsStandard ∧
      (ofFields [("a", any), ("a", required any)]).Conforms (.object none .empty) ∧
      ¬(ofFields [("a", any), ("a", required any)]).Conforms
        (.object none (.ofList [("a", .null)])) := by
  have hc : (ofFields [("a", any), ("a", required any)]).IsStandard := by
    refine .shape fun field hf => ?_
    have : field = ("a", required any) := List.mem_singleton.1 hf
    exact this ▸ .required .any
  refine ⟨hc, ?_, fun h => ?_⟩
  · exact (passes_check_iff_conforms hc _ (.argument "m" 0)).1.1 (by decide)
  · exact absurd ((passes_check_iff_conforms hc _ (.argument "m" 0)).1.2 h) (by decide)

end Checker

end CallGuard
