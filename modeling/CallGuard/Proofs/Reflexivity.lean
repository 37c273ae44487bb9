import CallGuard.Proofs.Blame
import CallGuard.Proofs.Likeness

/-!
# Values that equal themselves

Strict equality is likeness of values in which no NaN stands (`Value.strictEq_iff_alike`) :
the orders of properties and the signs of zeros do not matter to either, and a NaN, which is
like every other, is equal to none. Every value is like itself, so that it equals itself if
and only if it holds no NaN (`Value.strictEq_self_iff`), at whatever depth.

A list of allowed values has an exception for NaN, but at the top alone. So to be listed is
not enough for a value with a NaN further down : it does not equal its own copy on the list,
and no other value on the list equals it (`Checker.passes_oneOf_iff_of_mem`).
-/

namespace CallGuard

namespace Value

/-- A NaN stands in the value, or is the value. -/
inductive HoldsNaN : Value → Prop
  | number {x : Number} : x.isNaN → HoldsNaN (number x)
  | element {items : List Value} {item : Value} : item ∈ items → HoldsNaN item →
    HoldsNaN (array items)
  | property {class? : Option Class} {p : Properties Value} {key : String} {w : Value} :
    p.get? key = some w → HoldsNaN w → HoldsNaN (object class? p)

variable {a b : Value}

theorem not_holdsNaN_of_strictEq (h : a.strictEq b) : ¬a.HoldsNaN := by
  intro hnan
  induction hnan generalizing b with
  | number hx =>
    cases eqBy_of_strictEq _ b h with
    | number hxy =>
      rw [(Number.isNaN_eq_false_of_numEq hxy).1] at hx
      cases hx
  | element hmem _ ih =>
    cases eqBy_of_strictEq _ b h with
    | array hlength hitems =>
      obtain ⟨i, hi⟩ := List.getElem?_of_mem hmem
      obtain ⟨b, hb⟩ := exists_getElem?_of_length_eq hlength hi
      exact ih (strictEq_of_eqBy (hitems i _ b hi hb))
  | property hw _ ih =>
    cases eqBy_of_strictEq _ b h with
    | object class? hkeys hvalues =>
      obtain ⟨b, hb⟩ := Properties.exists_get?_of_perm_keys hkeys hw
      exact ih (strictEq_of_eqBy (hvalues _ _ b hw hb))

theorem strictEq_of_alike_of_not_holdsNaN (h : a.Alike b) (hnan : ¬a.HoldsNaN) :
    a.strictEq b := by
  refine strictEq_of_eqBy ?_
  induction h with
  | number hsame =>
    rcases hsame with hxy | ⟨hx, -⟩
    · exact .number hxy
    · exact absurd (.number hx) hnan
  | array hlength _ ih =>
    exact .array hlength fun i a b ha hb =>
      ih i a b ha hb fun hitem => hnan (.element (List.mem_of_getElem? ha) hitem)
  | object class? hkeys _ ih =>
    exact .object class? hkeys fun key a b ha hb =>
      ih key a b ha hb fun hvalue => hnan (.property ha hvalue)
  | _ => constructor

/-- Strict equality is likeness without NaN. -/
theorem strictEq_iff_alike : a.strictEq b ↔ a.Alike b ∧ ¬a.HoldsNaN :=
  ⟨fun h => ⟨alike_of_strictEq h, not_holdsNaN_of_strictEq h⟩,
    fun h => strictEq_of_alike_of_not_holdsNaN h.1 h.2⟩

theorem strictEq_self_iff (v : Value) : v.strictEq v ↔ ¬v.HoldsNaN :=
  strictEq_iff_alike.trans (and_iff_right (alike_equivalence.refl v))

instance : DecidablePred HoldsNaN := fun v =>
  decidable_of_iff (¬v.strictEq v) (by rw [strictEq_self_iff, not_not])

theorem not_holdsNaN_of_isNullish {v : Value} (h : v.isNullish) : ¬v.HoldsNaN := by
  rintro (_ | _ | _) <;> cases h

/-- A value with a NaN further down is the same value as no other, and as its copies. -/
theorem sameValue_eq_false_of_holdsNaN {v : Value} (h : v.HoldsNaN) (htop : v.isNaN = false)
    (w : Value) : w.sameValue v = false := by
  have hne : w.strictEq v = false := by
    rw [← Bool.not_eq_true]
    exact fun heq => not_holdsNaN_of_strictEq (strictEq_symm heq) h
  rw [sameValue, hne, htop, Bool.and_false, Bool.or_false]

end Value

namespace Checker

theorem passes_check_oneOf_iff (allowed : List Value) (v : Value) (s : Site) :
    ((oneOf allowed).check v s).passes ↔ v.isNullish ∨ isAllowed allowed v := by
  rw [passes_check_iff_of_isPlain rfl]
  simp [test, parts]

theorem check_oneOf_of_holdsNaN (allowed : List Value) {v : Value} (s : Site) (h : v.HoldsNaN)
    (htop : v.isNaN = false) :
    (oneOf allowed).check v s = .fail (Cause.failure s (.notOneOf v (allowedText allowed))) := by
  have hthere : v.isNullish = false := by
    rw [← Bool.not_eq_true]
    exact fun hv => Value.not_holdsNaN_of_isNullish hv h
  exact (Refuses.oneOf hthere fun w _ => Value.sameValue_eq_false_of_holdsNaN h htop w).check_eq s

/-- A value equals itself if and only if it holds no NaN. So a value that is on the list of those
allowed passes if and only if it is missing, is a NaN itself or holds none; what holds one further
down is refused, whatever is on the list. -/
theorem passes_oneOf_iff_of_mem :
    (∀ v : Value, v.strictEq v ↔ ¬v.HoldsNaN) ∧
    (∀ (allowed : List Value), ∀ v ∈ allowed, ∀ s,
      ((oneOf allowed).check v s).passes ↔ v.isNullish ∨ v.isNaN ∨ ¬v.HoldsNaN) ∧
    ∀ (allowed : List Value) (v : Value) (s : Site), v.HoldsNaN → v.isNaN = false →
      (∀ w ∈ allowed, w.sameValue v = false) ∧
      (oneOf allowed).check v s = .fail (Cause.failure s (.notOneOf v (allowedText allowed))) := by
  refine ⟨Value.strictEq_self_iff, fun allowed v hv s => ?_, fun allowed v s h htop => ?_⟩
  · rw [passes_check_oneOf_iff, isAllowed_iff]
    refine or_congr_right ⟨?_, ?_⟩
    · rintro ⟨w, -, heq | ⟨-, hnan⟩⟩
      · exact Or.inr (Value.not_holdsNaN_of_strictEq (Value.strictEq_symm heq))
      · exact Or.inl hnan
    · rintro (hnan | hnone)
      · exact ⟨v, hv, Or.inr ⟨hnan, hnan⟩⟩
      · exact ⟨v, hv, Or.inl ((Value.strictEq_self_iff v).2 hnone)⟩
  · exact ⟨fun w _ => Value.sameValue_eq_false_of_holdsNaN h htop w,
      check_oneOf_of_holdsNaN allowed s h htop⟩

/-- A list with a NaN, twice with an object that holds a NaN, and with one that holds none. -/
theorem passes_oneOf_of_nested_nan :
    let nan := Value.number .nan
    let nested := Value.object none (.ofList [("x", .array [.null, nan])])
    let clean := Value.object none (.ofList [("x", .array [.null]), ("y", .bool true)])
    let allowed := [nested, nan, clean, nested]
    let s := Site.argument "m" 0
    nested ∈ allowed ∧ nan ∈ allowed ∧ clean ∈ allowed ∧ nested.HoldsNaN ∧
      ((oneOf allowed).check nested s).passes = false ∧ ((oneOf allowed).check nan s).passes ∧
      ((oneOf allowed).check clean s).passes := by
  intro nan nested clean allowed s
  obtain ⟨-, hiff, hrefused⟩ := passes_oneOf_iff_of_mem
  have hnested : nested.HoldsNaN := by decide
  have hfail := (hrefused allowed nested s hnested rfl).2
  have hnan : nan ∈ allowed := by simp [allowed]
  have hclean : clean ∈ allowed := by simp [allowed]
  refine ⟨by simp [allowed], hnan, hclean, hnested, by rw [hfail]; rfl, ?_, ?_⟩
  · exact (hiff allowed nan hnan s).2 (Or.inr (Or.inl (by decide)))
  · exact (hiff allowed clean hclean s).2 (Or.inr (Or.inr (by decide)))

end Checker

end CallGuard
