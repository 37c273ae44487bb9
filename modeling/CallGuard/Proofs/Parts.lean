import CallGuard.Checker.Behaviour
import CallGuard.Checker.Induction
import CallGuard.Proofs.Lookup

/-!
# Checks of the parts of a value

A checker says something about a value itself, and it has checkers look at parts of
the value. `Checker.own` is the first, for either entry, and `Checker.parts` lists the
second in the order in which these checks are made : the elements of an array by
index, the properties of an object in its order, the value itself for a modifier. The
alternatives of a union are no parts, since what they say about the value is only
counted : it goes into what the union says itself.

`Checker.outcome_eq` is all that there is to know about the end of a check : it is the
first failure, the checker's own before those of the parts. What holds of a checker
once it holds of the checkers inside holds of every checker
(`Checker.induct_children`), and the checkers of parts are inside
(`mem_children_of_mem_parts`), so that a proof about ends of checks need not tell the
checkers apart.
-/

namespace CallGuard

/-! ## Sites further down -/

/-- The site at the end of a path. -/
def Site.descend (s : Site) (path : List Step) : Site := path.foldl Site.below s

namespace Site

@[simp] theorem descend_nil (s : Site) : s.descend [] = s := rfl

theorem descend_append (s : Site) (path path' : List Step) :
    s.descend (path ++ path') = (s.descend path).descend path' :=
  List.foldl_append

theorem descend_eq (s : Site) (path : List Step) :
    s.descend path = ⟨s.method, ⟨path.reverse ++ s.location.path, s.location.position⟩⟩ := by
  induction path generalizing s with
  | nil => rfl
  | cons step path ih =>
    have h : s.descend (step :: path) = (s.below step).descend path := rfl
    rw [h, ih, List.reverse_cons, List.append_assoc]
    rfl

theorem descend_argument (method : String) (position : Nat) (path : List Step) :
    (argument method position).descend path = ⟨method, ⟨path.reverse, position⟩⟩ := by
  rw [descend_eq]
  simp [argument, Location.argument]

@[simp] theorem position_descend (s : Site) (path : List Step) :
    (s.descend path).location.position = s.location.position := by
  rw [descend_eq]

end Site

/-! ## The first failure -/

section FirstFailure

variable {α : Type} {f : Failure}

@[simp] theorem firstFailure_pass_cons (os : List Outcome) :
    firstFailure (.pass :: os) = firstFailure os :=
  rfl

@[simp] theorem firstFailure_singleton (o : Outcome) : firstFailure [o] = o := by
  cases o <;> rfl

/-- The first failure is a failure with nothing but passes before it. -/
theorem firstFailure_map_eq_fail_iff (g : α → Outcome) (as : List α) :
    firstFailure (as.map g) = .fail f ↔
      ∃ before a after, as = before ++ a :: after ∧ (∀ b ∈ before, (g b).passes) ∧
        g a = .fail f := by
  constructor
  · intro h
    induction as with
    | nil => cases h
    | cons a as ih =>
      cases ha : g a with
      | pass =>
        rw [List.map_cons, ha, firstFailure_pass_cons] at h
        obtain ⟨before, b, after, rfl, hpass, hb⟩ := ih h
        refine ⟨a :: before, b, after, rfl, ?_, hb⟩
        intro x hx
        rcases List.mem_cons.1 hx with rfl | hx
        · rw [ha]
          rfl
        · exact hpass x hx
      | fail f' =>
        rw [List.map_cons, ha] at h
        exact ⟨[], a, as, rfl, by simp, ha.trans h⟩
  · rintro ⟨before, a, after, rfl, hpass, ha⟩
    induction before with
    | nil =>
      rw [List.nil_append, List.map_cons, ha]
      rfl
    | cons b before ih =>
      have hb : g b = .pass := by
        have := hpass b (by simp)
        cases h : g b with
        | pass => rfl
        | fail _ => simp [h, Outcome.passes] at this
      rw [List.cons_append, List.map_cons, hb, firstFailure_pass_cons]
      exact ih fun x hx => hpass x (by simp [hx])

end FirstFailure

/-! ## Own outcomes and parts -/

/-- A check that a checker has made of a part of a value. -/
structure Part where
  /-- The steps down to the part, none if it is the value itself. -/
  path : List Step
  /-- The checker that looks at the part. -/
  checker : Checker
  /-- How it is entered. -/
  entry : Entry
  /-- The part. -/
  value : Value

namespace Checker

/-- How a check ends, by the entry. -/
def outcome (c : Checker) : Entry → Value → Site → Outcome
  | .check => c.check
  | .present => c.checkPresent

@[simp] theorem outcome_check (c : Checker) : c.outcome .check = c.check := rfl

@[simp] theorem outcome_present (c : Checker) : c.outcome .present = c.checkPresent := rfl

/-- What a checker says itself about a value that is there. -/
def test (c : Checker) (v : Value) (s : Site) : Outcome :=
  match c with
  | kindOf expected => .ofBool (decide (v.kind = expected)) s (.typeMismatch expected v.kind)
  | instanceOf expected => .ofBool (v.isInstanceOf expected) s (.notInstance expected)
  | oneOf allowed => .ofBool (isAllowed allowed v) s (.notOneOf v (allowedText allowed))
  | arrayOf _ => .ofBool v.array?.isSome s (.typeMismatch .array v.kind)
  | objectOf _ | shape _ => .ofBool v.object?.isSome s (.typeMismatch .object v.kind)
  | oneOfType alternatives =>
    .ofBool (alternatives.any fun c => (c.check v s).passes) s
      (.noMatchingType v alternatives.length)
  | custom answers => answers.present v s
  | any | required _ | nullable _ | rest _ => .pass

/-- What a checker says itself about a value, before it looks into it. -/
def own (c : Checker) : Entry → Value → Site → Outcome
  | .present, v, s => c.test v s
  | .check, v, s =>
    match c with
    | required _ => .ofBool (!v.isNullish) s .required
    | custom ⟨_, _, some answer, _⟩ => answer v s
    | c => if v.isNullish then .pass else c.test v s

/-- The checks that a checker has made of the parts of a value, in order. -/
def parts (c : Checker) (entry : Entry) (v : Value) : List Part :=
  match c with
  | required c | rest c => [⟨[], c, entry, v⟩]
  | nullable c => if entry = .check ∧ v.isNullish then [] else [⟨[], c, entry, v⟩]
  | arrayOf c =>
    match v with
    | .array items => items.zipIdx.map fun item => ⟨[.element item.2], c, .check, item.1⟩
    | _ => []
  | objectOf c =>
    match v with
    | .object _ p => p.toList.map fun pair => ⟨[.property pair.1], c, .check, pair.2⟩
    | _ => []
  | shape fields =>
    match v with
    | .object _ p =>
      (Behaviour.bound fields.toList p.toList).map fun b => ⟨[.property b.1], b.2.2, .check, b.2.1⟩
    | _ => []
  | kindOf _ | any | instanceOf _ | oneOf _ | oneOfType _ | custom _ => []

/-- The checkers right inside a checker. -/
def children : Checker → List Checker
  | arrayOf c | objectOf c | required c | nullable c | rest c => [c]
  | shape fields => fields.toList.map Prod.snd
  | oneOfType alternatives => alternatives
  | _ => []

end Checker

/-- How the check of a part ends, given the site of the whole. -/
def Part.outcome (p : Part) (s : Site) : Outcome :=
  p.checker.outcome p.entry p.value (s.descend p.path)

@[simp] theorem Part.outcome_mk (path : List Step) (c : Checker) (entry : Entry) (v : Value)
    (s : Site) : (⟨path, c, entry, v⟩ : Part).outcome s = c.outcome entry v (s.descend path) :=
  rfl

namespace Checker

/-! ## The end of a check -/

theorem checkPresent_custom (answers : Custom) (v : Value) (s : Site) :
    (custom answers).checkPresent v s = answers.present v s := by
  obtain ⟨label, present, check?, isRest⟩ := answers
  cases check? <;> rfl

theorem check_custom (answers : Custom) (v : Value) (s : Site) :
    (custom answers).check v s =
      match answers.check? with
      | some answer => answer v s
      | none => if v.isNullish then .pass else answers.present v s := by
  obtain ⟨label, present, check?, isRest⟩ := answers
  cases check? with
  | some answer => rfl
  | none => exact (check_of_isPlain rfl v s).trans (by rw [checkPresent_custom])

theorem outcome_present_eq (c : Checker) (v : Value) (s : Site) :
    c.outcome .present v s =
      firstFailure (c.own .present v s :: (c.parts .present v).map (Part.outcome · s)) := by
  cases c with
  | arrayOf c =>
    cases v with
    | array items =>
      refine (checkPresent_arrayOf_array c items s).trans ?_
      rw [parts, List.map_map]
      rfl
    | _ => rfl
  | objectOf c =>
    cases v with
    | object class? p =>
      refine (checkPresent_objectOf_object c class? p s).trans ?_
      rw [parts, List.map_map]
      rfl
    | _ => rfl
  | shape fields =>
    cases v with
    | object class? p =>
      refine (checkPresent_shape_object fields class? p s).trans ?_
      rw [parts, List.map_map]
      rfl
    | _ => rfl
  | oneOfType alternatives =>
    exact (checkPresent_oneOfType alternatives v s).trans (firstFailure_singleton _).symm
  | custom answers =>
    exact (checkPresent_custom answers v s).trans (firstFailure_singleton _).symm
  | _ => exact (firstFailure_singleton _).symm

theorem own_check_of_isPlain {c : Checker} (h : c.isPlain) (v : Value) (s : Site) :
    c.own .check v s = if v.isNullish then .pass else c.test v s := by
  cases c with
  | custom answers =>
    obtain ⟨label, present, check?, isRest⟩ := answers
    cases check? with
    | none => rfl
    | some answer => cases h
  | required _ => cases h
  | _ => rfl

theorem parts_of_isPlain {c : Checker} (h : c.isPlain) (entry : Entry) (v : Value) :
    c.parts entry v = if v.isNullish then [] else c.parts .present v := by
  cases c with
  | required _ | nullable _ | rest _ => cases h
  | arrayOf _ | objectOf _ | shape _ => cases v <;> rfl
  | _ => exact (ite_self []).symm

theorem outcome_check_eq (c : Checker) (v : Value) (s : Site) :
    c.outcome .check v s =
      firstFailure (c.own .check v s :: (c.parts .check v).map (Part.outcome · s)) := by
  by_cases hc : c.isPlain
  · rw [own_check_of_isPlain hc, parts_of_isPlain hc]
    refine (check_of_isPlain hc v s).trans ?_
    by_cases hv : v.isNullish
    · rw [if_pos hv, if_pos hv, if_pos hv]
      rfl
    · rw [if_neg hv, if_neg hv, if_neg hv]
      exact outcome_present_eq c v s
  · cases c with
    | required c =>
      refine (check_required c v s).trans ?_
      simp only [own, parts, Outcome.ofBool]
      by_cases hv : v.isNullish
      · simp [hv, firstFailure]
      · simp [hv]
    | nullable c =>
      refine (check_nullable c v s).trans ?_
      simp only [own, parts, test, ite_self, firstFailure_pass_cons, true_and]
      by_cases hv : v.isNullish
      · simp [hv, firstFailure]
      · simp [hv]
    | rest c =>
      refine (check_rest c v s).trans ?_
      simp [own, parts, test]
    | custom answers =>
      obtain ⟨label, present, check?, isRest⟩ := answers
      cases check? with
      | none => exact absurd rfl hc
      | some answer => exact (firstFailure_singleton _).symm
    | _ => exact absurd rfl hc

/-- A check ends in the first failure among what the checker says itself and what the checks
of the parts say. -/
theorem outcome_eq (c : Checker) (entry : Entry) (v : Value) (s : Site) :
    c.outcome entry v s =
      firstFailure (c.own entry v s :: (c.parts entry v).map (Part.outcome · s)) := by
  cases entry with
  | check => exact outcome_check_eq c v s
  | present => exact outcome_present_eq c v s

theorem passes_outcome_iff (c : Checker) (entry : Entry) (v : Value) (s : Site) :
    (c.outcome entry v s).passes ↔
      (c.own entry v s).passes ∧ ∀ p ∈ c.parts entry v, (p.outcome s).passes := by
  rw [outcome_eq, firstFailure_passes, List.all_cons, List.all_map, Bool.and_eq_true,
    List.all_eq_true]
  rfl

/-- A check fails either because the checker refuses the value itself, or because it does not
and the first part that is refused is refused so. -/
theorem outcome_eq_fail_iff (c : Checker) (entry : Entry) (v : Value) (s : Site) (f : Failure) :
    c.outcome entry v s = .fail f ↔ c.own entry v s = .fail f ∨
      (c.own entry v s).passes ∧ ∃ before p after, c.parts entry v = before ++ p :: after ∧
        (∀ q ∈ before, (q.outcome s).passes) ∧ p.outcome s = .fail f := by
  rw [outcome_eq, ← firstFailure_map_eq_fail_iff]
  cases c.own entry v s <;> simp [firstFailure, Outcome.passes]

/-! ## Induction over the checkers inside -/

theorem mem_bound_iff {fields : Properties Checker} {pairs : List (String × Value)}
    {key : String} {w : Value} {c : Checker} :
    (key, w, c) ∈ Behaviour.bound fields.toList pairs ↔
      (key, w) ∈ pairs ∧ fields.get? key = some c := by
  simp only [Behaviour.bound, List.mem_filterMap, Option.map_eq_some_iff, Prod.mk.injEq]
  constructor
  · rintro ⟨⟨key', w'⟩, hm, c', hc, rfl, rfl, rfl⟩
    exact ⟨hm, hc⟩
  · rintro ⟨hm, hc⟩
    exact ⟨(key, w), hm, c, hc, rfl, rfl, rfl⟩

/-- The checkers that look at parts are inside. -/
theorem mem_children_of_mem_parts {c : Checker} {entry : Entry} {v : Value} {p : Part}
    (h : p ∈ c.parts entry v) : p.checker ∈ c.children := by
  cases c with
  | required c | rest c =>
    obtain rfl := List.mem_singleton.1 h
    exact List.mem_singleton_self c
  | nullable c =>
    simp only [parts] at h
    split at h
    · cases h
    · obtain rfl := List.mem_singleton.1 h
      exact List.mem_singleton_self c
  | arrayOf c =>
    cases v with
    | array items =>
      obtain ⟨item, -, rfl⟩ := List.mem_map.1 h
      exact List.mem_singleton_self c
    | _ => cases h
  | objectOf c =>
    cases v with
    | object class? properties =>
      obtain ⟨pair, -, rfl⟩ := List.mem_map.1 h
      exact List.mem_singleton_self c
    | _ => cases h
  | shape fields =>
    cases v with
    | object class? properties =>
      obtain ⟨⟨key, w, d⟩, hb, rfl⟩ := List.mem_map.1 h
      exact List.mem_map_of_mem (fields.mem_toList_iff.2 (mem_bound_iff.1 hb).2)
    | _ => cases h
  | _ => cases h

theorem children_of_isLeaf {c : Checker} (h : c.isLeaf) : c.children = [] := by
  cases c with
  | kindOf _ | any | instanceOf _ | oneOf _ | custom _ => rfl
  | _ => cases h

/-- What holds of a checker once it holds of those inside holds of every checker. -/
theorem induct_children {P : Checker → Prop} (step : ∀ c, (∀ d ∈ c.children, P d) → P c)
    (c : Checker) : P c := by
  refine induct ⟨?_, ?_, ?_, ?_, ?_, ?_, ?_, ?_⟩ c
  · intro c hc
    refine step c fun d hd => ?_
    rw [children_of_isLeaf hc] at hd
    cases hd
  · exact fun c h => step _ fun d hd => List.mem_singleton.1 hd ▸ h
  · exact fun c h => step _ fun d hd => List.mem_singleton.1 hd ▸ h
  · intro fields h
    refine step _ fun d hd => ?_
    obtain ⟨field, hf, rfl⟩ := List.mem_map.1 hd
    exact h field hf
  · exact fun cs h => step _ h
  all_goals exact fun c h => step _ fun d hd => List.mem_singleton.1 hd ▸ h

end Checker

end CallGuard
