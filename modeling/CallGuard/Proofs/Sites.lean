import CallGuard.Proofs.Blame

/-!
# The same check at another site

A check of a checker of this library knows its site only to write it down. So what it does
with a value is the same at all sites (`Uniform`) : it passes everywhere, or it fails
everywhere for one cause at the end of one path (`Checker.IsStandard.uniform_outcome`). The
first of several outcomes of this sort is of this sort again, and so are the outcomes for
parts, whose paths are put behind the path to the part. Hence the induction over checkers
needs no more than that this holds of what a checker says itself, and there only a union
looks at other checks.

The report in words is no exception. It is one wording for each code (`Failure.wording`)
with the details, the location and the method put in, as `Cause.message_eq_wording` shows.
Of two failures of one value at two sites, everything but the site is therefore equal
(`Checker.IsStandard.outcome_at_two_sites`).
-/

namespace CallGuard

/-! ## Paths -/

@[simp] theorem Site.method_descend (s : Site) (path : List Step) :
    (s.descend path).method = s.method := by
  rw [descend_eq]

theorem Value.at?_cons (v : Value) (step : Step) (path : List Step) :
    v.at? (step :: path) = (v.at? [step]).bind (·.at? path) := by
  cases v <;> cases step <;> simp [at?]

theorem Value.at?_append (v : Value) (path path' : List Step) :
    v.at? (path ++ path') = (v.at? path).bind (·.at? path') := by
  induction path generalizing v with
  | nil => rfl
  | cons step path ih =>
    rw [List.cons_append, at?_cons, at?_cons v step path, Option.bind_assoc]
    simp only [ih]

theorem Checker.at?_of_mem_parts {c : Checker} {entry : Entry} {v : Value} {p : Part}
    (h : p ∈ c.parts entry v) : v.at? p.path = some p.value := by
  cases c with
  | required c | rest c =>
    obtain rfl := List.mem_singleton.1 h
    rfl
  | nullable c =>
    simp only [parts] at h
    split at h
    · cases h
    · obtain rfl := List.mem_singleton.1 h
      rfl
  | arrayOf c =>
    cases v with
    | array items =>
      obtain ⟨item, hitem, rfl⟩ := List.mem_map.1 h
      simp [Value.at?, List.mk_mem_zipIdx_iff_getElem?.1 hitem]
    | _ => cases h
  | objectOf c =>
    cases v with
    | object class? p =>
      obtain ⟨pair, hpair, rfl⟩ := List.mem_map.1 h
      simp [Value.at?, p.mem_toList_iff.1 hpair]
    | _ => cases h
  | shape fields =>
    cases v with
    | object class? p =>
      obtain ⟨⟨key, w, d⟩, hb, rfl⟩ := List.mem_map.1 h
      simp [Value.at?, p.mem_toList_iff.1 (mem_bound_iff.1 hb).1]
    | _ => cases h
  | _ => cases h

/-! ## Outcomes at all sites -/

/-- An outcome for a value is a pass at every site, or it is the failure for one cause at the end
of one path through the value from every site. -/
def Uniform (v : Value) (o : Site → Outcome) : Prop :=
  (∀ s, o s = .pass) ∨ ∃ path w cause, v.at? path = some w ∧
    ∀ s, o s = .fail (Cause.failure (s.descend path) cause)

namespace Uniform

variable {v w : Value} {o : Site → Outcome}

theorem pass : Uniform v fun _ => .pass := Or.inl fun _ => rfl

theorem ofBool (b : Bool) (cause : Cause) : Uniform v fun s => .ofBool b s cause := by
  cases b with
  | true => exact pass
  | false => exact Or.inr ⟨[], v, cause, rfl, fun _ => rfl⟩

theorem passes_eq (h : Uniform v o) (s s' : Site) : (o s).passes = (o s').passes := by
  rcases h with h | ⟨path, w, cause, -, h⟩
  · rw [h s, h s']
  · rw [h s, h s']
    rfl

theorem below {path : List Step} (hw : v.at? path = some w) (h : Uniform w o) :
    Uniform v fun s => o (s.descend path) := by
  rcases h with h | ⟨path', u, cause, hu, h⟩
  · exact Or.inl fun s => h _
  · refine Or.inr ⟨path ++ path', u, cause, ?_, fun s => ?_⟩
    · rw [Value.at?_append, hw, Option.bind_some, hu]
    · rw [Site.descend_append]
      exact h _

/-- Before the first failure there are only passes, at whatever site. -/
theorem firstFailure {os : List (Site → Outcome)} (h : ∀ o ∈ os, Uniform v o) :
    Uniform v fun s => firstFailure (os.map fun o => o s) := by
  induction os with
  | nil => exact pass
  | cons o os ih =>
    obtain ⟨ho, hos⟩ := List.forall_mem_cons.1 h
    rcases ho with ho | ⟨path, w, cause, hw, ho⟩
    · simpa [ho] using ih hos
    · exact Or.inr ⟨path, w, cause, hw, fun s => by simp [ho, CallGuard.firstFailure]⟩

end Uniform

namespace Checker

variable {c : Checker} {v : Value}

theorem IsStandard.uniform_test (hc : c.IsStandard)
    (hchildren : ∀ d ∈ c.children, Uniform v (d.check v)) : Uniform v (c.test v) := by
  cases hc with
  | @oneOfType cs _ =>
    -- Whether an alternative passes does not depend on the site.
    have hany : ∀ s, cs.any (fun d => (d.check v s).passes) =
        cs.any fun d => (d.check v (.argument "" 0)).passes := by
      intro s
      rw [Bool.eq_iff_iff, List.any_eq_true, List.any_eq_true]
      refine exists_congr fun d => and_congr_right fun hd => ?_
      rw [(hchildren d hd).passes_eq]
    unfold test
    simp only [hany]
    exact .ofBool _ _
  | any | required _ | nullable _ | rest _ => exact .pass
  | _ => exact .ofBool _ _

theorem IsStandard.uniform_own (hc : c.IsStandard) (entry : Entry)
    (hchildren : ∀ d ∈ c.children, Uniform v (d.check v)) : Uniform v (c.own entry v) := by
  have htest := hc.uniform_test hchildren
  cases entry with
  | present => exact htest
  | check =>
    by_cases hp : c.isPlain
    · rw [funext (own_check_of_isPlain hp v)]
      cases v.isNullish with
      | true => exact .pass
      | false => exact htest
    · cases hc with
      | required _ => exact .ofBool _ _
      | nullable _ | rest _ => exact Or.inl fun _ => ite_self _
      | _ => exact absurd rfl hp

/-- What a checker of this library does with a value is the same at every site. -/
theorem IsStandard.uniform_outcome (hc : c.IsStandard) (entry : Entry) (v : Value) :
    Uniform v (c.outcome entry v) := by
  induction c using induct_children generalizing entry v with
  | step c ih =>
    have hown : Uniform v (c.own entry v) :=
      hc.uniform_own entry fun d hd => ih d hd (hc.of_mem_children hd) .check v
    have hparts : ∀ o ∈ (c.parts entry v).map Part.outcome, Uniform v o := by
      intro o ho
      obtain ⟨p, hp, rfl⟩ := List.mem_map.1 ho
      have hmem := mem_children_of_mem_parts hp
      exact .below (at?_of_mem_parts hp) (ih _ hmem (hc.of_mem_children hmem) p.entry p.value)
    have hfirst := Uniform.firstFailure (List.forall_mem_cons.2 ⟨hown, hparts⟩)
    simpa only [List.map_cons, List.map_map, Function.comp_def, ← outcome_eq] using hfirst

end Checker

/-! ## Wordings -/

/-- A kind that is wanted, by its name. -/
def Kind.wantedByName : String → String
  | "array" => "an array"
  | "object" => "an object"
  | name => name

theorem Kind.wantedByName_name (kind : Kind) : wantedByName kind.name = kind.wanted := by
  cases kind <;> rfl

/-- The wording of a code, with details put in, for a location in a method. -/
def Failure.wording (code : String) (params : List (String × String)) (location method : String) :
    String :=
  let detail name := (params.lookup name).getD ""
  match code with
  | "required" => "Required " ++ location ++ " parameter was not specified in " ++ method ++ "."
  | "type_mismatch" =>
    "Invalid " ++ location ++ " parameter of type " ++ detail "actual" ++ " supplied to " ++
      method ++ ", expected " ++ Kind.wantedByName (detail "expected") ++ "."
  | "not_instance" =>
    "Invalid " ++ location ++ " parameter supplied to " ++ method ++ ", expected instanceof " ++
      detail "expected" ++ "."
  | "not_one_of" =>
    "Invalid " ++ location ++ " parameter of value " ++ detail "value" ++ " supplied to " ++
      method ++ ", expected to be one of " ++ detail "allowed" ++ "."
  | "no_matching_type" =>
    "Invalid " ++ location ++ " parameter of value " ++ detail "value" ++ " supplied to " ++
      method ++ ", expected it to match one of " ++ detail "alternatives" ++ " types."
  | _ => ""

/-- A cause in words is the wording of its code with its details. -/
theorem Cause.message_eq_wording (cause : Cause) (location method : String) :
    cause.message location method =
      Failure.wording cause.code cause.params location method := by
  cases cause with
  | typeMismatch expected actual =>
    unfold message
    simp only [← expected.wantedByName_name]
    rfl
  | _ => rfl

/-! ## Two sites -/

/-- A failure is reported from a site : it names the method and the position of the site, and its
words are those of its code, with its details, its location and its method. -/
structure Failure.IsFrom (f : Failure) (s : Site) : Prop where
  /-- The method is that of the site. -/
  method : f.method = s.method
  /-- The argument is that of the site. -/
  position : f.position = s.location.position
  /-- The words are those of the code. -/
  message : f.message = wording f.code f.params f.location f.method

theorem Cause.isFrom_failure (cause : Cause) (s : Site) (path : List Step) :
    (cause.failure (s.descend path)).IsFrom s where
  method := s.method_descend path
  position := s.position_descend path
  message := cause.message_eq_wording _ _

/-- At two sites, however they differ, a value passes a checker of this library at both or at
neither, by either entry. If it fails, then at the end of one path through the value from either
site, with the same code, sort and details; and each failure is reported from its own site. -/
theorem Checker.IsStandard.outcome_at_two_sites {c : Checker} (hc : c.IsStandard) (entry : Entry)
    (v : Value) (s s' : Site) :
    ((c.outcome entry v s).passes ↔ (c.outcome entry v s').passes) ∧
    ∀ e e', c.outcome entry v s = .fail e → c.outcome entry v s' = .fail e' →
      (∃ path w, v.at? path = some w ∧ e.location = (s.descend path).location.text ∧
        e'.location = (s'.descend path).location.text) ∧
      e.code = e'.code ∧ e.kind = e'.kind ∧ e.params = e'.params ∧ e.IsFrom s ∧ e'.IsFrom s' := by
  have h := hc.uniform_outcome entry v
  refine ⟨by rw [h.passes_eq], fun e e' he he' => ?_⟩
  rcases h with h | ⟨path, w, cause, hw, h⟩
  · rw [h] at he
    cases he
  · rw [h] at he he'
    cases he
    cases he'
    exact ⟨⟨path, w, hw, rfl, rfl⟩, rfl, rfl, rfl, cause.isFrom_failure s path,
      cause.isFrom_failure s' path⟩

/-- An alternative that fails inside a property, by both entries, at an argument and at an
element of another. -/
theorem Checker.outcome_at_two_sites_of_union :
    let c := objectOf (arrayOf (required (oneOfType [arrayOf (kindOf .string), kindOf .number])))
    let v := Value.object none
      (.ofList [("a", .array []), ("b", .array [.array [.string "x"], .array [.bool true]])])
    let s := Site.argument "save" 2
    let s' := (Site.argument "load" 0).element 7
    c.IsStandard ∧ ∀ entry, ∃ e e', c.outcome entry v s = .fail e ∧
      c.outcome entry v s' = .fail e' ∧ e.location = "1st element of property b of 2nd" ∧
      e'.location = "1st element of property b of 7th element of 0th" ∧ e.code = e'.code ∧
      e.params = e'.params ∧ e.IsFrom s ∧ e'.IsFrom s' := by
  intro c v s s'
  have hc : c.IsStandard := by
    refine .objectOf (.arrayOf (.required (.oneOfType fun d hd => ?_)))
    rcases List.mem_pair.1 hd with rfl | rfl
    · exact .arrayOf (.kindOf _)
    · exact .kindOf _
  refine ⟨hc, fun entry => ?_⟩
  let w := Value.array [.bool true]
  let e := (Cause.noMatchingType w 2).failure (s.descend [.property "b", .element 1])
  let e' := (Cause.noMatchingType w 2).failure (s'.descend [.property "b", .element 1])
  have he : c.outcome entry v s = .fail e := by cases entry <;> decide
  have he' : c.outcome entry v s' = .fail e' := by cases entry <;> decide
  obtain ⟨-, hfails⟩ := hc.outcome_at_two_sites entry v s s'
  obtain ⟨-, hcode, -, hparams, hfrom, hfrom'⟩ := hfails e e' he he'
  exact ⟨e, e', he, he', by decide, by decide, hcode, hparams, hfrom, hfrom'⟩

end CallGuard
