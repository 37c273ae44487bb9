import CallGuard.Proofs.Sites

/-!
# Records of failures

The parts of a failure are texts that are written apart from each other, and yet they fit
(`Failure.IsConsistent`) : the code says what sort of failure it is and which details it has, the
report in words is the wording of the code with these details put in, and the location ends with
the argument of the position. This holds of the failure of every cause at every site
(`Cause.isConsistent_failure`), and a check of a checker of this library fails with nothing else,
however deep the value that it refuses stands (`Checker.IsStandard.isConsistent_of_fail`).

The two kinds that a mismatch names are different ones, and the kind of what was found is never
that of undefined, since checks let missing values pass before they look at kinds
(`Checker.Refuses.kinds_ne`). Entered with null as a value that is there, a checker of
properties would expect an object and find one.
-/

namespace CallGuard

/-! ## Kinds -/

namespace Kind

theorem name_inj {kind kind' : Kind} : kind.name = kind'.name ↔ kind = kind' := by
  refine ⟨fun h => ?_, congrArg name⟩
  have hsome : some kind = some kind' := by rw [← ofName?_name kind, h, ofName?_name]
  exact Option.some.inj hsome

end Kind

namespace Value

theorem kind_eq_array_iff (v : Value) : v.kind = .array ↔ ∃ items, v = .array items := by
  cases v <;> simp [kind]

/-- Null counts as an object, and nothing else that is not one. -/
theorem kind_eq_object_iff (v : Value) :
    v.kind = .object ↔ v = .null ∨ ∃ class? p, v = .object class? p := by
  cases v <;> simp [kind]

theorem kind_ne_undefined_of_there {v : Value} (h : v.isNullish = false) : v.kind ≠ .undefined := by
  intro hkind
  rw [(kind_eq_undefined_iff v).1 hkind] at h
  cases h

theorem ne_null_of_there {v : Value} (h : v.isNullish = false) : v ≠ .null := by
  rintro rfl
  cases h

end Value

/-- What was expected and what was found are of different kinds, and something was found. -/
theorem Checker.Refuses.kinds_ne {c : Checker} {v : Value} {expected actual : Kind}
    (h : c.Refuses v (.typeMismatch expected actual)) :
    expected ≠ actual ∧ actual ≠ .undefined := by
  cases h with
  | kindOf hv hk => exact ⟨hk.symm, Value.kind_ne_undefined_of_there hv⟩
  | arrayOf hv ha =>
    refine ⟨fun he => ?_, Value.kind_ne_undefined_of_there hv⟩
    obtain ⟨items, rfl⟩ := v.kind_eq_array_iff.1 he.symm
    exact ha items rfl
  | objectOf hv ho | shape hv ho =>
    refine ⟨fun he => ?_, Value.kind_ne_undefined_of_there hv⟩
    rcases v.kind_eq_object_iff.1 he.symm with hnull | ⟨class?, p, rfl⟩
    · exact Value.ne_null_of_there hv hnull
    · exact ho class? p rfl

/-! ## Records that fit together -/

/-- A location ends with the ordinal of its argument. -/
theorem Location.exists_text_eq_append_ordinal (l : Location) :
    ∃ above, l.text = above ++ ordinal l.position := by
  obtain ⟨path, position⟩ := l
  induction path with
  | nil => exact ⟨"", by simp [text, pathText]⟩
  | cons step path ih =>
    obtain ⟨above, habove⟩ := ih
    refine ⟨step.text ++ " of " ++ above, ?_⟩
    calc (⟨step :: path, position⟩ : Location).text
        = step.text ++ " of " ++ (⟨path, position⟩ : Location).text := rfl
      _ = step.text ++ " of " ++ (above ++ ordinal position) := by rw [habove]
      _ = step.text ++ " of " ++ above ++ ordinal position := String.append_assoc.symm

namespace Failure

/-- The codes of this library, each with the sort of its failures and the names of their details,
in order. -/
def forms : List (String × FailureKind × List String) :=
  [("required", .missingRequired, []),
    ("type_mismatch", .typeMismatch, ["expected", "actual"]),
    ("not_instance", .valueMismatch, ["expected"]),
    ("not_one_of", .valueMismatch, ["value", "allowed"]),
    ("no_matching_type", .valueMismatch, ["value", "alternatives"])]

/-- The parts of a failure fit together. -/
structure IsConsistent (f : Failure) : Prop where
  /-- The code is one of this library, with its sort of failure and the names of its details. -/
  form : forms.lookup f.code = some (f.kind, f.params.map Prod.fst)
  /-- The words are those of the code, for these details, this location and this method. -/
  message : f.message = wording f.code f.params f.location f.method
  /-- The location ends with the argument. -/
  location : ∃ above, f.location = above ++ ordinal f.position

end Failure

namespace Cause

theorem lookup_code_forms (cause : Cause) :
    Failure.forms.lookup cause.code = some (cause.kind, cause.params.map Prod.fst) := by
  cases cause <;> rfl

/-- Whatever the cause and the site, the failure fits together. -/
theorem isConsistent_failure (cause : Cause) (s : Site) : (cause.failure s).IsConsistent where
  form := cause.lookup_code_forms
  message := cause.message_eq_wording _ _
  location := s.location.exists_text_eq_append_ordinal

theorem exists_eq_typeMismatch {cause : Cause} (h : cause.code = "type_mismatch") :
    ∃ expected actual, cause = .typeMismatch expected actual := by
  cases cause with
  | typeMismatch expected actual => exact ⟨expected, actual, rfl⟩
  | _ => simp [code] at h

end Cause

namespace Checker

/-- A failure of a checker of this library fits together, whichever way the checker is entered :
its code is one of five and says what sort of failure it is and which details it has, in order;
its words are those of the code with its own details, location and method; and its location ends
with its argument. If a check says that the kind is wrong, it names two kinds that are different,
of which the one that was found is not that of undefined. -/
theorem IsStandard.isConsistent_of_fail {c : Checker} (hc : c.IsStandard) {entry : Entry}
    {v : Value} {s : Site} {f : Failure} (h : c.outcome entry v s = .fail f) :
    f.IsConsistent ∧
    (entry = .check → f.code = "type_mismatch" → ∃ expected actual : Kind,
      f.params = [("expected", expected.name), ("actual", actual.name)] ∧
      expected.name ≠ actual.name ∧ actual.name ≠ Kind.undefined.name) := by
  constructor
  · rcases hc.uniform_outcome entry v with hpass | ⟨path, w, cause, -, hfail⟩
    · cases (hpass s).symm.trans h
    · cases (hfail s).symm.trans h
      exact cause.isConsistent_failure _
  · rintro rfl hcode
    obtain ⟨path, d, w, cause, -, hrefuses, rfl⟩ := hc.exists_leadsTo h
    obtain ⟨expected, actual, rfl⟩ := Cause.exists_eq_typeMismatch hcode
    obtain ⟨hne, hfound⟩ := hrefuses.kinds_ne
    exact ⟨expected, actual, rfl, fun hname => hne (Kind.name_inj.1 hname),
      fun hname => hfound (Kind.name_inj.1 hname)⟩

/-- An object in place of an array, as a property of an element. -/
theorem isConsistent_of_fail_of_property :
    let c := arrayOf (ofFields [("tags", nullable (arrayOf any))])
    let v := Value.array [.null, .object none (.ofList [("tags", .object none .empty)])]
    let f : Failure := ⟨"type_mismatch", .typeMismatch,
      "Invalid property tags of 1st element of 11th parameter of type object supplied to save, " ++
        "expected an array.", "save", "property tags of 1st element of 11th", 11,
      [("expected", "array"), ("actual", "object")]⟩
    c.IsStandard ∧ c.outcome .check v (.argument "save" 11) = .fail f ∧ f.IsConsistent ∧
      ∃ expected actual : Kind,
        f.params = [("expected", expected.name), ("actual", actual.name)] ∧
        expected.name ≠ actual.name ∧ actual.name ≠ Kind.undefined.name := by
  intro c v f
  have hc : c.IsStandard := by
    refine .arrayOf (.shape fun field hfield => ?_)
    obtain rfl : field = ("tags", nullable (arrayOf any)) := List.mem_singleton.1 hfield
    exact .nullable (.arrayOf .any)
  have hf : c.outcome .check v (.argument "save" 11) = .fail f := by decide
  obtain ⟨hconsistent, hkinds⟩ := hc.isConsistent_of_fail hf
  exact ⟨hc, hf, hconsistent, hkinds rfl rfl⟩

/-- As a value that is there, null is expected to be an object and found to be one. -/
example (s : Site) : (objectOf any).outcome .present .null s =
    .fail (Cause.failure s (.typeMismatch .object .object)) := rfl

end Checker

end CallGuard
