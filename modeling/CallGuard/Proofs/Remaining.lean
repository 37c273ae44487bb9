import CallGuard.Proofs.Policies

/-!
# Remaining arguments and arrays

A checker that takes all arguments checks them one after another, as a checker of elements
does with the elements of an array : only the sites are others. `Checker.checkEach` is what
they have in common, for any sites, and `IsStandard.checkEach_eq_fail` says what the sites
have to do with its end. Which value fails first, at which path below it and for which cause
does not depend on them, and all that is different about two failures is read off the sites.

So a strict guard for `rest c` and a check of `arrayOf c` agree
(`Checker.rest_agrees_with_arrayOf`). The path that is written for the array is longer by
one step at its far end (`Location.text_append_element`).
-/

namespace CallGuard

/-! ## Locations below an element -/

theorem Location.text_append_element (path path' : List Step) (index position : Nat) :
    (⟨path ++ .element index :: path', position⟩ : Location).text =
      (⟨path, index⟩ : Location).text ++ " element of " ++
        (⟨path', position⟩ : Location).text := by
  induction path with
  | nil =>
    calc (⟨.element index :: path', position⟩ : Location).text
        = ordinal index ++ (" element" ++ " of ") ++ (⟨path', position⟩ : Location).text := by
          simp only [text, pathText, Step.text, String.append_assoc]
      _ = ordinal index ++ " element of " ++ (⟨path', position⟩ : Location).text := rfl
  | cons step path ih =>
    simp only [text, List.cons_append, pathText, String.append_assoc] at ih ⊢
    rw [ih]

namespace Checker

/-! ## One value after another -/

/-- How a check of values one after another ends, each at the site that its index has. -/
def checkEach (c : Checker) (site : Nat → Site) (vs : List Value) : Outcome :=
  firstFailure (vs.zipIdx.map fun v => c.check v.1 (site v.2))

theorem check_arrayOf_array (c : Checker) (items : List Value) (s : Site) :
    (arrayOf c).check (.array items) s = c.checkEach s.element items :=
  (check_of_isPlain rfl _ s).trans (checkPresent_arrayOf_array c items s)

/-- The first value that fails, the path below it and the cause are the same at all sites. -/
theorem IsStandard.checkEach_eq_fail {c : Checker} (hc : c.IsStandard) {site : Nat → Site}
    {vs : List Value} {f : Failure} (h : c.checkEach site vs = .fail f) :
    ∃ (i : Nat) (path : List Step) (cause : Cause),
      (∀ s, vs.findIdx? (fun v => !(c.check v s).passes) = some i) ∧
      f = cause.failure ((site i).descend path) ∧
        ∀ site', c.checkEach site' vs = .fail (cause.failure ((site' i).descend path)) := by
  obtain ⟨before, ⟨v, i⟩, after, hsplit, hbefore, hv⟩ := (firstFailure_map_eq_fail_iff _ _).1 h
  obtain ⟨path, cause, hf, hfails⟩ := hc.exists_cause_of_check_eq_fail hv
  have hpass : ∀ u ∈ before, ∀ s, (c.check u.1 s).passes :=
    fun u hu s => (hc.passes_check_congr u.1 _ s).1 (hbefore u hu)
  refine ⟨i, path, cause, fun s => ?_, hf, fun site' => ?_⟩
  · obtain ⟨first, last, rfl, rfl, hlast⟩ := List.zipIdx_eq_append_iff.1 hsplit
    obtain ⟨u, last, rfl, hu, -⟩ := List.zipIdx_eq_cons_iff.1 hlast.symm
    obtain ⟨rfl, rfl⟩ := Prod.mk.inj hu
    have hfirst : first.findIdx? (fun w => !(c.check w s).passes) = none := by
      refine List.findIdx?_eq_none_iff.2 fun w hw => ?_
      obtain ⟨j, hj⟩ := List.getElem?_of_mem hw
      simpa using hpass (w, j) (List.mk_mem_zipIdx_iff_getElem?.2 hj) s
    have hfail : (!(c.check v s).passes) = true := by
      rw [hfails s]
      rfl
    rw [List.findIdx?_append, hfirst, List.findIdx?_cons, if_pos hfail]
    rfl
  · exact (firstFailure_map_eq_fail_iff _ _).2
      ⟨before, (v, i), after, hsplit, fun u hu => hpass u hu _, hfails _⟩

theorem IsStandard.passes_checkEach_congr {c : Checker} (hc : c.IsStandard)
    (site site' : Nat → Site) (vs : List Value) :
    (c.checkEach site vs).passes ↔ (c.checkEach site' vs).passes := by
  have key : ∀ site site', (c.checkEach site vs).passes → (c.checkEach site' vs).passes := by
    intro site site' h
    cases h' : c.checkEach site' vs with
    | pass => rfl
    | fail f =>
      obtain ⟨i, path, cause, -, -, hfails⟩ := hc.checkEach_eq_fail h'
      rw [hfails site] at h
      cases h
  exact ⟨key site site', key site' site⟩

end Checker

/-! ## Guards of all arguments -/

theorem StrictGuard.outcome_of_checkers_eq_rest {s : Signature} {c : Checker}
    (h : s.checkers = [.rest c]) (args : List Value) :
    (ofSignature s).outcome args = c.checkEach (Site.argument s.method) args := by
  have hplan : s.plan args = args.zipIdx.map fun arg => ⟨arg.2, .rest c, arg.1⟩ := by
    rw [Signature.plan, h]
    rfl
  rw [outcome_ofSignature, hplan, List.map_map, Checker.checkEach]
  congr 1
  exact List.map_congr_left fun arg _ => Checker.check_rest c arg.1 _

/-- A strict guard of all arguments by one checker passes if and only if the array of these
arguments passes a checker of such elements, as an argument at any position. If they fail, it is
for the same cause; the guard names the position of the first argument that the checker refuses,
and the check of the array names the same place as an element of its argument. -/
theorem Checker.rest_agrees_with_arrayOf {c : Checker} (hc : c.IsStandard)
    (method : String) (position : Nat) (args : List Value) :
    ∃ s, Signature.new? method [.rest c] = .ok s ∧
      let strict := (StrictGuard.ofSignature s).outcome args
      let array := (arrayOf c).checkValue (.array args) method position
      (strict.passes ↔ array.passes) ∧
      ∀ e e', strict = .fail e → array = .fail e' →
        e.code = e'.code ∧ e.kind = e'.kind ∧ e.method = e'.method ∧ e.params = e'.params ∧
        (∀ site, args.findIdx? (fun v => !(c.check v site).passes) = some e.position) ∧
        e'.position = position ∧
        e'.location = e.location ++ " element of " ++ ordinal position := by
  refine ⟨⟨method, [.rest c], by simp⟩, rfl, ?_⟩
  intro strict array
  have hstrict : strict = c.checkEach (Site.argument method) args :=
    StrictGuard.outcome_of_checkers_eq_rest rfl args
  have harray : array = c.checkEach (Site.argument method position).element args :=
    check_arrayOf_array c args _
  rw [hstrict, harray]
  refine ⟨hc.passes_checkEach_congr _ _ args, fun e e' he he' => ?_⟩
  obtain ⟨i, path, cause, hindex, rfl, hfails⟩ := hc.checkEach_eq_fail he
  rw [hfails (Site.argument method position).element] at he'
  cases he'
  rw [Site.descend_argument, Site.descend_eq]
  exact ⟨rfl, rfl, rfl, rfl, hindex, rfl, Location.text_append_element path.reverse [] i position⟩

/-- The second argument holds a name that is not a text. -/
theorem Checker.rest_agrees_with_arrayOf_of_names :
    let c := Checker.objectOf (.kindOf .string)
    let args := [Value.object none .empty, .object none (.ofList [("name", .bool true)]), .null]
    let e := (Cause.typeMismatch .string .boolean).failure ⟨"save", ⟨[.property "name"], 1⟩⟩
    let e' := (Cause.typeMismatch .string .boolean).failure
      ⟨"save", ⟨[.property "name", .element 1], 4⟩⟩
    c.IsStandard ∧ ∃ s, Signature.new? "save" [.rest c] = .ok s ∧
      (StrictGuard.ofSignature s).outcome args = .fail e ∧
      (Checker.arrayOf c).checkValue (.array args) "save" 4 = .fail e' ∧
      e.location = "property name of 1st" ∧
      e'.location = e.location ++ " element of " ++ ordinal 4 := by
  intro c args e e'
  have hc : c.IsStandard := .objectOf (.kindOf _)
  obtain ⟨s, hs, -, hagree⟩ := rest_agrees_with_arrayOf hc "save" 4 args
  have he : (StrictGuard.ofSignature s).outcome args = .fail e := by
    cases hs
    decide
  have he' : (Checker.arrayOf c).checkValue (.array args) "save" 4 = .fail e' := by decide
  obtain ⟨-, -, -, -, -, -, hlocation⟩ := hagree e e' he he'
  exact ⟨hc, s, hs, he, he', by decide, hlocation⟩

end CallGuard
