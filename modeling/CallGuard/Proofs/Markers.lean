import CallGuard.Proofs.Acceptance
import CallGuard.Proofs.Bindings
import CallGuard.Proofs.Policies
import CallGuard.Proofs.Stacks

/-!
# Markers

The modifier `rest` marks a checker as one that takes the arguments that remain. Only a
signature asks for this, and it asks the checkers of its list. `Checker.withoutMarkers` takes
every marker out of a checker, at any depth, and what is left ends in the same way with every
value, by either entry and with the same failure (`Checker.sameOutcome_withoutMarkers`) : each way
to put checkers together keeps this, which is shown once for each.

Whether a checker is marked is decided by the modifiers around it (`Checker.modifiers`) and not by
what these stand around (`Checker.core`), as `Checker.isRest_iff` says. So markers further inside
change nothing for a list of checkers. Two lists that differ in such markers alone
(`Checker.SameAbove`) are refused together, and if they are accepted, arguments are handed out
alike and every check ends alike (`Checker.map_outcome_assign`). A guard goes by these ends, and so
does what it reports on the way (`reports_runPlan`).
-/

namespace CallGuard

namespace Checker

/-! ## Checkers that end alike -/

/-- Two checkers end in the same way with every value at every site, by either entry. -/
def SameOutcome (c d : Checker) : Prop := ∀ entry v s, c.outcome entry v s = d.outcome entry v s

section SameOutcome

variable {c d e : Checker}

theorem SameOutcome.symm (h : c.SameOutcome d) : d.SameOutcome c :=
  fun entry v s => (h entry v s).symm

theorem SameOutcome.trans (h : c.SameOutcome d) (h' : d.SameOutcome e) : c.SameOutcome e :=
  fun entry v s => (h entry v s).trans (h' entry v s)

theorem SameOutcome.check_eq (h : c.SameOutcome d) : c.check = d.check :=
  funext fun v => funext fun s => h .check v s

theorem SameOutcome.arrayOf (h : c.SameOutcome d) : (arrayOf c).SameOutcome (arrayOf d) := by
  intro entry v s
  refine outcome_eq_of_checkPresent_eq rfl rfl (fun s => ?_) entry s
  cases v with
  | array items => rw [checkPresent_arrayOf_array, checkPresent_arrayOf_array, h.check_eq]
  | _ => rfl

theorem SameOutcome.objectOf (h : c.SameOutcome d) : (objectOf c).SameOutcome (objectOf d) := by
  intro entry v s
  refine outcome_eq_of_checkPresent_eq rfl rfl (fun s => ?_) entry s
  cases v with
  | object class? p => rw [checkPresent_objectOf_object, checkPresent_objectOf_object, h.check_eq]
  | _ => rfl

theorem sameOutcome_shape_map {f : Checker → Checker} {fields : Properties Checker}
    (h : ∀ field ∈ fields.toList, (f field.2).SameOutcome field.2) :
    (shape (fields.map f)).SameOutcome (shape fields) := by
  intro entry v s
  refine outcome_shape_congr (fun key _ => ?_) entry s
  rw [Properties.get?_map]
  cases hkey : fields.get? key with
  | none => rfl
  | some c => exact (h (key, c) (fields.mem_toList_iff.2 hkey)).check_eq

theorem sameOutcome_oneOfType_map {f : Checker → Checker} {cs : List Checker}
    (h : ∀ c ∈ cs, (f c).SameOutcome c) : (oneOfType (cs.map f)).SameOutcome (oneOfType cs) := by
  intro entry v s
  refine outcome_eq_of_checkPresent_eq rfl rfl (fun s => ?_) entry s
  have hany : (cs.map f).any (fun c => (c.check v s).passes) =
      cs.any fun c => (c.check v s).passes := by
    rw [List.any_map, Bool.eq_iff_iff, List.any_eq_true, List.any_eq_true]
    refine exists_congr fun c => and_congr_right fun hc => ?_
    rw [Function.comp_apply, (h c hc).check_eq]
  rw [checkPresent_oneOfType, checkPresent_oneOfType, hany, List.length_map]

theorem SameOutcome.required (h : c.SameOutcome d) : (required c).SameOutcome (required d) := by
  intro entry v s
  cases entry with
  | check => rw [outcome_check, outcome_check, check_required, check_required, h.check_eq]
  | present => exact h .present v s

theorem SameOutcome.nullable (h : c.SameOutcome d) : (nullable c).SameOutcome (nullable d) := by
  intro entry v s
  cases entry with
  | check => rw [outcome_check, outcome_check, check_nullable, check_nullable, h.check_eq]
  | present => exact h .present v s

theorem sameOutcome_rest (c : Checker) : (rest c).SameOutcome c := by
  intro entry v s
  cases entry with
  | check => exact check_rest c v s
  | present => rfl

end SameOutcome

/-! ## Taking markers out -/

mutual

/-- A checker without the markers in it, at any depth. -/
def withoutMarkers : Checker → Checker
  | kindOf expected => kindOf expected
  | any => any
  | instanceOf expected => instanceOf expected
  | oneOf allowed => oneOf allowed
  | arrayOf c => arrayOf c.withoutMarkers
  | objectOf c => objectOf c.withoutMarkers
  | shape ⟨entries, nodup⟩ => shape ⟨fieldsWithoutMarkers entries, nodup⟩
  | oneOfType cs => oneOfType (allWithoutMarkers cs)
  | required c => required c.withoutMarkers
  | nullable c => nullable c.withoutMarkers
  | rest c => c.withoutMarkers
  | custom answers => custom answers

/-- Checkers without the markers in them. -/
def allWithoutMarkers : List Checker → List Checker
  | [] => []
  | c :: cs => c.withoutMarkers :: allWithoutMarkers cs

/-- The checkers of a shape without the markers in them. -/
def fieldsWithoutMarkers : {keys : List String} → Entries Checker keys → Entries Checker keys
  | _, .nil => .nil
  | _, .cons key c entries => .cons key c.withoutMarkers (fieldsWithoutMarkers entries)

end

theorem allWithoutMarkers_eq_map (cs : List Checker) :
    allWithoutMarkers cs = cs.map withoutMarkers := by
  induction cs with
  | nil => rfl
  | cons c cs ih => rw [allWithoutMarkers, ih, List.map_cons]

theorem fieldsWithoutMarkers_eq_map {keys : List String} (e : Entries Checker keys) :
    fieldsWithoutMarkers e = e.map withoutMarkers := by
  induction e with
  | nil => rfl
  | cons key c entries ih => rw [fieldsWithoutMarkers, ih, Entries.map]

theorem withoutMarkers_oneOfType (cs : List Checker) :
    (oneOfType cs).withoutMarkers = oneOfType (cs.map withoutMarkers) := by
  rw [withoutMarkers, allWithoutMarkers_eq_map]

theorem withoutMarkers_shape (fields : Properties Checker) :
    (shape fields).withoutMarkers = shape (fields.map withoutMarkers) := by
  obtain ⟨entries, nodup⟩ := fields
  rw [withoutMarkers, fieldsWithoutMarkers_eq_map]
  rfl

theorem withoutMarkers_of_isLeaf {c : Checker} (h : c.isLeaf) : c.withoutMarkers = c := by
  cases c with
  | kindOf _ | any | instanceOf _ | oneOf _ | custom _ => rfl
  | _ => cases h

/-- The markers make no difference to a check. -/
theorem sameOutcome_withoutMarkers (c : Checker) : c.withoutMarkers.SameOutcome c := by
  refine induct (P := fun c => c.withoutMarkers.SameOutcome c) ⟨fun c hc => ?_,
    fun c ih => ih.arrayOf, fun c ih => ih.objectOf, fun fields ih => ?_, fun cs ih => ?_,
    fun c ih => ih.required, fun c ih => ih.nullable, fun c ih => ?_⟩ c
  · rw [withoutMarkers_of_isLeaf hc]
    exact fun entry v s => rfl
  · rw [withoutMarkers_shape]
    exact sameOutcome_shape_map ih
  · rw [withoutMarkers_oneOfType]
    exact sameOutcome_oneOfType_map ih
  · exact ih.trans (sameOutcome_rest c).symm

theorem sameOutcome_of_withoutMarkers_eq {c d : Checker}
    (h : c.withoutMarkers = d.withoutMarkers) : c.SameOutcome d := by
  have hc := c.sameOutcome_withoutMarkers.symm
  rw [h] at hc
  exact hc.trans d.sameOutcome_withoutMarkers

theorem children_withoutMarkers {c : Checker} (hc : ∀ e, c ≠ rest e) :
    c.withoutMarkers.children = c.children.map withoutMarkers := by
  cases c with
  | rest e => exact absurd rfl (hc e)
  | shape fields =>
    rw [withoutMarkers_shape, children, children, Properties.toList_map, List.map_map,
      List.map_map]
    rfl
  | oneOfType cs => exact congrArg children (withoutMarkers_oneOfType cs)
  | _ => rfl

theorem withoutMarkers_ne_rest {c : Checker} (hc : ∀ e, c ≠ rest e) (e : Checker) :
    c.withoutMarkers ≠ rest e := by
  cases c with
  | rest e => exact absurd rfl (hc e)
  | shape fields =>
    rw [withoutMarkers_shape]
    exact nofun
  | _ => exact nofun

/-- No marker is left, however deep. -/
theorem ne_rest_of_within_withoutMarkers (c : Checker) {d : Checker}
    (h : Relation.ReflTransGen (fun d e => d ∈ e.children) d c.withoutMarkers) (e : Checker) :
    d ≠ rest e := by
  induction c using induct_children generalizing d with
  | step c ih =>
    by_cases hc : ∀ e, c ≠ rest e
    · rcases h.cases_tail with rfl | ⟨b, hd, hb⟩
      · exact withoutMarkers_ne_rest hc e
      · rw [children_withoutMarkers hc] at hb
        obtain ⟨inner, hinner, rfl⟩ := List.mem_map.1 hb
        exact ih inner hinner hd
    · -- What is left of a marked checker is what is left of the one that is marked.
      obtain ⟨inner, rfl⟩ := not_forall_not.1 hc
      exact ih inner List.mem_cons_self h

/-! ## Modifiers around a checker -/

/-- The modifiers around a checker, the outermost first. -/
def modifiers : Checker → List Modifier
  | required c => .required :: c.modifiers
  | nullable c => .nullable :: c.modifiers
  | rest c => .rest :: c.modifiers
  | _ => []

/-- What the modifiers stand around. -/
def core : Checker → Checker
  | required c | nullable c | rest c => c.core
  | c => c

theorem stack_modifiers_core : ∀ c : Checker, stack c.modifiers c.core = c
  | required c => congrArg required (stack_modifiers_core c)
  | nullable c => congrArg nullable (stack_modifiers_core c)
  | rest c => congrArg rest (stack_modifiers_core c)
  | kindOf _ | any | instanceOf _ | oneOf _ | arrayOf _ | objectOf _ | shape _ | oneOfType _
  | custom _ => rfl

theorem modifiers_core : ∀ c : Checker, c.core.modifiers = []
  | required c | nullable c | rest c => modifiers_core c
  | kindOf _ | any | instanceOf _ | oneOf _ | arrayOf _ | objectOf _ | shape _ | oneOfType _
  | custom _ => rfl

/-- A checker takes the arguments that remain if a modifier around it says so, or what these stand
around. -/
theorem isRest_iff (c : Checker) : c.isRest ↔ .rest ∈ c.modifiers ∨ c.core.isRest := by
  rw [← isRest_stack, stack_modifiers_core]

theorem IsStandard.isRest_core {c : Checker} (hc : c.IsStandard) : c.core.isRest = false := by
  induction hc with
  | required _ ih | nullable _ ih | rest _ ih => exact ih
  | _ => rfl

theorem IsStandard.isRest_iff_mem {c : Checker} (hc : c.IsStandard) :
    c.isRest ↔ .rest ∈ c.modifiers := by
  rw [isRest_iff, hc.isRest_core]
  simp

theorem isRest_withoutMarkers {c : Checker} (hc : c.modifiers = []) :
    c.withoutMarkers.isRest = c.isRest := by
  cases c with
  | required _ | nullable _ | rest _ => cases hc
  | shape fields =>
    rw [withoutMarkers_shape]
    rfl
  | _ => rfl

/-! ## Markers below the modifiers -/

/-- Two checkers have the same modifiers around what is the same but for markers further in. -/
structure SameAbove (c d : Checker) : Prop where
  /-- The modifiers around them are the same. -/
  modifiers : c.modifiers = d.modifiers
  /-- What these stand around is the same without markers. -/
  core : c.core.withoutMarkers = d.core.withoutMarkers

theorem withoutMarkers_stack_congr {c d : Checker} (h : c.withoutMarkers = d.withoutMarkers)
    (w : List Modifier) : (stack w c).withoutMarkers = (stack w d).withoutMarkers := by
  induction w with
  | nil => exact h
  | cons m w ih =>
    cases m with
    | required => exact congrArg required ih
    | nullable => exact congrArg nullable ih
    | rest => exact ih

namespace SameAbove

variable {c d : Checker}

theorem check_eq (h : SameAbove c d) : c.check = d.check := by
  refine (sameOutcome_of_withoutMarkers_eq ?_).check_eq
  rw [← c.stack_modifiers_core, ← d.stack_modifiers_core, ← h.modifiers]
  exact withoutMarkers_stack_congr h.core c.modifiers

theorem isRest_eq (h : SameAbove c d) : c.isRest = d.isRest := by
  have hcore : c.core.isRest = d.core.isRest := by
    rw [← isRest_withoutMarkers c.modifiers_core, h.core, isRest_withoutMarkers d.modifiers_core]
  rw [Bool.eq_iff_iff, c.isRest_iff, d.isRest_iff, h.modifiers, hcore]

end SameAbove

/-! ## Lists of checkers -/

section Lists

variable {cs ds : List Checker}

theorem map_isRest_eq (h : List.Forall₂ SameAbove cs ds) : cs.map isRest = ds.map isRest := by
  induction h with
  | nil => rfl
  | cons hcd _ ih => rw [List.map_cons, List.map_cons, hcd.isRest_eq, ih]

theorem misplaced_iff_of_sameAbove (h : List.Forall₂ SameAbove cs ds) (i : Nat) :
    Misplaced cs i ↔ Misplaced ds i := by
  have hany : ∀ es : List Checker, es[i]?.any isRest = (es.map isRest)[i]?.any id := by
    intro es
    rw [List.getElem?_map]
    cases es[i]? <;> rfl
  rw [Misplaced, Misplaced, h.length_eq, hany, hany, map_isRest_eq h]

/-- Arguments are handed out alike, and the checks of them end alike. -/
theorem map_outcome_assign (h : List.Forall₂ SameAbove cs ds) (method : String) (position : Nat)
    (args : List Value) :
    (assign position cs args).map (Assignment.outcome method) =
      (assign position ds args).map (Assignment.outcome method) := by
  induction h generalizing position args with
  | nil => rfl
  | @cons c d cs ds hcd htail ih =>
    have hhead : ∀ i v, Assignment.outcome method ⟨i, c, v⟩ = Assignment.outcome method ⟨i, d, v⟩ :=
      fun i v => by rw [Assignment.outcome, Assignment.outcome, hcd.check_eq]
    cases htail with
    | nil =>
      rw [assign, assign, hcd.isRest_eq]
      split
      · rw [List.map_map, List.map_map]
        exact List.map_congr_left fun arg _ => hhead _ _
      · rw [List.map_singleton, List.map_singleton, hhead]
    | @cons c' d' cs ds _ _ =>
      calc (assign position (c :: c' :: cs) args).map (Assignment.outcome method)
          = Assignment.outcome method ⟨position, c, args.headD .undefined⟩ ::
              (assign (position + 1) (c' :: cs) args.tail).map (Assignment.outcome method) := rfl
        _ = Assignment.outcome method ⟨position, d, args.headD .undefined⟩ ::
              (assign (position + 1) (d' :: ds) args.tail).map (Assignment.outcome method) := by
            rw [hhead, ih]
        _ = (assign position (d :: d' :: ds) args).map (Assignment.outcome method) := rfl

theorem new?_eq_error_iff_of_sameAbove (h : List.Forall₂ SameAbove cs ds) {method : String}
    {e : SignatureError} :
    Signature.new? method cs = .error e ↔ Signature.new? method ds = .error e := by
  simp only [Signature.new?_eq_error_iff, misplaced_iff_of_sameAbove h]

end Lists

end Checker

/-! ## Calls -/

/-- What is told and handed on in a call. -/
def Run.reports (r : Run) : List Moment := r.moments.filter fun m => m.call?.isNone

/-- The ends of the checks are all that is reported. -/
theorem reports_runPlan (hasSink : Bool) (method : String) (plan : List Assignment) :
    (runPlan hasSink method plan).reports =
      (plan.map (Assignment.outcome method)).flatMap (report hasSink) := by
  have hreport : ∀ o, (report hasSink o).filter (fun m => m.call?.isNone) = report hasSink o := by
    intro o
    cases o <;> cases hasSink <;> rfl
  induction plan with
  | nil => rfl
  | cons a plan ih =>
    rw [Run.reports, runPlan, List.filter_cons_of_neg (by simp [Moment.call?]),
      List.filter_append, hreport, List.map_cons, List.flatMap_cons, ← ih]
    rfl

namespace LoggingGuard

variable (s : Signature) (hasSink : Bool) (args : List Value)

theorem failures_eq_filterMap_outcomes :
    (ofSignature s hasSink).failures args =
      ((s.plan args).map (Assignment.outcome s.method)).filterMap Outcome.failure? := by
  rw [failures_ofSignature, List.filterMap_map]
  rfl

theorem reports_eq_flatMap_outcomes :
    ((ofSignature s hasSink).run args).reports =
      ((s.plan args).map (Assignment.outcome s.method)).flatMap (report hasSink) :=
  reports_runPlan hasSink s.method (s.plan args)

end LoggingGuard

/-- Signatures that differ in markers below the modifiers have all checks end alike. -/
theorem Signature.map_outcome_plan {s t : Signature}
    (h : List.Forall₂ Checker.SameAbove s.checkers t.checkers) (hmethod : s.method = t.method)
    (args : List Value) :
    (s.plan args).map (Assignment.outcome s.method) =
      (t.plan args).map (Assignment.outcome t.method) :=
  hmethod ▸ Checker.map_outcome_assign h s.method 0 args

namespace Checker

/-- A checker ends with every value, by either entry and failure included, as it does with all
markers in it taken out, and so do two checkers that differ in markers alone. Whether a checker
takes the arguments that remain depends on the modifiers around it and on what these stand
around, which in this library never does. So lists of checkers that differ in markers below the
modifiers alone are refused with the same error, and of two that are accepted, every call under
a strict guard ends alike, and every call under a logging guard has the same answer and the same
reports. -/
theorem outcome_of_markers :
    (∀ c : Checker,
      (∀ entry v s, c.withoutMarkers.outcome entry v s = c.outcome entry v s) ∧
      ∀ d, Relation.ReflTransGen (fun d e => d ∈ e.children) d c.withoutMarkers →
        ∀ e, d ≠ rest e) ∧
    (∀ c d : Checker, c.withoutMarkers = d.withoutMarkers →
      ∀ entry v s, c.outcome entry v s = d.outcome entry v s) ∧
    (∀ c : Checker, stack c.modifiers c.core = c ∧ c.core.modifiers = [] ∧
      (c.isRest ↔ .rest ∈ c.modifiers ∨ c.core.isRest) ∧
      (c.IsStandard → (c.isRest ↔ .rest ∈ c.modifiers))) ∧
    ∀ cs ds : List Checker, List.Forall₂ SameAbove cs ds → ∀ method,
      (∀ e, Signature.new? method cs = .error e ↔ Signature.new? method ds = .error e) ∧
      ((∃ s, Signature.new? method cs = .ok s) ↔ ∃ t, Signature.new? method ds = .ok t) ∧
      ∀ s t, Signature.new? method cs = .ok s → Signature.new? method ds = .ok t → ∀ args,
        (StrictGuard.ofSignature s).outcome args = (StrictGuard.ofSignature t).outcome args ∧
        ∀ hasSink,
          (LoggingGuard.ofSignature s hasSink).failures args =
            (LoggingGuard.ofSignature t hasSink).failures args ∧
          ((LoggingGuard.ofSignature s hasSink).run args).reports =
            ((LoggingGuard.ofSignature t hasSink).run args).reports := by
  refine ⟨fun c => ⟨c.sameOutcome_withoutMarkers, fun d => c.ne_rest_of_within_withoutMarkers⟩,
    fun c d => sameOutcome_of_withoutMarkers_eq,
    fun c => ⟨c.stack_modifiers_core, c.modifiers_core, c.isRest_iff, fun hc => hc.isRest_iff_mem⟩,
    fun cs ds h method => ⟨fun e => new?_eq_error_iff_of_sameAbove h, ?_, fun s t hs ht args => ?_⟩⟩
  · rw [Signature.exists_new?_eq_ok_iff, Signature.exists_new?_eq_ok_iff]
    exact forall_congr' fun i => not_congr (misplaced_iff_of_sameAbove h i)
  · obtain ⟨hsmethod, rfl⟩ := Signature.new?_eq_ok_iff.1 hs
    obtain ⟨htmethod, rfl⟩ := Signature.new?_eq_ok_iff.1 ht
    have hplan := Signature.map_outcome_plan h (hsmethod.trans htmethod.symm) args
    refine ⟨?_, fun hasSink => ⟨?_, ?_⟩⟩
    · rw [StrictGuard.outcome_ofSignature, StrictGuard.outcome_ofSignature, hplan]
    · rw [LoggingGuard.failures_eq_filterMap_outcomes, hplan,
        LoggingGuard.failures_eq_filterMap_outcomes]
    · rw [LoggingGuard.reports_eq_flatMap_outcomes, hplan,
        LoggingGuard.reports_eq_flatMap_outcomes]

/-- Markers in elements and fields neither misplace a checker nor take arguments, as the same
markers would around it. -/
theorem outcome_of_markers_in_parts :
    let marked := [arrayOf (rest (required any)),
      nullable (rest (ofFields [("a", rest (nullable (rest (kindOf .string))))]))]
    let plain := [arrayOf (required any),
      nullable (rest (ofFields [("a", nullable (kindOf .string))]))]
    let args := [.array [.null], .object none (.ofList [("a", .bool true)]), .bool true]
    marked ≠ plain ∧ List.Forall₂ SameAbove marked plain ∧
      ∃ s t, Signature.new? "save" marked = .ok s ∧ Signature.new? "save" plain = .ok t ∧
        (LoggingGuard.ofSignature s true).failures args =
          (LoggingGuard.ofSignature t true).failures args ∧
        ((LoggingGuard.ofSignature t true).failures args).map Failure.location =
          ["0th element of 0th", "property a of 1st", "2nd"] := by
  intro marked plain args
  have hne : arrayOf (rest (required any)) ≠ arrayOf (required any) := nofun
  have hsame : List.Forall₂ SameAbove marked plain := .cons ⟨rfl, rfl⟩ (.cons ⟨rfl, rfl⟩ .nil)
  obtain ⟨s, hs⟩ : ∃ s, Signature.new? "save" marked = .ok s := ⟨_, rfl⟩
  obtain ⟨t, ht⟩ : ∃ t, Signature.new? "save" plain = .ok t := ⟨_, rfl⟩
  obtain ⟨-, -, -, hlists⟩ := outcome_of_markers
  obtain ⟨-, -, hcalls⟩ := hlists marked plain hsame "save"
  obtain ⟨hfailures, -⟩ := (hcalls s t hs ht args).2 true
  refine ⟨fun h => hne (List.cons.inj h).1, hsame, s, t, hs, ht, hfailures, ?_⟩
  obtain ⟨rfl⟩ := ht
  decide

end Checker

end CallGuard
