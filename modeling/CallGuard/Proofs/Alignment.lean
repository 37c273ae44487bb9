import CallGuard.Guard.Logging
import CallGuard.Proofs.Blame
import CallGuard.Proofs.Visits

/-!
# Checkers and arguments

`aligned` sets out by positions which checker of a list gets which argument : one check
for each checker, with the argument at its position or undefined, and for a last checker
that takes the remaining arguments one check for each argument from its position on.
`assign` hands the arguments out one after another, and comes to the same
(`assign_eq_aligned`), for lists of any lengths.

The positions of the checks are `0, 1, 2, …` (`map_position_aligned`). So a list whose
last checker takes the remaining arguments does what a list does in which that checker
stands once for each of them (`expand`, `aligned_expand`) without its marker
(`Checker.unmarked`).

`LoggingGuard.run_aligned` says so of calls under a logging guard : what is checked, where,
in which order and with which failures. Lists of checkers are taken apart from behind, as
`init ++ [c]`, since the last checker alone may get more than one argument or none.
-/

namespace CallGuard

/-! ## Checks by position -/

/-- The argument at a position, or undefined if it is missing. -/
def argumentAt (args : List Value) (i : Nat) : Value := args[i]?.getD .undefined

/-- One check for each checker, with the argument at its position. -/
def fixedChecks (checkers : List Checker) (args : List Value) : List Assignment :=
  checkers.zipIdx.map fun c => ⟨c.2, c.1, argumentAt args c.2⟩

/-- One check for each argument from a position on, all by one checker. -/
def remainingChecks (position : Nat) (c : Checker) (args : List Value) : List Assignment :=
  ((args.drop position).zipIdx position).map fun arg => ⟨arg.2, c, arg.1⟩

/-- The checks of arguments by a list of checkers, of which the last may take all arguments
from its position on. -/
def aligned (checkers : List Checker) (args : List Value) : List Assignment :=
  match checkers.getLast? with
  | none => []
  | some c =>
    if c.isRest then
      fixedChecks checkers.dropLast args ++ remainingChecks (checkers.length - 1) c args
    else fixedChecks checkers args

theorem aligned_append_singleton (init : List Checker) (c : Checker) (args : List Value) :
    aligned (init ++ [c]) args = fixedChecks init args ++
      if c.isRest then remainingChecks init.length c args
      else [⟨init.length, c, argumentAt args init.length⟩] := by
  simp only [aligned, List.getLast?_concat, List.dropLast_concat, List.length_append,
    List.length_singleton, Nat.add_sub_cancel]
  split
  · rfl
  · simp [fixedChecks, List.zipIdx_append]

theorem headD_drop (args : List Value) (k : Nat) :
    (args.drop k).headD .undefined = argumentAt args k := by
  rw [argumentAt, List.headD_eq_head?_getD, List.head?_drop]

theorem assign_append_singleton (k : Nat) (init : List Checker) (c : Checker)
    (args : List Value) :
    assign k (init ++ [c]) (args.drop k) =
      (init.zipIdx k).map (fun c => ⟨c.2, c.1, argumentAt args c.2⟩) ++
        if c.isRest then remainingChecks (k + init.length) c args
        else [⟨k + init.length, c, argumentAt args (k + init.length)⟩] := by
  induction init generalizing k with
  | nil =>
    simp only [List.nil_append, assign, headD_drop]
    rfl
  | cons d init ih =>
    have hcons : assign k (d :: (init ++ [c])) (args.drop k) =
        ⟨k, d, argumentAt args k⟩ :: assign (k + 1) (init ++ [c]) (args.drop (k + 1)) := by
      rw [← headD_drop, ← List.tail_drop]
      cases init <;> rfl
    rw [List.cons_append, hcons, ih, List.zipIdx_cons, List.map_cons, List.length_cons,
      Nat.add_right_comm, Nat.add_assoc]
    rfl

/-- Handing arguments out one after another is checking by positions. -/
theorem assign_eq_aligned (checkers : List Checker) (args : List Value) :
    assign 0 checkers args = aligned checkers args := by
  rcases List.eq_nil_or_concat checkers with rfl | ⟨init, c, rfl⟩
  · rfl
  · rw [List.concat_eq_append, aligned_append_singleton]
    simpa [fixedChecks] using assign_append_singleton 0 init c args

theorem checker_mem_of_mem_aligned {checkers : List Checker} {args : List Value} {a : Assignment}
    (h : a ∈ aligned checkers args) : a.checker ∈ checkers := by
  rcases List.eq_nil_or_concat checkers with rfl | ⟨init, c, rfl⟩
  · cases h
  · rw [List.concat_eq_append, aligned_append_singleton] at h
    rw [List.concat_eq_append, List.mem_append, List.mem_singleton]
    rcases List.mem_append.1 h with h | h
    · obtain ⟨d, hd, rfl⟩ := List.mem_map.1 h
      exact Or.inl (List.fst_mem_of_mem_zipIdx hd)
    · refine Or.inr ?_
      split at h
      · obtain ⟨arg, -, rfl⟩ := List.mem_map.1 h
        rfl
      · exact (List.mem_singleton.1 h) ▸ rfl

/-! ## Positions -/

theorem map_position_fixedChecks (checkers : List Checker) (args : List Value) :
    (fixedChecks checkers args).map Assignment.position = List.range' 0 checkers.length := by
  rw [fixedChecks, List.map_map, ← List.zipIdx_map_snd]
  rfl

theorem map_position_remainingChecks (position : Nat) (c : Checker) (args : List Value) :
    (remainingChecks position c args).map Assignment.position =
      List.range' position (args.length - position) := by
  rw [remainingChecks, List.map_map, ← List.length_drop, ← List.zipIdx_map_snd]
  rfl

/-- The checks are made at the positions `0, 1, 2, …`, one for each checker, or up to the last
argument if the last checker takes those that remain. -/
theorem map_position_aligned (init : List Checker) (c : Checker) (args : List Value) :
    (aligned (init ++ [c]) args).map Assignment.position =
      List.range (if c.isRest then max init.length args.length else init.length + 1) := by
  rw [aligned_append_singleton, List.range_eq_range', List.map_append, map_position_fixedChecks]
  split
  · have h : max init.length args.length = init.length + (args.length - init.length) := by omega
    rw [map_position_remainingChecks, h, ← List.range'_append_1, Nat.zero_add]
  · rw [← List.range'_append_1, Nat.zero_add]
    rfl

theorem pairwise_position_aligned (checkers : List Checker) (args : List Value) :
    ((aligned checkers args).map Assignment.position).Pairwise (· < ·) := by
  rcases List.eq_nil_or_concat checkers with rfl | ⟨init, c, rfl⟩
  · exact List.Pairwise.nil
  · rw [List.concat_eq_append, map_position_aligned]
    exact List.pairwise_lt_range

/-! ## Failures of standard checkers -/

/-- The failures stand at the positions of the checks that fail. -/
theorem map_position_failures {plan : List Assignment} (h : ∀ a ∈ plan, a.checker.IsStandard)
    (method : String) :
    (plan.filterMap fun a => (a.outcome method).failure?).map Failure.position =
      (plan.filter fun a => !(a.outcome method).passes).map Assignment.position := by
  induction plan with
  | nil => rfl
  | cons a plan ih =>
    have hplan := ih fun b hb => h b (List.mem_cons_of_mem a hb)
    simp only [List.filterMap_cons, List.filter_cons]
    cases ha : a.outcome method with
    | pass => exact hplan
    | fail f =>
      have hf : f.position = a.position :=
        (h a List.mem_cons_self).position_of_check_eq_fail ha
      exact congrArg₂ List.cons hf hplan

/-! ## The last checker for each remaining argument -/

/-- A checker without the markers that `Checker.isRest` looks at. -/
def Checker.unmarked : Checker → Checker
  | rest c => c.unmarked
  | required c => required c.unmarked
  | nullable c => nullable c.unmarked
  | custom answers => custom { answers with isRest := false }
  | c => c

theorem Checker.isRest_unmarked (c : Checker) : c.unmarked.isRest = false := by
  induction c using induct_children with
  | step c ih =>
    cases c with
    | required c | nullable c | rest c => exact ih c List.mem_cons_self
    | _ => rfl

/-- The markers make no difference to a check. -/
theorem Checker.check_unmarked (c : Checker) (v : Value) (s : Site) :
    c.unmarked.check v s = c.check v s := by
  induction c using induct_children with
  | step c ih =>
    cases c with
    | required c => rw [unmarked, check_required, check_required, ih c List.mem_cons_self]
    | nullable c => rw [unmarked, check_nullable, check_nullable, ih c List.mem_cons_self]
    | rest c => rw [unmarked, check_rest, ih c List.mem_cons_self]
    | custom answers => rw [unmarked, check_custom, check_custom]
    | _ => rfl

/-- The checkers for a number of arguments, where the last one stands once for each argument that
it takes, without its marker. -/
def expand (checkers : List Checker) (count : Nat) : List Checker :=
  match checkers.getLast? with
  | none => []
  | some c =>
    checkers.dropLast ++ List.replicate (count - (checkers.length - 1)) c.unmarked

theorem aligned_of_last {checkers : List Checker}
    (h : checkers.getLast?.any Checker.isRest = false) (args : List Value) :
    aligned checkers args = fixedChecks checkers args := by
  unfold aligned
  cases hc : checkers.getLast? with
  | none =>
    rw [List.getLast?_eq_none_iff.1 hc]
    rfl
  | some c =>
    rw [hc] at h
    exact if_neg (by simpa using h)

theorem expand_append_singleton (init : List Checker) (c : Checker) (count : Nat) :
    expand (init ++ [c]) count = init ++ List.replicate (count - init.length) c.unmarked := by
  simp [expand]

theorem isRest_of_mem_expand {init : List Checker} (hinit : ∀ d ∈ init, d.isRest = false)
    {c d : Checker} {count : Nat} (hd : d ∈ expand (init ++ [c]) count) : d.isRest = false := by
  rw [expand_append_singleton] at hd
  rcases List.mem_append.1 hd with hd | hd
  · exact hinit d hd
  · exact (List.eq_of_mem_replicate hd) ▸ c.isRest_unmarked

theorem getLast?_any_eq_false {checkers : List Checker} (h : ∀ d ∈ checkers, d.isRest = false) :
    checkers.getLast?.any Checker.isRest = false := by
  cases hc : checkers.getLast? with
  | none => rfl
  | some c => exact h c (List.mem_of_getLast? hc)

theorem remainingChecks_eq_map_range' (position : Nat) (c : Checker) (args : List Value) :
    remainingChecks position c args =
      (List.range' position (args.length - position)).map fun i => ⟨i, c, argumentAt args i⟩ := by
  refine List.ext_getElem (by simp [remainingChecks]) fun i hi hi' => ?_
  have hlt : position + i < args.length := by
    rw [List.length_map, List.length_range'] at hi'
    omega
  simp [remainingChecks, argumentAt, hlt]

theorem fixedChecks_append_replicate (init : List Checker) (count : Nat) (c : Checker)
    (args : List Value) :
    fixedChecks (init ++ List.replicate count c) args = fixedChecks init args ++
      (List.range' init.length count).map fun i => ⟨i, c, argumentAt args i⟩ := by
  rw [fixedChecks, List.zipIdx_append, List.map_append, Nat.zero_add]
  congr 1
  exact List.ext_getElem (by simp) fun i hi hi' => by simp

/-- A last checker that takes the remaining arguments does what it does once for each. -/
theorem aligned_expand {init : List Checker} (hinit : ∀ d ∈ init, d.isRest = false) (c : Checker)
    (args : List Value) :
    aligned (expand (init ++ [c]) args.length) args =
      fixedChecks init args ++ remainingChecks init.length c.unmarked args := by
  rw [aligned_of_last (getLast?_any_eq_false fun d hd => isRest_of_mem_expand hinit hd),
    expand_append_singleton, fixedChecks_append_replicate, remainingChecks_eq_map_range']

/-! ## Missing and superfluous arguments -/

/-- An argument that is missing is as good as undefined. -/
theorem argumentAt_append_replicate (args : List Value) (count i : Nat) :
    argumentAt (args ++ List.replicate count .undefined) i = argumentAt args i := by
  unfold argumentAt
  rcases Nat.lt_or_ge i args.length with hi | hi
  · rw [List.getElem?_append_left hi]
  · rw [List.getElem?_append_right hi, List.getElem?_eq_none hi, List.getElem?_replicate]
    split <;> rfl

theorem fixedChecks_append_undefined (checkers : List Checker) (args : List Value) (count : Nat) :
    fixedChecks checkers (args ++ List.replicate count .undefined) = fixedChecks checkers args := by
  simp only [fixedChecks, argumentAt_append_replicate]

theorem remainingChecks_of_length_le {position : Nat} {args : List Value}
    (h : args.length ≤ position) (c : Checker) : remainingChecks position c args = [] := by
  rw [remainingChecks, List.drop_eq_nil_of_le h]
  rfl

theorem fixedChecks_take (checkers : List Checker) (args : List Value) :
    fixedChecks checkers (args.take checkers.length) = fixedChecks checkers args := by
  refine List.map_congr_left fun c hc => ?_
  have hlt : c.2 < checkers.length := by simpa using List.snd_lt_of_mem_zipIdx hc
  simp [argumentAt, List.getElem?_take_of_lt hlt]

/-! ## Accepted lists -/

theorem Signature.new?_eq_ok_iff {method : String} {checkers : List Checker} {s : Signature} :
    Signature.new? method checkers = .ok s ↔ s.method = method ∧ s.checkers = checkers := by
  unfold Signature.new?
  split
  · rename_i position h
    constructor
    · intro h
      cases h
    · rintro ⟨rfl, rfl⟩
      rw [List.findIdx?_eq_none_iff.2 s.restLast] at h
      cases h
  · constructor
    · intro h
      cases h
      exact ⟨rfl, rfl⟩
    · rintro ⟨rfl, rfl⟩
      rfl

namespace Signature

/-- Arguments are handed out to the checkers that they are aligned with. -/
theorem plan_eq_aligned (s : Signature) (args : List Value) :
    s.plan args = aligned s.checkers args :=
  assign_eq_aligned s.checkers args

theorem exists_new?_eq_ok (method : String) {checkers : List Checker}
    (h : ∀ c ∈ checkers.dropLast, c.isRest = false) :
    ∃ s, Signature.new? method checkers = .ok s :=
  ⟨⟨method, checkers, h⟩, new?_eq_ok_iff.2 ⟨rfl, rfl⟩⟩

theorem hasRest_iff (s : Signature) :
    s.hasRest ↔ ∃ init c, s.checkers = init ++ [c] ∧ c.isRest := by
  unfold hasRest
  rcases List.eq_nil_or_concat s.checkers with h | ⟨init, c, h⟩
  · simp [h]
  · rw [h, List.concat_eq_append, List.getLast?_concat]
    constructor
    · exact fun hc => ⟨init, c, rfl, hc⟩
    · rintro ⟨init', c', h', hc'⟩
      obtain ⟨-, hc⟩ := List.append_inj' h' rfl
      exact (List.singleton_inj.1 hc) ▸ hc'

theorem aligned_append_undefined (s : Signature) {args : List Value} {count : Nat}
    (h : s.hasRest → args.length + count < s.size) :
    aligned s.checkers (args ++ List.replicate count .undefined) = aligned s.checkers args := by
  cases hs : s.hasRest with
  | false => rw [aligned_of_last hs, aligned_of_last hs, fixedChecks_append_undefined]
  | true =>
    obtain ⟨init, c, hc, hrest⟩ := s.hasRest_iff.1 hs
    have hlt : args.length + count ≤ init.length := by
      have := h hs
      rw [size, hc, List.length_append, List.length_singleton] at this
      omega
    rw [hc, aligned_append_singleton, aligned_append_singleton, if_pos hrest, if_pos hrest,
      fixedChecks_append_undefined, remainingChecks_of_length_le (by simpa using hlt),
      remainingChecks_of_length_le (by omega)]

theorem aligned_take (s : Signature) (h : s.hasRest = false) (args : List Value) :
    aligned s.checkers (args.take s.size) = aligned s.checkers args := by
  rw [aligned_of_last h, aligned_of_last h]
  exact fixedChecks_take s.checkers args

theorem aligned_of_length_lt (s : Signature) (h : s.hasRest) {args : List Value}
    (hargs : args.length < s.size) :
    aligned s.checkers args = fixedChecks s.checkers.dropLast args := by
  obtain ⟨init, c, hc, hrest⟩ := s.hasRest_iff.1 h
  rw [size, hc, List.length_append, List.length_singleton] at hargs
  rw [hc, aligned_append_singleton, if_pos hrest, remainingChecks_of_length_le (by omega),
    List.dropLast_concat, List.append_nil]

end Signature

/-! ## Calls under a logging guard -/

/-- What is checked by a call, where, and how it ends, whatever checks it. -/
def Call.finding (c : Call) : Value × Site × Outcome := (c.visit.value, c.visit.site, c.outcome)

/-- What is checked of an argument, where, and how it ends, whatever checks it. -/
def Assignment.finding (method : String) (a : Assignment) : Value × Site × Outcome :=
  (a.value, .argument method a.position, a.outcome method)

theorem Assignment.visit_call (method : String) (a : Assignment) :
    (a.call method).visit = ⟨a.checker, .check, a.value, .argument method a.position⟩ :=
  Checker.visit_checkCall _ _ _

theorem Assignment.finding_call (method : String) (a : Assignment) :
    (a.call method).finding = a.finding method := by
  rw [Call.finding, visit_call]
  rfl

namespace LoggingGuard

variable (s : Signature) (hasSink : Bool) (args : List Value)

theorem calls_ofSignature :
    ((ofSignature s hasSink).run args).calls = (s.plan args).map (Assignment.call s.method) :=
  calls_runPlan _ _ _

theorem failures_ofSignature :
    (ofSignature s hasSink).failures args =
      (s.plan args).filterMap fun a => (a.outcome s.method).failure? :=
  failures_runPlan _ _ _

theorem findings_ofSignature :
    ((ofSignature s hasSink).run args).calls.map Call.finding =
      (s.plan args).map (Assignment.finding s.method) := by
  rw [calls_ofSignature, List.map_map]
  exact List.map_congr_left fun a _ => a.finding_call s.method

/-- The failures can be read off what is found. -/
theorem failures_eq_filterMap_findings :
    (ofSignature s hasSink).failures args =
      (((ofSignature s hasSink).run args).calls.map Call.finding).filterMap
        fun finding => finding.2.2.failure? := by
  rw [findings_ofSignature, failures_ofSignature, List.filterMap_map]
  rfl

/-- Checkers of which the last takes the remaining arguments find what those find in which
it stands once for each. -/
theorem exists_expand (h : s.hasRest) :
    ∃ t, Signature.new? s.method (expand s.checkers args.length) = .ok t ∧ t.hasRest = false ∧
      t.size = max (s.size - 1) args.length ∧
      ((ofSignature t hasSink).run args).calls.map Call.finding =
        ((ofSignature s hasSink).run args).calls.map Call.finding := by
  obtain ⟨init, c, hc, hrest⟩ := s.hasRest_iff.1 h
  have hinit : ∀ d ∈ init, d.isRest = false := by
    have := s.restLast
    rwa [hc, List.dropLast_concat] at this
  have hmem : ∀ d ∈ expand (init ++ [c]) args.length, d.isRest = false :=
    fun d hd => isRest_of_mem_expand hinit hd
  have hdrop : ∀ d ∈ (expand (init ++ [c]) args.length).dropLast, d.isRest = false :=
    fun d hd => hmem d (List.dropLast_subset _ hd)
  obtain ⟨t, ht⟩ := Signature.exists_new?_eq_ok s.method hdrop
  obtain ⟨hmethod, ht'⟩ := Signature.new?_eq_ok_iff.1 ht
  refine ⟨t, hc ▸ ht, ?_, ?_, ?_⟩
  · rw [Signature.hasRest, ht']
    exact getLast?_any_eq_false hmem
  · rw [Signature.size, Signature.size, ht', hc, expand_append_singleton]
    simp only [List.length_append, List.length_replicate, List.length_singleton]
    omega
  · rw [findings_ofSignature, findings_ofSignature, t.plan_eq_aligned, s.plan_eq_aligned, hmethod,
      ht', hc, aligned_expand hinit, aligned_append_singleton, if_pos hrest, List.map_append,
      List.map_append]
    congr 1
    simp only [remainingChecks, List.map_map]
    refine List.map_congr_left fun arg _ => ?_
    simp only [Function.comp_apply, Assignment.finding, Assignment.outcome, Checker.check_unmarked]

theorem run_congr {args' : List Value} (h : aligned s.checkers args' = aligned s.checkers args) :
    (ofSignature s hasSink).run args' = (ofSignature s hasSink).run args := by
  rw [← s.plan_eq_aligned, ← s.plan_eq_aligned] at h
  exact congrArg (runPlan hasSink s.method) h

/-- A logging guard for accepted checkers makes the aligned checks, each once, in order, each
at the site of its argument, and answers with the failures of those that fail. The failures
of standard checkers stand at the positions of these checks, which increase. A last checker
that takes the remaining arguments stands for one checker for each, and is not asked if there
are none; a missing argument is undefined; and arguments behind the last checker are left alone. -/
theorem run_aligned {method : String} {checkers : List Checker} {s : Signature}
    (h : Signature.new? method checkers = .ok s) (hasSink : Bool) (args : List Value) :
    let run := (ofSignature s hasSink).run
    (run args).calls = (aligned checkers args).map (Assignment.call method) ∧
    ((run args).calls.map Call.visit = (aligned checkers args).map fun a =>
      ⟨a.checker, .check, a.value, .argument method a.position⟩) ∧
    ((run args).failures = (aligned checkers args).filterMap fun a =>
      (a.outcome method).failure?) ∧
    ((∀ c ∈ checkers, c.IsStandard) →
      (run args).failures.map Failure.position =
        ((aligned checkers args).filter fun a => !(a.outcome method).passes).map
          Assignment.position ∧
      ((run args).failures.map Failure.position).Pairwise (· < ·)) ∧
    (s.hasRest → ∃ t, Signature.new? method (expand checkers args.length) = .ok t ∧
      t.hasRest = false ∧ t.size = max (checkers.length - 1) args.length ∧
      ((ofSignature t hasSink).run args).failures = (run args).failures ∧
      ((ofSignature t hasSink).run args).calls.map Call.finding =
        (run args).calls.map Call.finding) ∧
    (s.hasRest → args.length < checkers.length →
      (run args).calls = (fixedChecks checkers.dropLast args).map (Assignment.call method)) ∧
    (∀ count, (s.hasRest → args.length + count < checkers.length) →
      run (args ++ List.replicate count .undefined) = run args) ∧
    (s.hasRest = false → run (args.take checkers.length) = run args) := by
  obtain ⟨rfl, rfl⟩ := Signature.new?_eq_ok_iff.1 h
  have hcalls := calls_ofSignature s hasSink args
  have hfailures := failures_ofSignature s hasSink args
  rw [s.plan_eq_aligned] at hcalls hfailures
  refine ⟨hcalls, ?_, hfailures, ?_, ?_, ?_, ?_, ?_⟩
  · rw [hcalls, List.map_map]
    exact List.map_congr_left fun a _ => a.visit_call s.method
  · intro hstandard
    have hplan : ∀ a ∈ aligned s.checkers args, a.checker.IsStandard :=
      fun a ha => hstandard a.checker (checker_mem_of_mem_aligned ha)
    have hposition := map_position_failures hplan s.method
    rw [← hfailures] at hposition
    refine ⟨hposition, ?_⟩
    refine List.Pairwise.sublist ?_ (pairwise_position_aligned s.checkers args)
    exact hposition ▸ List.filter_sublist.map _
  · intro hrest
    obtain ⟨t, ht, htrest, hsize, hfindings⟩ := exists_expand s hasSink args hrest
    refine ⟨t, ht, htrest, hsize, ?_, hfindings⟩
    exact (failures_eq_filterMap_findings t hasSink args).trans
      (hfindings ▸ (failures_eq_filterMap_findings s hasSink args).symm)
  · intro hrest hlt
    rw [hcalls, s.aligned_of_length_lt hrest hlt]
  · exact fun count hcount => run_congr s hasSink args (s.aligned_append_undefined hcount)
  · exact fun hrest => run_congr s hasSink args (s.aligned_take hrest args)

/-- Of the three arguments that a last checker takes, two fail. -/
theorem positions_of_failures_of_rest :
    let checkers := [.kindOf .string, .rest (.required (.kindOf .string))]
    let args := [.undefined, .string "a", .null, .bool true]
    ∃ s, Signature.new? "save" checkers = .ok s ∧ (∀ c ∈ checkers, c.IsStandard) ∧
      ((ofSignature s false).run args).failures.map Failure.position = [2, 3] := by
  intro checkers args
  obtain ⟨s, hs⟩ : ∃ s, Signature.new? "save" checkers = .ok s := ⟨_, rfl⟩
  have hstandard : ∀ c ∈ checkers, c.IsStandard := by
    intro c hc
    rcases List.mem_pair.1 hc with rfl | rfl
    · exact .kindOf _
    · exact .rest (.required (.kindOf _))
  obtain ⟨-, -, -, hposition, -⟩ := run_aligned hs false args
  exact ⟨s, hs, hstandard, (hposition hstandard).1.trans (by decide)⟩

end LoggingGuard

end CallGuard
