import CallGuard.Guard.Strict
import CallGuard.Proofs.Alignment

/-!
# Stopping and going on

A strict guard and a logging guard for the same signature follow one plan. The strict guard
makes its checks until one fails, the logging guard makes them all.

Either every check of the plan passes, and the two make the same calls, or the plan
splits at the first check that fails, and the strict guard makes the calls up to that check
(`StrictGuard.exists_split_of_fail`). So its failure is the first on the list of the logging
guard (`StrictGuard.failure?_outcome`), and what it enters is the beginning of what the logging
guard enters. Since positions increase along a plan and no check leaves its argument
(`Checker.position_of_mem_visits`), nothing is entered for a later argument.
-/

namespace CallGuard

/-! ## The first failure of a list of calls -/

theorem failure?_firstFailure (outcomes : List Outcome) :
    (firstFailure outcomes).failure? = (outcomes.filterMap Outcome.failure?).head? := by
  induction outcomes with
  | nil => rfl
  | cons o rest ih =>
    cases o with
    | pass => exact ih
    | fail f => rfl

theorem untilFailure_eq_map {α : Type} {call : α → Call} {as : List α}
    (h : ∀ a ∈ as, (call a).passes) : untilFailure call as = as.map call := by
  induction as with
  | nil => rfl
  | cons a as ih =>
    obtain ⟨ha, has⟩ := List.forall_mem_cons.1 h
    rw [untilFailure, List.map_cons, ← ih has]
    exact if_pos ha

theorem untilFailure_append_cons {α : Type} {call : α → Call} {before : List α} {a : α}
    (hbefore : ∀ b ∈ before, (call b).passes) (ha : (call a).passes = false) (after : List α) :
    untilFailure call (before ++ a :: after) = (before ++ [a]).map call := by
  induction before with
  | nil =>
    rw [List.nil_append, untilFailure]
    exact if_neg (by simp [ha])
  | cons b before ih =>
    obtain ⟨hb, hbefore⟩ := List.forall_mem_cons.1 hbefore
    rw [List.cons_append, untilFailure, List.cons_append, List.map_cons, ← ih hbefore]
    exact if_pos hb

theorem Outcome.passes_iff_failure? (o : Outcome) : o.passes ↔ o.failure? = none := by
  cases o <;> simp [passes, failure?]

theorem Outcome.eq_fail_iff_failure? (o : Outcome) (f : Failure) :
    o = .fail f ↔ o.failure? = some f := by
  cases o <;> simp [failure?]

theorem Failure.resultOf_eq_ok_iff {α : Type} (failures : List Failure) (x : α) :
    resultOf failures x = .ok x ↔ failures = [] := by
  cases failures <;> simp [resultOf]

/-! ## Both guards on one plan -/

/-- Whatever is entered in planned checks is at the position of one of them. -/
theorem exists_position_of_mem_visits {method : String} {plan : List Assignment} {visit : Visit}
    (h : visit ∈ (plan.map (Assignment.call method)).flatMap Call.visits) :
    ∃ a ∈ plan, visit.site.location.position = a.position := by
  obtain ⟨c, hc, hvisit⟩ := List.mem_flatMap.1 h
  obtain ⟨a, ha, rfl⟩ := List.mem_map.1 hc
  exact ⟨a, ha, Checker.position_of_mem_visits hvisit⟩

section Plan

variable (s : Signature) (hasSink : Bool) (args : List Value)

theorem Signature.pairwise_position_plan :
    ((s.plan args).map Assignment.position).Pairwise (· < ·) := by
  rw [s.plan_eq_aligned]
  exact pairwise_position_aligned s.checkers args

namespace StrictGuard

theorem outcome_ofSignature :
    (ofSignature s).outcome args =
      firstFailure ((s.plan args).map (Assignment.outcome s.method)) :=
  firstFailure_untilFailure _ _

/-- What a strict guard says is the first of what a logging guard says. -/
theorem failure?_outcome :
    ((ofSignature s).outcome args).failure? =
      ((LoggingGuard.ofSignature s hasSink).failures args).head? := by
  rw [outcome_ofSignature, failure?_firstFailure, List.filterMap_map,
    LoggingGuard.failures_ofSignature]
  rfl

theorem passes_outcome_iff :
    ((ofSignature s).outcome args).passes ↔
      (LoggingGuard.ofSignature s hasSink).failures args = [] := by
  rw [Outcome.passes_iff_failure?, failure?_outcome s hasSink, List.head?_eq_none_iff]

/-- The calls under a strict guard are the first of those under a logging guard. -/
theorem calls_isPrefix :
    (ofSignature s).calls args <+: ((LoggingGuard.ofSignature s hasSink).run args).calls := by
  rw [LoggingGuard.calls_ofSignature]
  exact untilFailure_isPrefix_map _ _

theorem calls_of_passes (h : ((ofSignature s).outcome args).passes) :
    (ofSignature s).calls args = (s.plan args).map (Assignment.call s.method) := by
  rw [outcome_ofSignature, firstFailure_passes, List.all_map, List.all_eq_true] at h
  exact untilFailure_eq_map h

/-- A strict guard that fails has made its calls up to the first check that fails. -/
theorem exists_split_of_fail {f : Failure} (h : (ofSignature s).outcome args = .fail f) :
    ∃ before a after, s.plan args = before ++ a :: after ∧
      (∀ b ∈ before, (b.outcome s.method).passes) ∧ a.outcome s.method = .fail f ∧
      (ofSignature s).calls args = (before ++ [a]).map (Assignment.call s.method) := by
  rw [outcome_ofSignature] at h
  obtain ⟨before, a, after, hplan, hbefore, ha⟩ := (firstFailure_map_eq_fail_iff _ _).1 h
  have hfails : (a.call s.method).passes = false := congrArg Outcome.passes ha
  have hcalls : (ofSignature s).calls args =
      untilFailure (Assignment.call s.method) (s.plan args) := rfl
  refine ⟨before, a, after, hplan, hbefore, ha, ?_⟩
  rw [hcalls, hplan]
  exact untilFailure_append_cons hbefore hfails after

/-- Nothing is entered at a later position up to some check, and nothing but later positions
behind it. -/
theorem position_of_split {before after : List Assignment} {a : Assignment}
    (hplan : s.plan args = before ++ a :: after) :
    (∀ visit ∈ ((before ++ [a]).map (Assignment.call s.method)).flatMap Call.visits,
      visit.site.location.position ≤ a.position) ∧
    ∀ visit ∈ (after.map (Assignment.call s.method)).flatMap Call.visits,
      a.position < visit.site.location.position := by
  have hpairwise := s.pairwise_position_plan args
  rw [hplan, List.pairwise_map, List.pairwise_append, List.pairwise_cons] at hpairwise
  obtain ⟨-, ⟨hlater, -⟩, hearlier⟩ := hpairwise
  refine ⟨fun visit hvisit => ?_, fun visit hvisit => ?_⟩
  · obtain ⟨b, hb, hposition⟩ := exists_position_of_mem_visits hvisit
    rw [hposition]
    rcases List.mem_append.1 hb with hb | hb
    · exact Nat.le_of_lt (hearlier b hb a List.mem_cons_self)
    · exact (List.mem_singleton.1 hb) ▸ Nat.le_refl _
  · obtain ⟨b, hb, hposition⟩ := exists_position_of_mem_visits hvisit
    exact hposition ▸ hlater b hb

end StrictGuard

end Plan

/-- A strict guard fails with the first failure that a logging guard answers with, and passes
if and only if there is none. What it enters is the beginning of what the logging guard enters,
up to and including the first check that fails : nothing for a later argument. -/
theorem StrictGuard.outcome_of_logging (s : Signature) (hasSink : Bool) (args : List Value) :
    let strict := ofSignature s
    let logging := LoggingGuard.ofSignature s hasSink
    (∀ f, strict.outcome args = .fail f ↔ (logging.failures args).head? = some f) ∧
    ((strict.outcome args).passes ↔ logging.failures args = []) ∧
    (∀ (α : Type) (x : α), (strict.outcome args).passes ↔
      Failure.resultOf (logging.failures args) x = .ok x) ∧
    ((strict.calls args).flatMap Call.visits <+:
      (logging.run args).calls.flatMap Call.visits) ∧
    ((strict.outcome args).passes → strict.calls args = (logging.run args).calls) ∧
    ∀ f, strict.outcome args = .fail f → ∃ before a after, s.plan args = before ++ a :: after ∧
      (∀ b ∈ before, (b.outcome s.method).passes) ∧ a.outcome s.method = .fail f ∧
      strict.calls args = (before ++ [a]).map (Assignment.call s.method) ∧
      (logging.run args).calls = strict.calls args ++ after.map (Assignment.call s.method) ∧
      (∀ visit ∈ (strict.calls args).flatMap Call.visits,
        visit.site.location.position ≤ a.position) ∧
      ∀ visit ∈ (after.map (Assignment.call s.method)).flatMap Call.visits,
        a.position < visit.site.location.position := by
  intro strict logging
  have hpasses := passes_outcome_iff s hasSink args
  refine ⟨fun f => ?_, hpasses, fun α x => ?_, ?_, fun h => ?_, fun f h => ?_⟩
  · rw [Outcome.eq_fail_iff_failure?, failure?_outcome s hasSink]
  · rw [hpasses, Failure.resultOf_eq_ok_iff]
  · obtain ⟨later, hlater⟩ := calls_isPrefix s hasSink args
    rw [← hlater, List.flatMap_append]
    exact List.prefix_append _ _
  · exact (calls_of_passes s args h).trans (LoggingGuard.calls_ofSignature s hasSink args).symm
  · obtain ⟨before, a, after, hplan, hbefore, ha, hcalls⟩ := exists_split_of_fail s args h
    obtain ⟨hearlier, hlater⟩ := position_of_split s args hplan
    refine ⟨before, a, after, hplan, hbefore, ha, hcalls, ?_, hcalls ▸ hearlier, hlater⟩
    rw [hcalls, LoggingGuard.calls_ofSignature, hplan, ← List.map_append, List.append_assoc]
    rfl

end CallGuard
