import CallGuard.Proofs.Policies

/-!
# Reports of logging guards

A failure under a logging guard comes out in three places : as a warning, at the sink if there is
one, and in the answer to the call. `runPlan` puts each of them together on its own, between the
checks. They are one and the same list, that of the failing checks of the plan in order
(`events_runPlan`, `handed_runPlan`).

They are also there in time. What has happened where a check begins is the run of the checks
before it (`exists_split_of_moments`). So everything that failed before it has been told and handed
on, and nothing else has, and since positions increase along a plan that covers all earlier
arguments (`LoggingGuard.reports_before_check`).

A `Session` is what happens in calls one after another. A guard keeps nothing from one to the next,
so every call adds to the session what happens in it alone (`LoggingGuard.session_append`).
`LoggingGuard.channels_of_session` puts this together.
-/

namespace CallGuard

/-! ## Three lists of failures -/

theorem failure?_report (hasSink : Bool) (o : Outcome) :
    (report hasSink o).filterMap Moment.event? = o.failure?.toList.map Event.ofFailure ∧
    (report hasSink o).filterMap Moment.handed? = if hasSink then o.failure?.toList else [] := by
  cases o <;> cases hasSink <;> exact ⟨rfl, rfl⟩

section Plan

variable (hasSink : Bool) (method : String) (plan : List Assignment)

/-- The warnings are those about the failures of the answer. -/
theorem events_runPlan :
    (runPlan hasSink method plan).events =
      (runPlan hasSink method plan).failures.map Event.ofFailure := by
  induction plan with
  | nil => rfl
  | cons a plan ih =>
    rw [Run.events, runPlan, List.filterMap_cons_none rfl, List.filterMap_append,
      (failure?_report hasSink _).1, List.map_append, ← ih]
    rfl

/-- A sink gets the failures of the answer. -/
theorem handed_runPlan :
    (runPlan hasSink method plan).handed =
      if hasSink then (runPlan hasSink method plan).failures else [] := by
  induction plan with
  | nil => cases hasSink <;> rfl
  | cons a plan ih =>
    rw [Run.handed] at ih ⊢
    rw [runPlan, List.filterMap_cons_none rfl, List.filterMap_append,
      (failure?_report hasSink _).2, ih]
    cases hasSink <;> rfl

end Plan

/-! ## Failures in time -/

/-- Reports are no checks, so that what begins with them and goes up to a check holds them all. -/
theorem exists_append_of_report {hasSink : Bool} {o : Outcome} {rest earlier later : List Moment}
    {c : Call} (h : report hasSink o ++ rest = earlier ++ .checked c :: later) :
    ∃ between, earlier = report hasSink o ++ between ∧ rest = between ++ .checked c :: later := by
  rcases List.append_eq_append_iff.1 h with ⟨between, hearlier, hrest⟩ | ⟨tail, hreport, htail⟩
  · exact ⟨between, hearlier, hrest⟩
  · cases tail with
    | nil => exact ⟨[], by simpa using hreport.symm, by simpa using htail.symm⟩
    | cons m tail =>
      obtain ⟨rfl, -⟩ := List.cons.inj htail
      have hmem : Moment.checked c ∈ report hasSink o := by simp [hreport]
      cases o <;> cases hasSink <;> simp [report] at hmem

/-- Where a check of a plan begins, what has happened is the run of the checks before it, reports
and all. -/
theorem exists_split_of_moments {hasSink : Bool} {method : String} {plan : List Assignment}
    {earlier later : List Moment} {c : Call}
    (h : (runPlan hasSink method plan).moments = earlier ++ .checked c :: later) :
    ∃ before a after, plan = before ++ a :: after ∧ c = a.call method ∧
      earlier = (runPlan hasSink method before).moments := by
  induction plan generalizing earlier with
  | nil => simp [runPlan] at h
  | cons b plan ih =>
    cases earlier with
    | nil =>
      obtain ⟨hcall, -⟩ := List.cons.inj h
      exact ⟨[], b, plan, rfl, (Moment.checked.inj hcall).symm, rfl⟩
    | cons m earlier =>
      obtain ⟨rfl, htail⟩ := List.cons.inj h
      obtain ⟨between, rfl, hrest⟩ := exists_append_of_report htail
      obtain ⟨before, a, after, rfl, hc, rfl⟩ := ih hrest
      exact ⟨b :: before, a, after, rfl, hc, rfl⟩

/-- The failures of the checks among some moments. -/
def failuresFound (moments : List Moment) : List Failure :=
  (moments.filterMap Moment.call?).filterMap fun c => c.outcome.failure?

theorem failuresFound_moments (hasSink : Bool) (method : String) (plan : List Assignment) :
    failuresFound (runPlan hasSink method plan).moments =
      (runPlan hasSink method plan).failures := by
  have hcalls : (runPlan hasSink method plan).moments.filterMap Moment.call? = _ :=
    calls_runPlan hasSink method plan
  rw [failuresFound, hcalls, failures_runPlan, List.filterMap_map]
  rfl

namespace LoggingGuard

variable (s : Signature) (hasSink : Bool)

/-- All failures before a check are out when it begins, and the check is at a later position than
the checks before it. -/
theorem reports_before_check {args : List Value} {earlier later : List Moment} {c : Call}
    (h : ((ofSignature s hasSink).run args).moments = earlier ++ .checked c :: later) :
    earlier.filterMap Moment.event? = (failuresFound earlier).map Event.ofFailure ∧
    earlier.filterMap Moment.handed? = (if hasSink then failuresFound earlier else []) ∧
    ∀ b ∈ earlier.filterMap Moment.call?, ∀ u ∈ b.visits, ∀ w ∈ c.visits,
      u.site.location.position < w.site.location.position := by
  obtain ⟨before, a, after, hplan, rfl, rfl⟩ := exists_split_of_moments h
  rw [failuresFound_moments]
  refine ⟨events_runPlan _ _ _, handed_runPlan _ _ _, fun b hb u hu w hw => ?_⟩
  have hpairwise := s.pairwise_position_plan args
  rw [hplan, List.pairwise_map, List.pairwise_append] at hpairwise
  have hcalls : b ∈ before.map (Assignment.call s.method) :=
    calls_runPlan hasSink s.method before ▸ hb
  obtain ⟨b, hmem, rfl⟩ := List.mem_map.1 hcalls
  rw [Checker.position_of_mem_visits hu, Checker.position_of_mem_visits hw]
  exact hpairwise.2.2 b hmem a List.mem_cons_self

end LoggingGuard

/-! ## Calls one after another -/

/-- What happens in calls one after another. -/
structure Session where
  /-- The checks and the reports of all calls, in order. -/
  moments : List Moment
  /-- The answers, one for each call. -/
  answers : List (List Failure)

namespace Session

/-- Nothing has been called. -/
def empty : Session := ⟨[], []⟩

/-- What happens in some calls, and then in others. -/
def append (before after : Session) : Session :=
  ⟨before.moments ++ after.moments, before.answers ++ after.answers⟩

end Session

namespace LoggingGuard

/-- The next call of a session. -/
def serve (g : LoggingGuard) (session : Session) (args : List Value) : Session :=
  let r := g.run args
  ⟨session.moments ++ r.moments, session.answers ++ [r.failures]⟩

/-- The session of calls with given arguments. -/
def session (g : LoggingGuard) (calls : List (List Value)) : Session := calls.foldl g.serve .empty

variable (g : LoggingGuard)

theorem foldl_serve (session : Session) (calls : List (List Value)) :
    calls.foldl g.serve session = session.append (g.session calls) := by
  induction calls generalizing session with
  | nil => simp [LoggingGuard.session, Session.append, Session.empty]
  | cons args calls ih =>
    have hwhole : g.session (args :: calls) = (g.serve .empty args).append (g.session calls) :=
      ih _
    rw [List.foldl_cons, ih, hwhole]
    simp [serve, Session.append, Session.empty]

/-- Calls are served alike, whatever was served before. -/
theorem session_append (before after : List (List Value)) :
    g.session (before ++ after) = (g.session before).append (g.session after) := by
  rw [LoggingGuard.session, List.foldl_append, foldl_serve]
  rfl

theorem session_cons (args : List Value) (after : List (List Value)) :
    g.session (args :: after) =
      Session.append ⟨(g.run args).moments, [g.failures args]⟩ (g.session after) :=
  g.foldl_serve _ after

theorem answers_session (calls : List (List Value)) :
    (g.session calls).answers = calls.map g.failures := by
  induction calls with
  | nil => rfl
  | cons args calls ih =>
    rw [session_cons, Session.append, ih]
    rfl

/-- The failures of a call under a logging guard, with a sink or without, are those of the aligned
checks that fail, in order, each found by one check. They are told as warnings and handed to the
sink in this order, one for each and no others. When a check begins, the failures of the checks
before it are out on both ways, and what it enters is at a later position than what they have
entered. In a session, what happens in a call and its answer are those of the call alone, whatever
is called before or after. -/
theorem channels_of_session (s : Signature) (hasSink : Bool) :
    let g := ofSignature s hasSink
    (∀ args, let r := g.run args
      r.calls = (aligned s.checkers args).map (Assignment.call s.method) ∧
      r.failures = (aligned s.checkers args).filterMap (fun a => (a.outcome s.method).failure?) ∧
      r.events = r.failures.map Event.ofFailure ∧
      r.handed = (if hasSink then r.failures else []) ∧
      ∀ earlier c later, r.moments = earlier ++ .checked c :: later →
        earlier.filterMap Moment.event? = (failuresFound earlier).map Event.ofFailure ∧
        earlier.filterMap Moment.handed? = (if hasSink then failuresFound earlier else []) ∧
        ∀ b ∈ earlier.filterMap Moment.call?, ∀ u ∈ b.visits, ∀ w ∈ c.visits,
          u.site.location.position < w.site.location.position) ∧
    (∀ f, (Event.ofFailure f).level = .warn ∧
      (Event.ofFailure f).fields = [("code", f.code), ("location", f.location),
        ("message", f.message), ("method", f.method)]) ∧
    ∀ before args after,
      (g.session (before ++ args :: after)).moments =
        (g.session before).moments ++ (g.run args).moments ++ (g.session after).moments ∧
      (g.session (before ++ args :: after)).answers =
        before.map g.failures ++ (g.run args).failures :: after.map g.failures := by
  intro g
  refine ⟨fun args => ?_, fun f => ⟨rfl, rfl⟩, fun before args after => ⟨?_, ?_⟩⟩
  · have hcalls := calls_ofSignature s hasSink args
    have hfailures := failures_ofSignature s hasSink args
    rw [s.plan_eq_aligned] at hcalls hfailures
    exact ⟨hcalls, hfailures, events_runPlan _ _ _, handed_runPlan _ _ _,
      fun earlier c later => reports_before_check s hasSink⟩
  · rw [session_append, session_cons]
    simp [Session.append]
  · rw [answers_session, List.map_append, List.map_cons]
    rfl

/-- Two calls with one guard : an argument fails at its property, a check of a later argument
follows, and the next call has failures of its own. -/
theorem channels_of_session_of_two_calls :
    let checkers := [.ofFields [("age", .kindOf .number)], .rest (.required (.kindOf .string))]
    let person := Value.object none (.ofList [("age", .string "x")])
    ∃ s, Signature.new? "save" checkers = .ok s ∧
      let g := ofSignature s true
      let r := g.run [person, .string "a", .null]
      r.handed.map Failure.location = ["property age of 0th", "2nd"] ∧
      r.events = r.handed.map Event.ofFailure ∧
      (g.session [[person, .string "a", .null], [], [person]]).answers.map List.length =
        [2, 0, 1] := by
  intro checkers person
  obtain ⟨s, hs⟩ : ∃ s, Signature.new? "save" checkers = .ok s := ⟨_, rfl⟩
  obtain ⟨hcall, -, hsession⟩ := channels_of_session s true
  obtain ⟨-, -, hevents, hhanded, -⟩ := hcall [person, .string "a", .null]
  obtain ⟨-, hanswers⟩ := hsession [[person, .string "a", .null]] [] [[person]]
  refine ⟨s, hs, ?_, hevents.trans (congrArg _ hhanded.symm), ?_⟩
  · cases hs
    decide
  · refine (congrArg (List.map List.length) hanswers).trans ?_
    cases hs
    decide

end LoggingGuard

end CallGuard
