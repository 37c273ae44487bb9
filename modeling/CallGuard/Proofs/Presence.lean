import CallGuard.Checker.Probe
import CallGuard.Guard.Logging
import CallGuard.Guard.Strict
import CallGuard.Proofs.Visits

/-!
# Missing values

`Entry.present` is for values that are there, and what a checker does at it may rely on
that. The types do not ask for it, and modifiers pass on whatever they are entered with.

It holds nevertheless of all that begins with `Entry.check`
(`present_visits_have_values`), for missing arguments and for holes at any depth. The only
step from one entry to the other is that of a plain checker with a value that is there, and
no other step changes both the entry and the value (`Visit.Next.proper`). Custom checkers
may stand anywhere, since nothing is asked of their answers.
-/

namespace CallGuard

/-- The entry for values that are there is not used for a missing one. -/
def Visit.Proper (visit : Visit) : Prop := visit.entry = .present → visit.value.isNullish = false

theorem Visit.Next.proper {u w : Visit} (h : u.Next w) (hu : u.Proper) : w.Proper := by
  cases h with
  | own _ hthere => exact fun _ => hthere
  | inner => exact hu
  | element | property | field | alternative => exact fun hentry => nomatch hentry

theorem Visit.proper_of_reaches {u w : Visit} (h : Relation.ReflTransGen Next u w)
    (hu : u.Proper) : w.Proper := by
  induction h with
  | refl => exact hu
  | tail _ hnext ih => exact hnext.proper ih

/-- A check of any value is proper throughout. -/
theorem Checker.proper_of_mem_visits {c : Checker} {v : Value} {s : Site} {visit : Visit}
    (h : visit ∈ (c.checkCall v s).visits) : visit.Proper :=
  Visit.proper_of_reaches (reaches_of_mem_visits h) fun hentry => nomatch hentry

theorem Assignment.proper_of_mem_visits {method : String} {plan : List Assignment} {call : Call}
    (hcall : call ∈ plan.map (Assignment.call method)) {visit : Visit}
    (h : visit ∈ call.visits) : visit.Proper := by
  obtain ⟨a, -, rfl⟩ := List.mem_map.1 hcall
  exact Checker.proper_of_mem_visits h

/-- No checker is entered for values that are there with a missing one : not in the course of a
check of any value at any site, and not in a call with any arguments under a strict or a logging
guard. -/
theorem present_visits_have_values :
    (∀ (c : Checker) (v : Value) (s : Site), ∀ visit ∈ (c.checkCall v s).visits,
      visit.entry = .present → visit.value.isNullish = false) ∧
    (∀ (g : StrictGuard) (args : List Value), ∀ call ∈ g.calls args, ∀ visit ∈ call.visits,
      visit.entry = .present → visit.value.isNullish = false) ∧
    ∀ (g : LoggingGuard) (args : List Value), ∀ call ∈ (g.run args).calls,
      ∀ visit ∈ call.visits, visit.entry = .present → visit.value.isNullish = false := by
  refine ⟨fun c v s visit => Checker.proper_of_mem_visits, ?_, ?_⟩
  · rintro ⟨_ | s⟩ args call hcall visit
    · cases hcall
    · exact Assignment.proper_of_mem_visits ((untilFailure_isPrefix_map _ _).subset hcall)
  · rintro ⟨_ | s, hasSink⟩ args call hcall visit
    · cases hcall
    · exact Assignment.proper_of_mem_visits (calls_runPlan hasSink _ _ ▸ hcall)

/-- Among two holes, a missing property value and a missing argument, a custom checker answers to
the one value that is there. -/
theorem present_visit_among_holes :
    let probe := Checker.custom (.presentProbe "p" false)
    let fields := Checker.ofFields
      [("a", .arrayOf (.nullable probe)), ("b", .oneOfType [.rest probe, .any])]
    let v := Value.object none
      (.ofList [("a", .array [.null, .string "x", .undefined]), ("b", .undefined)])
    ∃ s, Signature.new? "save" [fields, .required probe] = .ok s ∧
      let run := (LoggingGuard.ofSignature s false).run [v]
      (run.calls.flatMap Call.traces).map (fun t => (t.entry, t.site.location.text)) =
        [(.present, "1st element of property a of 0th")] ∧
      ∀ call ∈ run.calls, ∀ visit ∈ call.visits,
        visit.entry = .present → visit.value.isNullish = false := by
  intro probe fields v
  obtain ⟨s, hs⟩ : ∃ s, Signature.new? "save" [fields, .required probe] = .ok s := ⟨_, rfl⟩
  refine ⟨s, hs, ?_, present_visits_have_values.2.2 _ _⟩
  cases hs
  decide

end CallGuard
