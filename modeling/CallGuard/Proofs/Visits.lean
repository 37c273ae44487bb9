import CallGuard.Proofs.Parts
import Mathlib.Logic.Relation

/-!
# Visits

What is entered in the course of a check, and from where. The visits of a call are its own,
and then those of the calls that it makes in turn (`Call.visits_mk`).

`Visit.Next` lists the ways from one visit to the next : a checker goes on to its other
entry, a modifier to the checker inside, and a checker of elements, of properties or of
alternatives to the one in question. Every visit in the course of a check is reached in this
way from where the check begins (`Checker.reaches_of_mem_visits`), custom checkers included,
whatever they answer. It is shown once for each of the ways in which behaviours are put
together. So what every step keeps holds of all visits, and nothing more has to be known
about calls : a check stays below the site where it begins, since steps lead down
(`Visit.Next.exists_descend`), and so with the same argument.
-/

namespace CallGuard

/-! ## The visits of a call -/

namespace Call

mutual

theorem map_snd_walk (above : List Slot) : (c : Call) →
    (c.walk above).map Prod.snd = c.visits
  | mk visit parts o => by
    rw [visits, walk, walk, List.map_cons, List.map_cons, map_snd_walkParts above parts,
      map_snd_walkParts [] parts]

theorem map_snd_walkParts (above : List Slot) : (parts : List (Slot × Call)) →
    (walkParts above parts).map Prod.snd = parts.flatMap fun part => part.2.visits
  | [] => rfl
  | (slot, c) :: parts => by
    rw [walkParts, List.map_append, map_snd_walk (above ++ [slot]) c,
      map_snd_walkParts above parts, List.flatMap_cons]

end

/-- The visits of a call are its own and those of the calls that it makes. -/
theorem visits_mk (visit : Visit) (parts : List (Slot × Call)) (o : Outcome) :
    (mk visit parts o).visits = visit :: parts.flatMap fun part => part.2.visits := by
  rw [visits, walk, List.map_cons, map_snd_walkParts]

end Call

/-! ## From one visit to the next -/

/-- A checker is entered in the course of another visit. -/
inductive Visit.Next : Visit → Visit → Prop
  /-- A plain checker leaves a value that is there to its other entry. -/
  | own {c : Checker} {v : Value} {s : Site} : c.isPlain → v.isNullish = false →
    Next ⟨c, .check, v, s⟩ ⟨c, .present, v, s⟩
  /-- A modifier leaves a value to the checker inside, by the same entry. -/
  | inner {c d : Checker} {entry : Entry} {v : Value} {s : Site} : c.isPlain = false →
    d ∈ c.children → Next ⟨c, entry, v, s⟩ ⟨d, entry, v, s⟩
  | element {c : Checker} {items : List Value} {item : Value} {i : Nat} {s : Site} :
    items[i]? = some item →
      Next ⟨.arrayOf c, .present, .array items, s⟩ ⟨c, .check, item, s.element i⟩
  | property {c : Checker} {class? : Option Class} {p : Properties Value} {key : String}
    {w : Value} {s : Site} : p.get? key = some w →
      Next ⟨.objectOf c, .present, .object class? p, s⟩ ⟨c, .check, w, s.property key⟩
  | field {fields : Properties Checker} {c : Checker} {class? : Option Class}
    {p : Properties Value} {key : String} {w : Value} {s : Site} : fields.get? key = some c →
      p.get? key = some w →
      Next ⟨.shape fields, .present, .object class? p, s⟩ ⟨c, .check, w, s.property key⟩
  | alternative {cs : List Checker} {c : Checker} {v : Value} {s : Site} : c ∈ cs →
    Next ⟨.oneOfType cs, .present, v, s⟩ ⟨c, .check, v, s⟩

namespace Visit

variable {u w : Visit}

/-- Steps lead down. -/
theorem Next.exists_descend (h : Next u w) : ∃ path, w.site = u.site.descend path := by
  cases h with
  | own | inner | alternative => exact ⟨[], rfl⟩
  | element => exact ⟨[.element _], rfl⟩
  | property | field => exact ⟨[.property _], rfl⟩

theorem exists_descend_of_reaches (h : Relation.ReflTransGen Next u w) :
    ∃ path, w.site = u.site.descend path := by
  induction h with
  | refl => exact ⟨[], rfl⟩
  | tail _ hnext ih =>
    obtain ⟨path, hpath⟩ := ih
    obtain ⟨path', hpath'⟩ := hnext.exists_descend
    exact ⟨path ++ path', by rw [hpath', hpath, Site.descend_append]⟩

end Visit

/-! ## Calls that go step by step -/

/-- Every visit of the call is reached from the first. -/
def Call.Stepwise (c : Call) : Prop :=
  ∀ visit ∈ c.visits, Relation.ReflTransGen Visit.Next c.visit visit

/-- Every call of the answer is made by a step from a visit, and goes on step by step. -/
def Answer.Stepwise (visit : Visit) (a : Answer) : Prop :=
  ∀ part ∈ a.parts, visit.Next part.2.visit ∧ part.2.Stepwise

theorem Call.Stepwise.mk {visit : Visit} {a : Answer} (h : a.Stepwise visit) (o : Outcome) :
    (Call.mk visit a.parts o).Stepwise := by
  intro w hw
  rw [visits_mk] at hw
  rcases List.mem_cons.1 hw with rfl | hw
  · exact .refl
  · obtain ⟨part, hpart, hw⟩ := List.mem_flatMap.1 hw
    obtain ⟨hnext, hpart⟩ := h part hpart
    exact .head hnext (hpart w hw)

theorem Answer.stepwise_alone (visit : Visit) (o : Outcome) : (alone o).Stepwise visit :=
  fun _ hpart => absurd hpart List.not_mem_nil

theorem Call.Stepwise.leaf (visit : Visit) (o : Outcome) : (Call.leaf visit o).Stepwise :=
  .mk (Answer.stepwise_alone visit o) o

theorem Call.Stepwise.through {visit : Visit} {c : Call} (hnext : visit.Next c.visit)
    (hc : c.Stepwise) (slot : Slot) : (Call.through visit slot c).Stepwise :=
  .mk (a := ⟨[(slot, c)], c.outcome⟩) (fun _ hpart => List.mem_singleton.1 hpart ▸ ⟨hnext, hc⟩) _

/-- Stopping at the first pass makes the first calls of those without stopping. -/
theorem untilPass_isPrefix_map {α : Type} (call : α → Call) (as : List α) :
    untilPass call as <+: as.map call := by
  induction as with
  | nil => exact List.prefix_refl _
  | cons a rest ih =>
    rw [untilPass, List.map_cons]
    split
    · exact List.cons_prefix_cons.2 ⟨rfl, List.nil_prefix⟩
    · exact List.cons_prefix_cons.2 ⟨rfl, ih⟩

/-! ## Behaviours that go step by step -/

/-- At either entry, the behaviour begins with a visit of the checker and goes step by step. -/
structure Behaviour.Stepwise (c : Checker) (b : Behaviour) : Prop where
  visit_check : ∀ v s, (b.check v s).visit = ⟨c, .check, v, s⟩
  visit_present : ∀ v s, (b.present v s).visit = ⟨c, .present, v, s⟩
  check : ∀ v s, (b.check v s).Stepwise
  present : ∀ v s, (b.present v s).Stepwise

namespace Behaviour

variable {c d : Checker} {b : Behaviour}

theorem Stepwise.plain (hc : c.isPlain) {answer : Value → Site → Answer}
    (h : ∀ v s, (answer v s).Stepwise ⟨c, .present, v, s⟩) :
    (Behaviour.plain c answer).Stepwise c := by
  have hpresent : ∀ v s, ((Behaviour.plain c answer).present v s).Stepwise :=
    fun v s => .mk (h v s) _
  refine ⟨fun v s => ?_, fun v s => rfl, fun v s => ?_, hpresent⟩
  · unfold Behaviour.plain
    dsimp only
    split <;> rfl
  · cases hv : v.isNullish with
    | true =>
      simp only [Behaviour.plain, hv]
      exact .leaf _ _
    | false =>
      simp only [Behaviour.plain, hv]
      exact .through (.own hc hv) (hpresent v s) _

theorem Stepwise.modifier (hc : c.isPlain = false) (hd : d ∈ c.children) (h : b.Stepwise d)
    (missing? : Option (Site → Outcome)) :
    (Behaviour.modifier c missing? b).Stepwise c := by
  refine ⟨fun v s => ?_, fun v s => rfl, fun v s => ?_, fun v s => ?_⟩
  · unfold Behaviour.modifier
    dsimp only
    split <;> rfl
  · unfold Behaviour.modifier
    dsimp only
    split
    · exact .leaf _ _
    · exact .through (h.visit_check v s ▸ .inner hc hd) (h.check v s) _
  · exact .through (h.visit_present v s ▸ .inner hc hd) (h.present v s) _

theorem stepwise_custom (answers : Custom) : (custom answers).Stepwise (.custom answers) := by
  obtain ⟨label, present, check?, isRest⟩ := answers
  cases check? with
  | none => exact .plain rfl fun v s => Answer.stepwise_alone _ _
  | some answer =>
    exact ⟨fun v s => rfl, fun v s => rfl, fun v s => .leaf _ _,
      fun v s => .mk (Answer.stepwise_alone _ _) _⟩

theorem stepwise_elements (h : b.Stepwise c) (items : List Value) (s : Site) :
    (b.elements items s).Stepwise ⟨.arrayOf c, .present, .array items, s⟩ := by
  intro part hpart
  obtain ⟨call, hcall, rfl⟩ := List.mem_map.1 hpart
  obtain ⟨⟨item, i⟩, hitem, rfl⟩ := List.mem_map.1 ((untilFailure_isPrefix_map _ _).subset hcall)
  refine ⟨?_, h.check _ _⟩
  rw [h.visit_check]
  exact .element (List.mk_mem_zipIdx_iff_getElem?.1 hitem)

theorem stepwise_properties (h : b.Stepwise c) (class? : Option Class) (p : Properties Value)
    (s : Site) :
    (b.properties p.toList s).Stepwise ⟨.objectOf c, .present, .object class? p, s⟩ := by
  intro part hpart
  obtain ⟨call, hcall, rfl⟩ := List.mem_map.1 hpart
  obtain ⟨⟨key, w⟩, hw, rfl⟩ := List.mem_map.1 ((untilFailure_isPrefix_map _ _).subset hcall)
  refine ⟨?_, h.check _ _⟩
  rw [h.visit_check]
  exact .property (p.mem_toList_iff.1 hw)

theorem stepwise_fields {fields : Properties Checker}
    (h : ∀ field ∈ fields.toList, field.2.behaviour.Stepwise field.2) (class? : Option Class)
    (p : Properties Value) (s : Site) :
    (Behaviour.fields (fields.toList.map fun field => (field.1, field.2.behaviour)) p.toList
      s).Stepwise ⟨.shape fields, .present, .object class? p, s⟩ := by
  intro part hpart
  obtain ⟨⟨b, call⟩, hcall, rfl⟩ := List.mem_map.1 hpart
  have hmem := (untilFailure_isPrefix_map _ _).subset (List.of_mem_zip hcall).2
  rw [bound_map, List.map_map] at hmem
  obtain ⟨⟨key, w, c⟩, hbound, rfl⟩ := List.mem_map.1 hmem
  obtain ⟨hw, hc⟩ := Checker.mem_bound_iff.1 hbound
  have hinner := h (key, c) (fields.mem_toList_iff.2 hc)
  exact ⟨hinner.visit_check w _ ▸ .field hc (p.mem_toList_iff.1 hw), hinner.check w _⟩

theorem stepwise_alternatives {cs : List Checker} (h : ∀ c ∈ cs, c.behaviour.Stepwise c)
    (v : Value) (s : Site) :
    (alternatives (cs.map Checker.behaviour) v s).Stepwise ⟨.oneOfType cs, .present, v, s⟩ := by
  intro part hpart
  obtain ⟨call, hcall, rfl⟩ := List.mem_map.1 hpart
  have hmem := (untilPass_isPrefix_map _ _).subset (List.fst_mem_of_mem_zipIdx hcall)
  rw [List.map_map] at hmem
  obtain ⟨c, hc, hcall⟩ := List.mem_map.1 hmem
  rw [← hcall]
  exact ⟨(h c hc).visit_check v s ▸ .alternative hc, (h c hc).check v s⟩

end Behaviour

/-! ## Checks -/

namespace Checker

/-- Whatever a checker is, it goes step by step. -/
theorem stepwise_behaviour (c : Checker) : c.behaviour.Stepwise c := by
  induction c using induct_children with
  | step c ih =>
    cases c with
    | kindOf _ | any | instanceOf _ | oneOf _ =>
      exact .plain rfl fun v s => Answer.stepwise_alone _ _
    | arrayOf c =>
      refine .plain rfl fun v s => ?_
      split
      · exact Behaviour.stepwise_elements (ih c List.mem_cons_self) _ s
      · exact Answer.stepwise_alone _ _
    | objectOf c =>
      refine .plain rfl fun v s => ?_
      split
      · exact Behaviour.stepwise_properties (ih c List.mem_cons_self) _ _ s
      · exact Answer.stepwise_alone _ _
    | shape fields =>
      obtain ⟨entries, nodup⟩ := fields
      refine .plain rfl fun v s => ?_
      split
      · rw [toList_fieldBehaviours entries nodup]
        exact Behaviour.stepwise_fields (fun field hf => ih _ (List.mem_map_of_mem hf)) _ _ s
      · exact Answer.stepwise_alone _ _
    | oneOfType alternatives =>
      refine .plain rfl fun v s => ?_
      rw [behaviours_eq_map]
      exact Behaviour.stepwise_alternatives ih v s
    | required c | nullable c | rest c =>
      exact .modifier rfl List.mem_cons_self (ih c List.mem_cons_self) _
    | custom answers => exact Behaviour.stepwise_custom answers

/-- A check begins where the checker is entered. -/
theorem visit_checkCall (c : Checker) (v : Value) (s : Site) :
    (c.checkCall v s).visit = ⟨c, .check, v, s⟩ :=
  c.stepwise_behaviour.visit_check v s

/-- Every visit in a check is reached from where it begins. -/
theorem reaches_of_mem_visits {c : Checker} {v : Value} {s : Site} {visit : Visit}
    (h : visit ∈ (c.checkCall v s).visits) :
    Relation.ReflTransGen Visit.Next ⟨c, .check, v, s⟩ visit :=
  c.visit_checkCall v s ▸ c.stepwise_behaviour.check v s visit h

/-- A check does not leave the argument that it begins with. -/
theorem position_of_mem_visits {c : Checker} {v : Value} {s : Site} {visit : Visit}
    (h : visit ∈ (c.checkCall v s).visits) :
    visit.site.location.position = s.location.position := by
  obtain ⟨path, hpath⟩ := Visit.exists_descend_of_reaches (reaches_of_mem_visits h)
  rw [hpath, Site.position_descend]

end Checker

end CallGuard
