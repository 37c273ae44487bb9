import CallGuard.Proofs.Visits

/-!
# What is due in a visit

`Visit.agenda` lists the visits that are due in the course of another : the elements of an array
by index, the properties of an object in its order, of those only the ones that have a checker if
it is a shape that asks, and the alternatives of a union in the order of the list. A visit makes
the calls that are due up to the one that settles it, which is the first to fail or the first
alternative to pass (`Visit.parts_call`).

This is shown once for each of the ways in which behaviours are put together, along with what it
means for the end of the call (`Answer.Follows`) : a call that fails has the visit fail with the
same failure unless it is one of an alternative, and an alternative that passes has it pass. So
all that is known about the calls of a visit is read off its agenda, whatever the checker.
-/

namespace CallGuard

/-! ## Up to the first -/

section UpTo

variable {α β : Type}

/-- A list up to and including the first with a property. -/
def upTo (p : α → Bool) (l : List α) : List α := l.take (l.findIdx p + 1)

theorem upTo_cons (p : α → Bool) (a : α) (l : List α) :
    upTo p (a :: l) = if p a then [a] else a :: upTo p l := by
  cases h : p a <;> simp [upTo, List.findIdx_cons, h]

theorem upTo_isPrefix (p : α → Bool) (l : List α) : upTo p l <+: l := List.take_prefix _ _

theorem map_upTo {p : α → Bool} {q : β → Bool} {f : α → β} (h : ∀ a, q (f a) = p a) (l : List α) :
    (upTo p l).map f = upTo q (l.map f) := by
  induction l with
  | nil => rfl
  | cons a l ih =>
    rw [upTo_cons, List.map_cons, upTo_cons, h]
    cases p a <;> simp [ih]

/-- One with the property comes last, behind others without it. -/
theorem upTo_eq_append_singleton {p : α → Bool} {l : List α} {a : α} (h : a ∈ upTo p l)
    (ha : p a) : ∃ before, upTo p l = before ++ [a] ∧ ∀ b ∈ before, p b = false := by
  induction l with
  | nil => cases h
  | cons b l ih =>
    rw [upTo_cons] at h ⊢
    cases hb : p b with
    | true =>
      rw [hb, if_pos rfl, List.mem_singleton] at h
      exact ⟨[], by rw [h]; rfl, by simp⟩
    | false =>
      rw [hb, if_neg Bool.false_ne_true] at h
      rcases List.mem_cons.1 h with rfl | h
      · rw [hb] at ha
        cases ha
      · obtain ⟨before, hbefore, hnone⟩ := ih h
        refine ⟨b :: before, ?_, List.forall_mem_cons.2 ⟨hb, hnone⟩⟩
        rw [if_neg Bool.false_ne_true, hbefore, List.cons_append]

theorem zipIdx_upTo (p : α → Bool) (l : List α) (n : Nat) :
    (upTo p l).zipIdx n = upTo (fun x => p x.1) (l.zipIdx n) := by
  induction l generalizing n with
  | nil => rfl
  | cons a l ih =>
    rw [upTo_cons, List.zipIdx_cons, upTo_cons]
    cases p a <;> simp [List.zipIdx_cons, ih]

theorem zip_upTo_map (p : β → Bool) (f : α → β) (l : List α) :
    l.zip (upTo p (l.map f)) = upTo (fun x => p x.2) (l.map fun a => (a, f a)) := by
  induction l with
  | nil => rfl
  | cons a l ih =>
    rw [List.map_cons, upTo_cons, List.map_cons, upTo_cons]
    cases p (f a) <;> simp [ih]

theorem untilFailure_eq_upTo (call : α → Call) (as : List α) :
    untilFailure call as = upTo (fun c => !c.passes) (as.map call) := by
  induction as with
  | nil => rfl
  | cons a as ih =>
    rw [untilFailure, List.map_cons, upTo_cons, ih]
    cases (call a).passes <;> simp

theorem untilPass_eq_upTo (call : α → Call) (as : List α) :
    untilPass call as = upTo Call.passes (as.map call) := by
  induction as with
  | nil => rfl
  | cons a as ih =>
    rw [untilPass, List.map_cons, upTo_cons, ih]

end UpTo

/-! ## What is due -/

/-- Whether a slot is an alternative of a union. -/
def Slot.isAlternative : Slot → Bool
  | alternative _ => true
  | _ => false

namespace Checker

/-- The visits that are due when a checker is entered with any value, and the parts that they
go to. -/
def dueAtCheck (c : Checker) (v : Value) (s : Site) : List (Slot × Visit) :=
  match c with
  | required d | nullable d => if v.isNullish then [] else [(.inner, ⟨d, .check, v, s⟩)]
  | rest d => [(.inner, ⟨d, .check, v, s⟩)]
  -- What is neither plain nor a modifier answers by itself.
  | c => if c.isPlain = false ∨ v.isNullish then [] else [(.own, ⟨c, .present, v, s⟩)]

/-- The visits that are due when a checker is entered with a value that is there. -/
def dueAtPresent (c : Checker) (v : Value) (s : Site) : List (Slot × Visit) :=
  match c with
  | required d | nullable d | rest d => [(.inner, ⟨d, .present, v, s⟩)]
  | arrayOf d =>
    match v with
    | .array items => items.zipIdx.map fun item =>
      (.element, ⟨d, .check, item.1, s.element item.2⟩)
    | _ => []
  | objectOf d =>
    match v with
    | .object _ p => p.toList.map fun pair =>
      (.property, ⟨d, .check, pair.2, s.property pair.1⟩)
    | _ => []
  | shape fields =>
    match v with
    | .object _ p => p.toList.filterMap fun pair => (fields.get? pair.1).map fun d =>
      (.field pair.1, ⟨d, .check, pair.2, s.property pair.1⟩)
    | _ => []
  | oneOfType cs => cs.zipIdx.map fun c => (.alternative c.2, ⟨c.1, .check, v, s⟩)
  | kindOf _ | any | instanceOf _ | oneOf _ | custom _ => []

end Checker

namespace Visit

/-- The visits that are due in the course of another, in order, and the parts that they go to. -/
def agenda (w : Visit) : List (Slot × Visit) :=
  match w.entry with
  | .check => w.checker.dueAtCheck w.value w.site
  | .present => w.checker.dueAtPresent w.value w.site

/-- The call of a visit. -/
def call (w : Visit) : Call :=
  match w.entry with
  | .check => w.checker.checkCall w.value w.site
  | .present => w.checker.presentCall w.value w.site

/-- The calls that are due in the course of a visit. -/
def due (w : Visit) : List (Slot × Call) := w.agenda.map fun x => (x.1, x.2.call)

@[simp] theorem visit_call (w : Visit) : w.call.visit = w := by
  obtain ⟨c, entry, v, s⟩ := w
  cases entry with
  | check => exact c.stepwise_behaviour.visit_check v s
  | present => exact c.stepwise_behaviour.visit_present v s

end Visit

/-- A call after which no other is made : one that fails, or one of an alternative that passes. -/
def settles (part : Slot × Call) : Bool := part.2.passes == part.1.isAlternative

/-- An answer makes the calls that are due up to the one that settles it. -/
structure Answer.Follows (due : List (Slot × Call)) (a : Answer) : Prop where
  parts_eq : a.parts = upTo settles due
  outcome_of_fail : ∀ part ∈ a.parts, part.1.isAlternative = false → ∀ f,
    part.2.outcome = .fail f → a.outcome = .fail f
  passes_of_pass : ∀ part ∈ a.parts, part.1.isAlternative → part.2.passes → a.outcome.passes

namespace Answer

theorem follows_alone (o : Outcome) : (alone o).Follows [] where
  parts_eq := rfl
  outcome_of_fail := fun _ hpart => absurd hpart List.not_mem_nil
  passes_of_pass := fun _ hpart => absurd hpart List.not_mem_nil

theorem follows_single {slot : Slot} (h : slot.isAlternative = false) (c : Call) :
    Follows [(slot, c)] ⟨[(slot, c)], c.outcome⟩ where
  parts_eq := by rw [upTo_cons]; exact (ite_self _).symm
  outcome_of_fail := fun part hpart _ f hf => by
    obtain rfl := List.mem_singleton.1 hpart
    exact hf
  passes_of_pass := fun part hpart halt => by
    obtain rfl := List.mem_singleton.1 hpart
    rw [h] at halt
    cases halt

/-- Calls that are made until one fails end in a failure that is among them. -/
theorem firstFailure_of_mem {α : Type} {call : α → Call} {as : List α} {c : Call} {f : Failure}
    (hc : c ∈ untilFailure call as) (hf : c.outcome = .fail f) :
    firstFailure ((untilFailure call as).map Call.outcome) = .fail f := by
  rw [untilFailure_eq_upTo] at hc ⊢
  obtain ⟨before, hsplit, hbefore⟩ :=
    upTo_eq_append_singleton hc (by rw [Call.passes, hf]; rfl)
  rw [hsplit]
  exact (firstFailure_map_eq_fail_iff _ _).2
    ⟨before, c, [], rfl, fun b hb => by simpa [Call.passes] using hbefore b hb, hf⟩

/-- Calls that are made until one fails, none of an alternative. -/
theorem follows_untilFailure {α : Type} {call : α → Call} {as : List α}
    {parts due : List (Slot × Call)} (hdue : parts = upTo settles due)
    (hcalls : ∀ part ∈ parts, part.2 ∈ untilFailure call as)
    (hslots : ∀ part ∈ parts, part.1.isAlternative = false) :
    Follows due ⟨parts, firstFailure ((untilFailure call as).map Call.outcome)⟩ where
  parts_eq := hdue
  outcome_of_fail := fun part hpart _ _ hf => firstFailure_of_mem (hcalls part hpart) hf
  passes_of_pass := fun part hpart halt => by
    rw [hslots part hpart] at halt
    cases halt

end Answer

namespace Behaviour

theorem settles_of_sequence {slot : Slot} (h : slot.isAlternative = false) (c : Call) :
    settles (slot, c) = !c.passes := by
  simp [settles, h]

theorem follows_elements (b : Behaviour) (items : List Value) (s : Site) :
    (b.elements items s).Follows
      (items.zipIdx.map fun item => (.element, b.check item.1 (s.element item.2))) := by
  refine Answer.follows_untilFailure ?_ ?_ ?_
  · rw [untilFailure_eq_upTo, map_upTo (settles_of_sequence rfl), List.map_map]
    rfl
  · simp
  · simp [Slot.isAlternative]

theorem follows_properties (b : Behaviour) (pairs : List (String × Value)) (s : Site) :
    (b.properties pairs s).Follows
      (pairs.map fun pair => (.property, b.check pair.2 (s.property pair.1))) := by
  refine Answer.follows_untilFailure ?_ ?_ ?_
  · rw [untilFailure_eq_upTo, map_upTo (settles_of_sequence rfl), List.map_map]
    rfl
  · simp
  · simp [Slot.isAlternative]

theorem follows_fields (inner : List (String × Behaviour)) (pairs : List (String × Value))
    (s : Site) :
    (fields inner pairs s).Follows ((bound inner pairs).map fun b =>
      (.field b.1, b.2.2.check b.2.1 (s.property b.1))) := by
  refine Answer.follows_untilFailure ?_ ?_ ?_
  · have hsettles : ∀ x : (String × Value × Behaviour) × Call,
        settles (.field x.1.1, x.2) = !x.2.passes := fun x => settles_of_sequence rfl x.2
    rw [untilFailure_eq_upTo, zip_upTo_map, map_upTo hsettles, List.map_map]
    rfl
  · intro part hpart
    obtain ⟨bc, hbc, rfl⟩ := List.mem_map.1 hpart
    exact (List.of_mem_zip hbc).2
  · intro part hpart
    obtain ⟨bc, -, rfl⟩ := List.mem_map.1 hpart
    rfl

theorem follows_alternatives (inner : List Behaviour) (v : Value) (s : Site) :
    (alternatives inner v s).Follows
      (inner.zipIdx.map fun b => (.alternative b.2, b.1.check v s)) where
  parts_eq := by
    have hsettles : ∀ x : Call × Nat, settles (.alternative x.2, x.1) = x.1.passes := by
      simp [settles, Slot.isAlternative]
    simp only [alternatives]
    rw [untilPass_eq_upTo, zipIdx_upTo, map_upTo hsettles, List.zipIdx_map, List.map_map]
    rfl
  outcome_of_fail := fun part hpart halt => by
    obtain ⟨x, -, rfl⟩ := List.mem_map.1 hpart
    cases halt
  passes_of_pass := fun part hpart _ hpass => by
    obtain ⟨x, hx, rfl⟩ := List.mem_map.1 hpart
    simp only [alternatives, Outcome.passes_ofBool, List.any_eq_true]
    exact ⟨x.1, List.fst_mem_of_mem_zipIdx hx, hpass⟩

end Behaviour

namespace Checker

theorem checkCall_of_isPlain {c : Checker} (h : c.isPlain) (v : Value) (s : Site) :
    c.checkCall v s = if v.isNullish then .leaf ⟨c, .check, v, s⟩ .pass
      else .through ⟨c, .check, v, s⟩ .own (c.presentCall v s) := by
  cases c with
  | required _ | nullable _ | rest _ => cases h
  | custom answers =>
    have : answers.check? = none := by simpa [isPlain] using h
    simp only [checkCall, presentCall, behaviour, Behaviour.custom, this, Behaviour.plain]
  | shape fields =>
    obtain ⟨entries, nodup⟩ := fields
    rfl
  | _ => rfl

theorem follows_presentCall (c : Checker) (v : Value) (s : Site) :
    Answer.Follows (Visit.due ⟨c, .present, v, s⟩)
      ⟨(c.presentCall v s).parts, (c.presentCall v s).outcome⟩ := by
  cases c with
  | arrayOf d =>
    cases v with
    | array items =>
      have hdue : Visit.due ⟨arrayOf d, .present, .array items, s⟩ =
          items.zipIdx.map fun item => (.element, d.checkCall item.1 (s.element item.2)) :=
        List.map_map
      exact hdue ▸ d.behaviour.follows_elements items s
    | _ => exact Answer.follows_alone _
  | objectOf d =>
    cases v with
    | object class? p =>
      have hdue : Visit.due ⟨objectOf d, .present, .object class? p, s⟩ =
          p.toList.map fun pair => (.property, d.checkCall pair.2 (s.property pair.1)) :=
        List.map_map
      exact hdue ▸ d.behaviour.follows_properties p.toList s
    | _ => exact Answer.follows_alone _
  | shape fields =>
    obtain ⟨entries, nodup⟩ := fields
    cases v with
    | object class? p =>
      have h := Behaviour.follows_fields (fieldBehaviours entries).toList p.toList s
      have hdue : Visit.due ⟨shape ⟨entries, nodup⟩, .present, .object class? p, s⟩ =
          (Behaviour.bound (fieldBehaviours entries).toList p.toList).map fun b =>
            (.field b.1, b.2.2.check b.2.1 (s.property b.1)) := by
        rw [toList_fieldBehaviours entries nodup, Behaviour.bound_map, List.map_map,
          Behaviour.bound, List.map_filterMap, Visit.due, Visit.agenda]
        simp only [dueAtPresent, List.map_filterMap, Option.map_map]
        rfl
      exact hdue ▸ h
    | _ => exact Answer.follows_alone _
  | oneOfType cs =>
    have h := Behaviour.follows_alternatives (behaviours cs) v s
    have hdue : Visit.due ⟨oneOfType cs, .present, v, s⟩ =
        (behaviours cs).zipIdx.map fun b => (.alternative b.2, b.1.check v s) := by
      rw [behaviours_eq_map, List.zipIdx_map, List.map_map]
      exact List.map_map
    exact hdue ▸ h
  | required d | nullable d | rest d => exact Answer.follows_single rfl _
  | custom answers =>
    obtain ⟨label, present, check?, isRest⟩ := answers
    cases check? <;> exact Answer.follows_alone _
  | _ => exact Answer.follows_alone _

theorem dueAtCheck_of_isPlain {c : Checker} (h : c.isPlain) (v : Value) (s : Site) :
    c.dueAtCheck v s = if v.isNullish then [] else [(.own, ⟨c, .present, v, s⟩)] := by
  cases c with
  | required _ | nullable _ | rest _ => cases h
  | _ => simp [dueAtCheck, h]

theorem follows_checkCall (c : Checker) (v : Value) (s : Site) :
    Answer.Follows (Visit.due ⟨c, .check, v, s⟩)
      ⟨(c.checkCall v s).parts, (c.checkCall v s).outcome⟩ := by
  by_cases hc : c.isPlain
  · rw [Visit.due, Visit.agenda, dueAtCheck_of_isPlain hc, checkCall_of_isPlain hc]
    cases v.isNullish with
    | true => exact Answer.follows_alone _
    | false => exact Answer.follows_single rfl _
  · cases c with
    | required d | nullable d =>
      simp only [Visit.due, Visit.agenda, dueAtCheck, checkCall, behaviour, Behaviour.modifier]
      cases v.isNullish with
      | true => exact Answer.follows_alone _
      | false => exact Answer.follows_single rfl _
    | rest d =>
      simp only [Visit.due, Visit.agenda, dueAtCheck, checkCall, behaviour, Behaviour.modifier]
      cases v.isNullish <;> exact Answer.follows_single rfl _
    | custom answers =>
      have hdue : Visit.due ⟨custom answers, .check, v, s⟩ = [] := by
        simp [Visit.due, Visit.agenda, dueAtCheck, hc]
      obtain ⟨label, present, check?, isRest⟩ := answers
      cases check? with
      | none => exact absurd rfl hc
      | some answer => exact hdue ▸ Answer.follows_alone _
    | _ => exact absurd rfl hc

end Checker

namespace Visit

/-- A visit makes the calls that are due in its course, up to the one that settles it. -/
theorem follows_call (w : Visit) : Answer.Follows w.due ⟨w.call.parts, w.call.outcome⟩ := by
  obtain ⟨c, entry, v, s⟩ := w
  cases entry with
  | check => exact c.follows_checkCall v s
  | present => exact c.follows_presentCall v s

theorem parts_call (w : Visit) : w.call.parts = upTo settles w.due := w.follows_call.parts_eq

theorem exists_agenda_of_mem_parts {w : Visit} {part : Slot × Call} (h : part ∈ w.call.parts) :
    ∃ u, (part.1, u) ∈ w.agenda ∧ part.2 = u.call := by
  rw [parts_call] at h
  obtain ⟨⟨slot, u⟩, hu, rfl⟩ := List.mem_map.1 ((upTo_isPrefix _ _).subset h)
  exact ⟨u, hu, rfl⟩

end Visit

end CallGuard
