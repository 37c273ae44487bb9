import CallGuard.Checker.Probe
import CallGuard.Proofs.Agenda
import CallGuard.Proofs.Sites
import Mathlib.Data.List.Nodup

/-!
# The course of a check

In what order checkers are entered in a check, and how often. What a single visit makes of its
agenda is known (`Visit.parts_call`), and the rest is by induction on where a visit leads
(`Visit.induct`).

What is entered stands at an occurrence in the checker, together with a part of the value at its
site (`Visit.place_of_mem_walk`). Any two visits that are due differ in the slots of their
checkers or in the first steps of their paths, the latter because no key comes twice in an
object; and so no occurrence is entered twice by one entry at one site
(`Visit.nodup_map_mark_walk`). A failure outside of alternatives settles every visit around it,
and hence comes last in the course of each (`Visit.outcome_of_contains`).
`Checker.course_of_check` puts all this together.
-/

namespace CallGuard

/-! ## Occurrences -/

/-- The occurrence of a checker that slots lead to. The other entry of a checker is no other
occurrence. -/
def occurrence (slots : List Slot) : List Slot := slots.filter (· ≠ .own)

namespace Checker

/-- The checker in a slot. -/
def slot? : Checker → Slot → Option Checker
  | required d, .inner | nullable d, .inner | rest d, .inner => some d
  | arrayOf d, .element => some d
  | objectOf d, .property => some d
  | shape fields, .field key => fields.get? key
  | oneOfType cs, .alternative i => cs[i]?
  | _, _ => none

/-- The checker at an occurrence. -/
def at? (c : Checker) : List Slot → Option Checker
  | [] => some c
  | slot :: slots => (c.slot? slot).bind (·.at? slots)

end Checker

/-- A visit leads to another by a slot : the other is of the same checker and value, or of a
checker inside and of the value or a part of it. -/
inductive Visit.Leads (w : Visit) : Slot → Visit → Prop
  | own : w.entry = .check → Leads w .own { w with entry := .present }
  | slot {slot : Slot} {u : Visit} (path : List Step) : slot ≠ .own →
    w.checker.slot? slot = some u.checker → w.value.at? path = some u.value →
      u.site = w.site.descend path → Leads w slot u

namespace Visit

theorem leads_of_mem_agenda {w u : Visit} {slot : Slot} (h : (slot, u) ∈ w.agenda) :
    w.Leads slot u := by
  obtain ⟨c, entry, v, s⟩ := w
  cases entry with
  | check =>
    change (slot, u) ∈ c.dueAtCheck v s at h
    by_cases hc : c.isPlain
    · rw [Checker.dueAtCheck_of_isPlain hc] at h
      split at h
      · cases h
      · cases List.mem_singleton.1 h
        exact .own rfl
    · cases c with
      | required d | nullable d =>
        simp only [Checker.dueAtCheck] at h
        split at h
        · cases h
        · cases List.mem_singleton.1 h
          exact .slot [] (by decide) rfl rfl rfl
      | rest d =>
        cases List.mem_singleton.1 h
        exact .slot [] (by decide) rfl rfl rfl
      | custom answers => simp [Checker.dueAtCheck, hc] at h
      | _ => exact absurd rfl hc
  | present =>
    cases c with
    | required d | nullable d | rest d =>
      cases List.mem_singleton.1 h
      exact .slot [] (by decide) rfl rfl rfl
    | arrayOf d =>
      cases v with
      | array items =>
        obtain ⟨⟨item, i⟩, hitem, heq⟩ := List.mem_map.1 h
        cases heq
        have hi := List.mk_mem_zipIdx_iff_getElem?.1 hitem
        exact .slot [.element i] (by decide) rfl (by simp [Value.at?, hi]) rfl
      | _ => cases h
    | objectOf d =>
      cases v with
      | object class? p =>
        obtain ⟨⟨key, x⟩, hpair, heq⟩ := List.mem_map.1 h
        cases heq
        have hx := p.mem_toList_iff.1 hpair
        exact .slot [.property key] (by decide) rfl (by simp [Value.at?, hx]) rfl
      | _ => cases h
    | shape fields =>
      cases v with
      | object class? p =>
        obtain ⟨⟨key, x⟩, hpair, heq⟩ := List.mem_filterMap.1 h
        obtain ⟨d, hd, heq⟩ := Option.map_eq_some_iff.1 heq
        cases heq
        have hx := p.mem_toList_iff.1 hpair
        exact .slot [.property key] (by simp) hd (by simp [Value.at?, hx]) rfl
      | _ => cases h
    | oneOfType cs =>
      obtain ⟨⟨d, i⟩, hd, heq⟩ := List.mem_map.1 h
      cases heq
      exact .slot [] (by simp) (List.mk_mem_zipIdx_iff_getElem?.1 hd) rfl rfl
    | _ => cases h

end Visit

theorem Checker.mem_children_of_slot? {c d : Checker} {slot : Slot} (h : c.slot? slot = some d) :
    d ∈ c.children := by
  cases c with
  | required _ | nullable _ | rest _ | arrayOf _ | objectOf _ =>
    cases slot <;> cases h
    exact List.mem_cons_self
  | shape fields =>
    cases slot with
    | field key => exact List.mem_map_of_mem (fields.mem_toList_iff.2 h)
    | _ => cases h
  | oneOfType cs =>
    cases slot with
    | alternative i => exact List.mem_of_getElem? h
    | _ => cases h
  | _ => cases h

namespace Visit

/-- What holds of a visit once it holds of those that it leads to holds of every visit. -/
theorem induct {P : Visit → Prop} (step : ∀ w, (∀ slot u, w.Leads slot u → P u) → P w)
    (w : Visit) : P w := by
  obtain ⟨c, entry, v, s⟩ := w
  induction c using Checker.induct_children generalizing entry v s with
  | step c ih =>
    -- One checker leads to itself, but only from the one entry to the other.
    have hpresent : P ⟨c, .present, v, s⟩ := step _ fun slot u h => by
      cases h with
      | own hentry => cases hentry
      | slot _ _ hd _ _ => exact ih _ (Checker.mem_children_of_slot? hd) u.entry u.value u.site
    cases entry with
    | present => exact hpresent
    | check =>
      refine step _ fun slot u h => ?_
      cases h with
      | own => exact hpresent
      | slot _ _ hd _ _ => exact ih _ (Checker.mem_children_of_slot? hd) u.entry u.value u.site

end Visit

theorem occurrence_append (slots slots' : List Slot) :
    occurrence (slots ++ slots') = occurrence slots ++ occurrence slots' :=
  List.filter_append ..

theorem occurrence_cons_of_ne {slot : Slot} (h : slot ≠ .own) (slots : List Slot) :
    occurrence (slot :: slots) = slot :: occurrence slots :=
  List.filter_cons_of_pos (by simpa using h)

theorem occurrence_below {slot : Slot} (h : slot ≠ .own) (above slots : List Slot) :
    occurrence (above ++ [slot] ++ slots) = occurrence above ++ slot :: occurrence slots := by
  rw [List.append_assoc, occurrence_append, List.singleton_append, occurrence_cons_of_ne h]

/-! ## Walks -/

namespace Call

theorem walkParts_eq (above : List Slot) (parts : List (Slot × Call)) :
    walkParts above parts = parts.flatMap fun part => part.2.walk (above ++ [part.1]) := by
  induction parts with
  | nil => rfl
  | cons part parts ih => rw [walkParts, ih, List.flatMap_cons]

theorem walk_eq (t : Call) (above : List Slot) :
    t.walk above =
      (above, t.visit) :: t.parts.flatMap fun part => part.2.walk (above ++ [part.1]) := by
  obtain ⟨visit, parts, o⟩ := t
  rw [walk, walkParts_eq, Call.visit, Call.parts]

end Call

/-- A call is made in the course of another, at the end of slots. -/
inductive Call.Contains : Call → List Slot → Call → Prop
  | here {t : Call} : Contains t [] t
  | part {t m u : Call} {slot : Slot} {slots : List Slot} : (slot, m) ∈ t.parts →
    Contains m slots u → Contains t (slot :: slots) u

namespace Visit

theorem mem_walk_cases {w : Visit} {above : List Slot} {x : List Slot × Visit}
    (h : x ∈ w.call.walk above) :
    x = (above, w) ∨ ∃ slot u, (slot, u) ∈ w.agenda ∧ (slot, u.call) ∈ w.call.parts ∧
      x ∈ u.call.walk (above ++ [slot]) := by
  rw [Call.walk_eq, visit_call] at h
  rcases List.mem_cons.1 h with h | h
  · exact Or.inl h
  · obtain ⟨⟨slot, t⟩, hpart, hx⟩ := List.mem_flatMap.1 h
    obtain ⟨u, hu, rfl⟩ := exists_agenda_of_mem_parts hpart
    exact Or.inr ⟨slot, u, hu, hpart, hx⟩

/-- What is entered in the course of a visit is entered by a call inside. -/
theorem exists_contains_of_mem_walk {w : Visit} {above : List Slot} {x : List Slot × Visit}
    (h : x ∈ w.call.walk above) :
    ∃ slots, x.1 = above ++ slots ∧ w.call.Contains slots x.2.call := by
  induction w using induct generalizing above with
  | step w ih =>
    rcases mem_walk_cases h with rfl | ⟨slot, u, hu, hpart, hx⟩
    · exact ⟨[], (List.append_nil _).symm, .here⟩
    · obtain ⟨slots, hslots, hcontains⟩ := ih slot u (leads_of_mem_agenda hu) hx
      refine ⟨slot :: slots, ?_, .part hpart hcontains⟩
      rw [hslots, List.append_assoc, List.singleton_append]

/-- What is entered in the course of a visit stands at an occurrence in the checker, and with it a
part of the value at its site. -/
theorem place_of_mem_walk {w : Visit} {above : List Slot} {x : List Slot × Visit}
    (h : x ∈ w.call.walk above) :
    ∃ slots path, x.1 = above ++ slots ∧ w.checker.at? (occurrence slots) = some x.2.checker ∧
      w.value.at? path = some x.2.value ∧ x.2.site = w.site.descend path := by
  induction w using induct generalizing above with
  | step w ih =>
    rcases mem_walk_cases h with rfl | ⟨slot, u, hu, -, hx⟩
    · exact ⟨[], [], (List.append_nil _).symm, rfl, rfl, rfl⟩
    · have hleads := leads_of_mem_agenda hu
      obtain ⟨slots, path, hslots, hc, hv, hs⟩ := ih slot u hleads hx
      rw [List.append_assoc, List.singleton_append] at hslots
      cases hleads with
      | own => exact ⟨_, path, hslots, hc, hv, hs⟩
      | slot down hne hd hw hsite =>
        refine ⟨_, down ++ path, hslots, ?_, ?_, ?_⟩
        · rw [occurrence_cons_of_ne hne, Checker.at?, hd, Option.bind_some, hc]
        · rw [Value.at?_append, hw, Option.bind_some, hv]
        · rw [hs, hsite, Site.descend_append]

/-- Among the visits of one occurrence, those after one with a value that is there are of the same
sort. -/
theorem entry_of_mem_walk {w : Visit} {above : List Slot} {x : List Slot × Visit}
    (h : x ∈ w.call.walk above) (hw : w.entry = .present)
    (hx : occurrence x.1 = occurrence above) : x.2.entry = .present := by
  rcases mem_walk_cases h with rfl | ⟨slot, u, hu, -, hmem⟩
  · exact hw
  · obtain ⟨slots, -, hslots, -⟩ := place_of_mem_walk hmem
    cases leads_of_mem_agenda hu with
    | own hentry =>
      rw [hw] at hentry
      cases hentry
    | slot _ hne _ _ _ =>
      rw [hslots, occurrence_below hne] at hx
      simp at hx

end Visit

/-! ## Once only -/

namespace Site

theorem eq_of_descend_below_eq {s : Site} {step step' : Step} {path path' : List Step}
    (h : (s.below step).descend path = (s.below step').descend path') : step = step' := by
  rw [descend_eq, descend_eq] at h
  have hpath := congrArg (fun s : Site => s.location.path) h
  have htail := List.append_inj_right' hpath rfl
  exact (List.cons.inj htail).1

theorem descend_below_ne (s : Site) (step : Step) (path : List Step) :
    (s.below step).descend path ≠ s := by
  intro h
  rw [descend_eq] at h
  have hlength := congrArg (fun s : Site => s.location.path.length) h
  simp [below, Location.below] at hlength
  omega

end Site

namespace Visit

/-- Two visits that are due are told apart by their slots, or by sites that nothing stands below
both of. -/
def Apart (x y : Slot × Visit) : Prop :=
  x.1 ≠ .own ∧ y.1 ≠ .own ∧ x.1 ≠ y.1 ∨
    ∀ path path', x.2.site.descend path ≠ y.2.site.descend path'

theorem apart_of_steps {s : Site} {step step' : Step} {x y : Slot × Visit} (h : step ≠ step')
    (hx : x.2.site = s.below step) (hy : y.2.site = s.below step') : Apart x y := by
  refine Or.inr fun path path' heq => h ?_
  rw [hx, hy] at heq
  exact Site.eq_of_descend_below_eq heq

theorem pairwise_snd_zipIdx {α : Type} (l : List α) :
    l.zipIdx.Pairwise fun x y => x.2 ≠ y.2 := by
  have h : (l.zipIdx.map Prod.snd).Nodup := by
    rw [List.zipIdx_map_snd]
    exact List.nodup_range'
  exact List.pairwise_map.1 h

theorem pairwise_agenda (w : Visit) : w.agenda.Pairwise Apart := by
  obtain ⟨c, entry, v, s⟩ := w
  cases entry with
  | check =>
    change (c.dueAtCheck v s).Pairwise Apart
    unfold Checker.dueAtCheck
    split
    · split <;> simp
    · split <;> simp
    · simp
    · split <;> simp
  | present =>
    cases c with
    | arrayOf d =>
      cases v with
      | array items =>
        refine List.pairwise_map.2 ((pairwise_snd_zipIdx items).imp fun h => ?_)
        exact apart_of_steps (fun heq => h (Step.element.inj heq)) rfl rfl
      | _ => exact .nil
    | objectOf d =>
      cases v with
      | object class? p =>
        have hkeys := List.pairwise_map.1 p.nodup_map_fst_toList
        refine List.pairwise_map.2 (hkeys.imp fun h => ?_)
        exact apart_of_steps (fun heq => h (Step.property.inj heq)) rfl rfl
      | _ => exact .nil
    | shape fields =>
      cases v with
      | object class? p =>
        have hkeys := List.pairwise_map.1 p.nodup_map_fst_toList
        refine hkeys.filterMap _ fun x y h a ha b hb => ?_
        obtain ⟨d, -, rfl⟩ := Option.map_eq_some_iff.1 ha
        obtain ⟨e, -, rfl⟩ := Option.map_eq_some_iff.1 hb
        exact apart_of_steps (fun heq => h (Step.property.inj heq)) rfl rfl
      | _ => exact .nil
    | oneOfType cs =>
      refine List.pairwise_map.2 ((pairwise_snd_zipIdx cs).imp fun h => ?_)
      exact Or.inl ⟨by simp, by simp, fun heq => h (Slot.alternative.inj heq)⟩
    | required _ | nullable _ | rest _ => exact List.pairwise_singleton _ _
    | _ => exact .nil

/-- What tells visits apart : the occurrence of the checker, the entry and the site. -/
def mark (x : List Slot × Visit) : List Slot × Entry × Site :=
  (occurrence x.1, x.2.entry, x.2.site)

theorem mark_ne_of_apart {slot slot' : Slot} {u u' : Visit} (h : Apart (slot, u) (slot', u'))
    {above : List Slot} {x y : List Slot × Visit} (hx : x ∈ u.call.walk (above ++ [slot]))
    (hy : y ∈ u'.call.walk (above ++ [slot'])) : mark x ≠ mark y := by
  intro heq
  obtain ⟨slots, path, hslots, -, -, hsite⟩ := place_of_mem_walk hx
  obtain ⟨slots', path', hslots', -, -, hsite'⟩ := place_of_mem_walk hy
  simp only [mark, Prod.mk.injEq] at heq
  rcases h with ⟨hown, hown', hne⟩ | hsites
  · have hocc := heq.1
    rw [hslots, hslots', occurrence_below hown, occurrence_below hown'] at hocc
    exact hne (List.cons.inj (List.append_cancel_left hocc)).1
  · exact hsites path path' (by rw [← hsite, ← hsite', heq.2.2])

theorem mark_ne_of_leads {w u : Visit} {slot : Slot} (h : w.Leads slot u) {above : List Slot}
    {x : List Slot × Visit} (hx : x ∈ u.call.walk (above ++ [slot])) :
    mark x ≠ mark (above, w) := by
  intro heq
  obtain ⟨slots, -, hslots, -⟩ := place_of_mem_walk hx
  simp only [mark, Prod.mk.injEq] at heq
  cases h with
  | own hentry =>
    have hpresent := entry_of_mem_walk hx rfl (by rw [heq.1, occurrence_append]; simp [occurrence])
    rw [heq.2.1, hentry] at hpresent
    cases hpresent
  | slot _ hne _ _ _ =>
    have hocc := heq.1
    rw [hslots, occurrence_below hne] at hocc
    simp at hocc

/-- No occurrence of a checker is entered twice by one entry at one site. -/
theorem nodup_map_mark_walk (w : Visit) (above : List Slot) :
    ((w.call.walk above).map mark).Nodup := by
  induction w using induct generalizing above with
  | step w ih =>
    rw [Call.walk_eq, visit_call, List.map_cons, List.nodup_cons, List.map_flatMap,
      List.nodup_flatMap]
    refine ⟨?_, ?_, ?_⟩
    -- The visit itself is not among those below, and no two calls have a visit in common.
    · intro hmem
      obtain ⟨part, hpart, hx⟩ := List.mem_flatMap.1 hmem
      obtain ⟨x, hx, heq⟩ := List.mem_map.1 hx
      obtain ⟨u, hu, hcall⟩ := exists_agenda_of_mem_parts hpart
      rw [hcall] at hx
      exact mark_ne_of_leads (leads_of_mem_agenda hu) hx heq
    · intro part hpart
      obtain ⟨u, hu, hcall⟩ := exists_agenda_of_mem_parts hpart
      rw [hcall]
      exact ih _ u (leads_of_mem_agenda hu) _
    -- The calls that are made are among those that are due, which are apart.
    · rw [parts_call]
      refine List.Pairwise.sublist (upTo_isPrefix _ _).sublist (List.pairwise_map.2 ?_)
      refine w.pairwise_agenda.imp fun {x y} h => List.disjoint_left.2 fun m hm hm' => ?_
      obtain ⟨a, ha, rfl⟩ := List.mem_map.1 hm
      obtain ⟨b, hb, heq⟩ := List.mem_map.1 hm'
      exact mark_ne_of_apart h ha hb heq.symm

end Visit

/-! ## The end of a call -/

namespace Visit

/-- Calls that are made in the course of a visit are calls of visits. -/
theorem exists_call_eq_of_contains {w : Visit} {slots : List Slot} {u : Call}
    (h : w.call.Contains slots u) : ∃ x : Visit, u = x.call := by
  generalize ht : w.call = t at h
  induction h generalizing w with
  | here => exact ⟨w, ht.symm⟩
  | part hpart _ ih =>
    obtain ⟨x, -, hx⟩ := exists_agenda_of_mem_parts (ht ▸ hpart)
    exact ih hx.symm

/-- Nothing is entered after the call that settles a visit. -/
theorem walk_isSuffix_of_settles {w : Visit} {part : Slot × Call} (h : part ∈ w.call.parts)
    (hpart : settles part) (above : List Slot) :
    part.2.walk (above ++ [part.1]) <:+ w.call.walk above := by
  rw [parts_call] at h
  obtain ⟨before, hbefore, -⟩ := upTo_eq_append_singleton h hpart
  rw [w.call.walk_eq above, parts_call, hbefore, List.flatMap_append, List.flatMap_singleton,
    ← List.cons_append]
  exact List.suffix_append _ _

/-- A failure that is not in an alternative is the end of the course. -/
theorem outcome_of_contains {w : Visit} {slots : List Slot} {u : Call} {f : Failure}
    (h : w.call.Contains slots u) (hslots : ∀ slot ∈ slots, slot.isAlternative = false)
    (hu : u.outcome = .fail f) (above : List Slot) :
    w.call.outcome = .fail f ∧ u.walk (above ++ slots) <:+ w.call.walk above := by
  generalize ht : w.call = t at h ⊢
  -- Down to the failing call; every call on the way fails with it, and so is the last one made.
  induction h generalizing w above with
  | here =>
    rw [List.append_nil]
    exact ⟨hu, List.suffix_refl _⟩
  | @part t m u slot slots hpart _ ih =>
    subst ht
    obtain ⟨hslot, hslots⟩ := List.forall_mem_cons.1 hslots
    obtain ⟨x, -, hx⟩ := exists_agenda_of_mem_parts hpart
    obtain ⟨hm, hsuffix⟩ := ih hslots hu (above ++ [slot]) hx.symm
    refine ⟨w.follows_call.outcome_of_fail _ hpart hslot f hm, ?_⟩
    have hsettles : settles (slot, m) := by
      simp [settles, hslot, Call.passes, hm, Outcome.passes]
    rw [List.append_assoc, List.singleton_append] at hsuffix
    exact hsuffix.trans (walk_isSuffix_of_settles hpart hsettles above)

end Visit

/-- A property whose key has no checker in a shape is left alone, with all that is below it. -/
theorem Visit.site_ne_of_unbound {fields : Properties Checker} {class? : Option Class}
    {p : Properties Value} {s : Site} {key : String} (hkey : fields.get? key = none)
    {above : List Slot} {x : List Slot × Visit}
    (hx : x ∈ (Visit.call ⟨.shape fields, .present, .object class? p, s⟩).walk above)
    (path : List Step) : x.2.site ≠ (s.property key).descend path := by
  intro hsite
  rcases mem_walk_cases hx with rfl | ⟨slot, u, hu, -, hmem⟩
  · exact s.descend_below_ne _ path hsite.symm
  · obtain ⟨⟨key', w⟩, -, hu⟩ := List.mem_filterMap.1 hu
    obtain ⟨d, hd, heq⟩ := Option.map_eq_some_iff.1 hu
    cases heq
    obtain ⟨-, path', -, -, -, hbelow⟩ := place_of_mem_walk hmem
    have hsteps := Step.property.inj (Site.eq_of_descend_below_eq (hbelow.symm.trans hsite))
    rw [hsteps, hkey] at hd
    cases hd

namespace Checker

/-- In the course of a check, every checker that is entered is entered by a call inside and stands
at an occurrence in the tree, with a part of the value at its site, and no occurrence is entered
twice by one entry at one site. Each call inside makes the calls that are due, in the order of the
elements, of the properties or of the alternatives, up to the one that settles it. A failure that
is not in an alternative is the end of the call, and nothing is entered after it; nor is anything
entered in the course of a union after an alternative that passes. Nothing is entered at a property
whose key has no checker in a shape, or below it. -/
theorem course_of_check (c : Checker) (v : Value) (s : Site) :
    let whole := c.checkCall v s
    (∀ x ∈ whole.walk [], whole.Contains x.1 x.2.call ∧
      c.at? (occurrence x.1) = some x.2.checker ∧
      ∃ path, v.at? path = some x.2.value ∧ x.2.site = s.descend path) ∧
    ((whole.walk []).map fun x => (occurrence x.1, x.2.entry, x.2.site)).Nodup ∧
    ∀ above t, whole.Contains above t →
      t.parts = upTo settles (t.visit.agenda.map fun x => (x.1, x.2.call)) ∧
      (∀ slots u f, t.Contains slots u → (∀ slot ∈ slots, slot.isAlternative = false) →
        u.outcome = .fail f → t.outcome = .fail f ∧ u.walk slots <:+ t.walk []) ∧
      (∀ i u, (.alternative i, u) ∈ t.parts → u.passes →
        t.passes ∧ u.walk [.alternative i] <:+ t.walk []) ∧
      ∀ fields class? p s' key, t.visit = ⟨.shape fields, .present, .object class? p, s'⟩ →
        fields.get? key = none → ∀ x ∈ t.walk [], ∀ path,
          x.2.site ≠ (s'.property key).descend path := by
  intro whole
  have hwhole : whole = (⟨c, .check, v, s⟩ : Visit).call := rfl
  refine ⟨fun x hx => ?_, ?_, fun above t ht => ?_⟩
  · obtain ⟨above, habove, hcontains⟩ := Visit.exists_contains_of_mem_walk (hwhole ▸ hx)
    obtain ⟨slots, path, hslots, hc, hv, hs⟩ := Visit.place_of_mem_walk (hwhole ▸ hx)
    rw [List.nil_append] at habove hslots
    exact ⟨habove ▸ hcontains, hslots ▸ hc, path, hv, hs⟩
  · exact Visit.nodup_map_mark_walk ⟨c, .check, v, s⟩ []
  · obtain ⟨w, rfl⟩ := Visit.exists_call_eq_of_contains (hwhole ▸ ht)
    rw [Visit.visit_call]
    refine ⟨w.parts_call, fun slots u f hu hslots hf => ?_, fun i u hu hpass => ?_, ?_⟩
    · exact Visit.outcome_of_contains hu hslots hf []
    · exact ⟨w.follows_call.passes_of_pass _ hu rfl hpass,
        Visit.walk_isSuffix_of_settles hu (by simp [settles, Slot.isAlternative, hpass]) []⟩
    · rintro fields class? p s' key rfl hkey x hx path
      exact Visit.site_ne_of_unbound hkey hx path

/-- A property that is not asked about, a union in the elements of the next that stops at its second
alternative, a property that fails and one that is not reached. -/
theorem course_of_check_of_probes :
    let stop := required (.custom (.presentProbe "stop" true))
    let fields := Properties.ofList [
      ("last", .custom (.probe "last" false)),
      ("tags", arrayOf (oneOfType [.custom (.probe "refuse" true), .custom (.probe "accept" false),
        .custom (.probe "late" false)])),
      ("age", stop)]
    let p := Properties.ofList [("other", .null), ("tags", .array [.bool true, .null, .bool false]),
      ("age", .string "x"), ("last", .bool false)]
    let s := Site.argument "m" 0
    let whole := (shape fields).checkCall (.object none p) s
    let t := (shape fields).presentCall (.object none p) s
    let u := stop.checkCall (.string "x") (s.property "age")
    let f := probeFailure "stop" .present (s.property "age")
    whole.Contains [.own] t ∧ t.Contains [.field "age"] u ∧ u.outcome = .fail f ∧
      t.outcome = .fail f ∧ u.walk [.field "age"] <:+ t.walk [] ∧
      (∀ x ∈ t.walk [], ∀ path, x.2.site ≠ (s.property "other").descend path) ∧
      whole.traces.map Trace.label = ["refuse", "accept", "refuse", "accept", "stop"] := by
  intro stop fields p s whole t u f
  have ht : whole.Contains [.own] t := .part List.mem_cons_self .here
  have hu : t.Contains [.field "age"] u :=
    .part (List.mem_cons_of_mem _ List.mem_cons_self) .here
  have hf : u.outcome = .fail f := by decide
  obtain ⟨-, -, hcourse⟩ := course_of_check (shape fields) (.object none p) s
  obtain ⟨-, hfail, -, hunbound⟩ := hcourse _ t ht
  have hslots : ∀ slot ∈ [Slot.field "age"], slot.isAlternative = false := by decide
  obtain ⟨houtcome, hsuffix⟩ := hfail _ u f hu hslots hf
  exact ⟨ht, hu, hf, houtcome, hsuffix, hunbound fields none p s "other" rfl rfl, by decide⟩

end Checker

end CallGuard
