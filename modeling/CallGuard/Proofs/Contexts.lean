import CallGuard.Proofs.Conformance
import Mathlib.Logic.Relation

/-!
# Checkers in contexts

A `Context` is a checker with a hole in it : under modifiers, as the checker of elements or
of properties, under a key of a shape or among the alternatives of a union, at any depth and
with any other checkers beside it. What stands inside a checker stands in the hole of a
context (`Context.exists_fill_eq`).

One checker implies another (`Checker.Implies`) if whatever passes the first passes the
second, where it stands. Each way to put checkers together keeps this, which is shown once for
each, and so every context keeps it (`Context.implies_fill`). The checkers around a hole may
be of any sort, since they are asked about one and the same value on both sides. Only checks
are compared, by the entry for any value; contexts enter what is in their hole by no other.
-/

namespace CallGuard

/-! ## Contexts -/

/-- A checker with a hole. -/
inductive Context
  /-- The hole. -/
  | hole
  | arrayOf (element : Context)
  | objectOf (property : Context)
  /-- A shape with the hole under a key, and its other fields. -/
  | field (fields : Properties Checker) (key : String) (checker : Context)
  /-- A union with the hole in an alternative, between others. -/
  | alternative (before : List Checker) (checker : Context) (after : List Checker)
  | required (inner : Context)
  | nullable (inner : Context)
  | rest (inner : Context)

/-- The context with a checker in its hole. -/
def Context.fill : Context → Checker → Checker
  | hole, c => c
  | arrayOf K, c => .arrayOf (K.fill c)
  | objectOf K, c => .objectOf (K.fill c)
  | field fields key K, c => .shape (fields.insert key (K.fill c))
  | alternative before K after, c => .oneOfType (before ++ K.fill c :: after)
  | required K, c => .required (K.fill c)
  | nullable K, c => .nullable (K.fill c)
  | rest K, c => .rest (K.fill c)

namespace Checker

/-! ## Implication -/

/-- Whatever passes the first checker passes the second, where it stands. -/
def Implies (c d : Checker) : Prop := ∀ v s, (c.check v s).passes → (d.check v s).passes

variable {c d : Checker}

theorem Implies.refl (c : Checker) : c.Implies c := fun _ _ h => h

/-- A plain checker implies another if that says no more about a value that is there and has only
implied checks made of its parts. -/
theorem implies_of_parts (hc : c.isPlain) (hd : d.isPlain)
    (htest : ∀ v s, (c.test v s).passes → (d.test v s).passes)
    (hparts : ∀ v, ∀ q ∈ d.parts .present v, ∃ p ∈ c.parts .present v,
      ∀ s, (p.outcome s).passes → (q.outcome s).passes) : c.Implies d := by
  intro v s h
  rw [passes_check_iff_of_isPlain hc] at h
  rw [passes_check_iff_of_isPlain hd]
  refine h.imp_right fun ⟨ht, hp⟩ => ⟨htest v s ht, fun q hq => ?_⟩
  obtain ⟨p, hpc, himp⟩ := hparts v q hq
  exact himp s (hp p hpc)

theorem Implies.arrayOf (h : c.Implies d) : (arrayOf c).Implies (arrayOf d) := by
  refine implies_of_parts rfl rfl (fun _ _ => id) fun v q hq => ?_
  cases v with
  | array items =>
    obtain ⟨item, hitem, rfl⟩ := List.mem_map.1 hq
    exact ⟨_, List.mem_map_of_mem hitem, fun s => h _ _⟩
  | _ => cases hq

theorem Implies.objectOf (h : c.Implies d) : (objectOf c).Implies (objectOf d) := by
  refine implies_of_parts rfl rfl (fun _ _ => id) fun v q hq => ?_
  cases v with
  | object class? p =>
    obtain ⟨pair, hpair, rfl⟩ := List.mem_map.1 hq
    exact ⟨_, List.mem_map_of_mem hpair, fun s => h _ _⟩
  | _ => cases hq

/-- Every field of the second shape has to be implied by one of the first. -/
theorem implies_shape {fields fields' : Properties Checker}
    (h : ∀ key d, fields'.get? key = some d → ∃ c, fields.get? key = some c ∧ c.Implies d) :
    (shape fields).Implies (shape fields') := by
  refine implies_of_parts rfl rfl (fun _ _ => id) fun v q hq => ?_
  cases v with
  | object class? p =>
    obtain ⟨⟨key, w, d⟩, hb, rfl⟩ := List.mem_map.1 hq
    obtain ⟨hw, hd⟩ := mem_bound_iff.1 hb
    obtain ⟨c, hc, himp⟩ := h key d hd
    exact ⟨_, List.mem_map_of_mem (mem_bound_iff.2 ⟨hw, hc⟩), fun s => himp _ _⟩
  | _ => cases hq

theorem Implies.field (h : c.Implies d) (fields : Properties Checker) (key : String) :
    (shape (fields.insert key c)).Implies (shape (fields.insert key d)) := by
  refine implies_shape fun key' e he => ?_
  rw [Properties.get?_insert] at he ⊢
  split at he
  · rename_i hkey
    exact ⟨c, if_pos hkey, Option.some.inj he ▸ h⟩
  · rename_i hkey
    exact ⟨e, (if_neg hkey).trans he, .refl e⟩

/-- Every alternative of the first union has to imply one of the second. -/
theorem implies_oneOfType {cs ds : List Checker} (h : ∀ c ∈ cs, ∃ d ∈ ds, c.Implies d) :
    (oneOfType cs).Implies (oneOfType ds) := by
  refine implies_of_parts rfl rfl (fun v s ht => ?_) fun v q hq => by cases hq
  simp only [test, Outcome.passes_ofBool, List.any_eq_true] at ht ⊢
  obtain ⟨c, hc, hpass⟩ := ht
  obtain ⟨d, hd, himp⟩ := h c hc
  exact ⟨d, hd, himp v s hpass⟩

theorem Implies.alternative (h : c.Implies d) (before after : List Checker) :
    (oneOfType (before ++ c :: after)).Implies (oneOfType (before ++ d :: after)) := by
  refine implies_oneOfType fun e he => ?_
  rcases List.mem_append.1 he with he | he
  · exact ⟨e, List.mem_append_left _ he, .refl e⟩
  · rcases List.mem_cons.1 he with rfl | he
    · exact ⟨d, List.mem_append_right _ List.mem_cons_self, h⟩
    · exact ⟨e, List.mem_append_right _ (List.mem_cons_of_mem _ he), .refl e⟩

theorem Implies.required (h : c.Implies d) : (required c).Implies (required d) := by
  intro v s
  rw [check_required, check_required]
  split
  · exact id
  · exact h v s

theorem Implies.nullable (h : c.Implies d) : (nullable c).Implies (nullable d) := by
  intro v s
  rw [check_nullable, check_nullable]
  split
  · exact id
  · exact h v s

theorem Implies.rest (h : c.Implies d) : (rest c).Implies (rest d) := by
  intro v s
  rw [check_rest, check_rest]
  exact h v s

end Checker

namespace Context

variable {c d : Checker}

/-- A context keeps implications. -/
theorem implies_fill (K : Context) (h : c.Implies d) : (K.fill c).Implies (K.fill d) := by
  induction K with
  | hole => exact h
  | arrayOf K ih => exact ih.arrayOf
  | objectOf K ih => exact ih.objectOf
  | field fields key K ih => exact ih.field fields key
  | alternative before K after ih => exact ih.alternative before after
  | required K ih => exact ih.required
  | nullable K ih => exact ih.nullable
  | rest K ih => exact ih.rest

/-! ## What stands inside -/

theorem exists_fill_eq_of_mem_children {e : Checker} (hd : d ∈ e.children) {K : Context}
    (hK : K.fill c = d) : ∃ K' : Context, K'.fill c = e := by
  subst hK
  cases e with
  | arrayOf e => exact ⟨arrayOf K, congrArg Checker.arrayOf (List.mem_singleton.1 hd)⟩
  | objectOf e => exact ⟨objectOf K, congrArg Checker.objectOf (List.mem_singleton.1 hd)⟩
  | required e => exact ⟨required K, congrArg Checker.required (List.mem_singleton.1 hd)⟩
  | nullable e => exact ⟨nullable K, congrArg Checker.nullable (List.mem_singleton.1 hd)⟩
  | rest e => exact ⟨rest K, congrArg Checker.rest (List.mem_singleton.1 hd)⟩
  | shape fields =>
    obtain ⟨⟨key, e⟩, hfield, rfl⟩ := List.mem_map.1 hd
    refine ⟨field fields key K, ?_⟩
    rw [fill, fields.insert_of_get? (fields.mem_toList_iff.1 hfield)]
  | oneOfType cs =>
    obtain ⟨before, after, rfl⟩ := List.append_of_mem hd
    exact ⟨alternative before K after, rfl⟩
  | _ => cases hd

/-- Whatever stands inside a checker stands in the hole of a context. -/
theorem exists_fill_eq {e : Checker} (h : Relation.ReflTransGen (fun d e => d ∈ e.children) c e) :
    ∃ K : Context, K.fill c = e := by
  induction h with
  | refl => exact ⟨hole, rfl⟩
  | tail _ hd ih =>
    obtain ⟨K, hK⟩ := ih
    exact exists_fill_eq_of_mem_children hd hK

/-- If whatever passes one checker passes another, then in any context whatever passes with the
first passes with the second, where it stands; in particular if what they say about a value does
not depend on where it stands. Two checkers that pass the same values can be exchanged, whatever
they do at the other entry. And contexts are all there is : whatever stands inside a checker
stands in the hole of one. -/
theorem passes_fill_of_passes :
    (∀ (K : Context) (c d : Checker), (∀ v s, (c.check v s).passes → (d.check v s).passes) →
      ∀ v s, ((K.fill c).check v s).passes → ((K.fill d).check v s).passes) ∧
    (∀ (K : Context) (c d : Checker) (P Q : Value → Prop),
      (∀ v s, (c.check v s).passes ↔ P v) → (∀ v s, (d.check v s).passes ↔ Q v) →
      (∀ v, P v → Q v) →
      ∀ v s, ((K.fill c).check v s).passes → ((K.fill d).check v s).passes) ∧
    (∀ (K : Context) (c d : Checker), (∀ v s, (c.check v s).passes ↔ (d.check v s).passes) →
      ∀ v s, ((K.fill c).check v s).passes ↔ ((K.fill d).check v s).passes) ∧
    ∀ c e : Checker, Relation.ReflTransGen (fun d e => d ∈ e.children) c e →
      ∃ K : Context, K.fill c = e := by
  refine ⟨fun K c d => K.implies_fill, fun K c d P Q hc hd hPQ => K.implies_fill ?_,
    fun K c d h v s => ⟨?_, ?_⟩, fun c e => exists_fill_eq⟩
  · exact fun v s hpass => (hd v s).2 (hPQ v ((hc v s).1 hpass))
  · exact K.implies_fill (fun v s => (h v s).1) v s
  · exact K.implies_fill (fun v s => (h v s).2) v s

/-- A checker that refuses everything at the other entry is as good as one that passes everything,
also as an alternative for elements that have to be there. -/
theorem passes_fill_of_stubborn :
    let stubborn := Checker.custom
      ⟨none, fun _ s => .fail (Cause.failure s .required), some fun _ _ => .pass, false⟩
    let K := Context.field (.ofList [("a", .any)]) "b"
      (.nullable (.arrayOf (.alternative [.kindOf .string] (.required .hole) [])))
    let v := Value.object none (.ofList [("b", .array [.bool true, .string "x"])])
    let s := Site.argument "m" 0
    (∀ v s, (stubborn.check v s).passes ↔ (Checker.any.check v s).passes) ∧
      (stubborn.checkPresent v s).passes = false ∧ (Checker.any.checkPresent v s).passes ∧
      ((K.fill .any).check v s).passes ∧ ((K.fill stubborn).check v s).passes := by
  intro stubborn K v s
  have hsame : ∀ v s, (stubborn.check v s).passes ↔ (Checker.any.check v s).passes := by
    intro v s
    have hany : Checker.any.check v s = .pass :=
      (Checker.check_of_isPlain rfl v s).trans (ite_self _)
    rw [hany]
    rfl
  have hpass : ((K.fill .any).check v s).passes := by decide
  exact ⟨hsame, rfl, rfl, hpass, (passes_fill_of_passes.2.2.1 K _ _ hsame v s).2 hpass⟩

end Context

end CallGuard
