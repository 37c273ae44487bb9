import CallGuard.Value.Basic
import Mathlib.Data.List.Nodup
import Mathlib.Logic.Relation

/-!
# The hierarchy of classes

A class is compared with another along its parents, and nothing but the parents counts. On
classes alone this is an order : `c` is a subclass of `d` if and only if the line of `d` is the
end of the line of `c` (`Class.isSubclassOf_iff_suffix`). Reflexivity, transitivity,
antisymmetry and the comparability of two superclasses are those of the ends of a list.

What a class is, is its identity, and identities are given by a population. The invariant of the
populations that can come about (`Population.WellFormed`) : the identities are the numbers
below the count of classes, each given once, and parents were there before. It is preserved by
making a class (`Population.Next.wellFormed`), and from it follow the facts about identities :

* classes are equal if and only if they have one identity;
* a link leads from a class to an earlier one, so no walk has as many steps as there are
  classes (`Population.WellFormed.climb_eq_none`);
* `c` is a subclass of `d` if and only if the links lead from the identity of `c` to that of `d`
  (`Population.WellFormed.isSubclassOf_iff_below`). The links are pairs of numbers : what is
  said by them does not depend on names, and is still so after more classes are made.

`Population.Reachable.isHierarchy` puts these together, with what they mean for values : the
classes that a value belongs to are the line of its own class.
-/

namespace CallGuard

/-! ## The order of classes -/

namespace Class

/-- The line of a superclass is the end of the line of the class. -/
theorem ancestry_suffix_of_mem {c d : Class} (h : d ∈ c.ancestry) : d.ancestry <:+ c.ancestry := by
  induction c with
  | object =>
    obtain rfl := List.mem_singleton.1 h
    exact List.suffix_rfl
  | derived serial name parent ih =>
    rcases List.mem_cons.1 h with rfl | hparent
    · exact List.suffix_rfl
    · exact (ih hparent).trans (List.suffix_cons _ _)

theorem isSubclassOf_iff_suffix (c d : Class) :
    c.isSubclassOf d ↔ d.ancestry <:+ c.ancestry := by
  rw [isSubclassOf_iff]
  exact ⟨ancestry_suffix_of_mem, fun h => h.subset d.mem_ancestry_self⟩

theorem head?_ancestry (c : Class) : c.ancestry.head? = some c := by
  cases c <;> rfl

theorem ancestry_injective : Function.Injective ancestry := fun c d h => by
  simpa [head?_ancestry] using congrArg List.head? h

theorem isSubclassOf_refl (c : Class) : c.isSubclassOf c :=
  (isSubclassOf_iff c c).2 c.mem_ancestry_self

variable {c d e : Class}

theorem isSubclassOf_trans (hcd : c.isSubclassOf d) (hde : d.isSubclassOf e) :
    c.isSubclassOf e := by
  rw [isSubclassOf_iff_suffix] at *
  exact hde.trans hcd

theorem isSubclassOf_antisymm (hcd : c.isSubclassOf d) (hdc : d.isSubclassOf c) : c = d := by
  rw [isSubclassOf_iff_suffix] at *
  exact ancestry_injective (hdc.eq_of_length_le hcd.length_le)

theorem isSubclassOf_object (c : Class) : c.isSubclassOf object :=
  (isSubclassOf_iff c object).2 c.object_mem_ancestry

/-- Two superclasses of one class are on one line. -/
theorem isSubclassOf_or_of_common (hcd : c.isSubclassOf d) (hce : c.isSubclassOf e) :
    d.isSubclassOf e ∨ e.isSubclassOf d := by
  rw [isSubclassOf_iff_suffix] at hcd hce ⊢
  rw [isSubclassOf_iff_suffix]
  exact (List.suffix_or_suffix_of_suffix hcd hce).symm

theorem parent_mem_ancestry (h : c.parent? = some d) : d ∈ c.ancestry := by
  cases c with
  | object => cases h
  | derived serial name parent =>
    obtain rfl := Option.some.inj h
    exact List.mem_cons_of_mem _ parent.mem_ancestry_self

/-! ## The walk -/

/-- Where a number of steps from a class to its parent lead, if there are as many. -/
def climb : Nat → Class → Option Class
  | 0, c => some c
  | n + 1, c => c.parent?.bind (climb n)

/-- The walk meets what its steps lead to. -/
theorem isSubclassOf_iff_exists_climb (c d : Class) :
    c.isSubclassOf d ↔ ∃ n, c.climb n = some d := by
  induction c with
  | object =>
    rw [isSubclassOf, decide_eq_true_iff]
    constructor
    · intro h
      exact ⟨0, congrArg some h⟩
    · rintro ⟨n, hn⟩
      cases n with
      | zero => exact Option.some.inj hn
      | succ n => cases hn
  | derived serial name parent ih =>
    rw [isSubclassOf, Bool.or_eq_true, decide_eq_true_iff, ih]
    constructor
    · rintro (h | ⟨n, hn⟩)
      · exact ⟨0, congrArg some h⟩
      · exact ⟨n + 1, hn⟩
    · rintro ⟨n, hn⟩
      cases n with
      | zero => exact Or.inl (Option.some.inj hn)
      | succ n => exact Or.inr ⟨n, hn⟩

/-! ## Identities and names -/

/-- The number that a class is known by. -/
def identity : Class → Nat
  | object => 0
  | derived serial _ _ => serial + 1

/-- The class with other names, its own and those of its superclasses. -/
def rename (f : Class → String) : Class → Class
  | object => object
  | derived serial name parent =>
    derived serial (f (derived serial name parent)) (parent.rename f)

@[simp] theorem identity_rename (f : Class → String) (c : Class) :
    (c.rename f).identity = c.identity := by
  cases c <;> rfl

@[simp] theorem parent?_rename (f : Class → String) (c : Class) :
    (c.rename f).parent? = c.parent?.map (rename f) := by
  cases c <;> rfl

end Class

/-! ## Populations -/

namespace Population

variable {p q : Population} {c d : Class}

/-- One class is made. -/
inductive Next (p : Population) : Population → Prop
  | make (name : String) : Next p (p.make name).2
  | derive (name : String) {parent : Class} :
    parent ∈ p.classes → Next p (p.derive name parent).2

/-- The population comes about by making classes, from those that are always there. -/
def Reachable (p : Population) : Prop := Relation.ReflTransGen Next initial p

/-- The identity of each class that has a parent, with that of the parent. -/
def links (p : Population) : List (Nat × Nat) :=
  p.classes.filterMap fun c => c.parent?.map fun parent => (c.identity, parent.identity)

/-- The links lead from one identity to another, in any number of steps. -/
def Below (p : Population) : Nat → Nat → Prop :=
  Relation.ReflTransGen fun i j => (i, j) ∈ p.links

/-- The population with other names. -/
def rename (f : Class → String) (p : Population) : Population := ⟨p.classes.map (·.rename f)⟩

@[simp] theorem links_rename (f : Class → String) (p : Population) :
    (p.rename f).links = p.links := by
  simp [links, rename, List.filterMap_map, Function.comp_def]

theorem mem_links_iff {i j : Nat} : (i, j) ∈ p.links ↔
    ∃ c ∈ p.classes, ∃ parent, c.parent? = some parent ∧ c.identity = i ∧ parent.identity = j := by
  simp [links]

/-- What holds of the populations that come about. -/
structure WellFormed (p : Population) : Prop where
  object_mem : Class.object ∈ p.classes
  parent_mem : ∀ c ∈ p.classes, ∀ parent ∈ c.parent?, parent ∈ p.classes
  /-- Parents were made earlier. -/
  parent_lt : ∀ c ∈ p.classes, ∀ parent ∈ c.parent?, parent.identity < c.identity
  /-- The identities are counted from zero, the latest first. -/
  identities : p.classes.map Class.identity = (List.range p.classes.length).reverse

/-! ### Making classes -/

theorem wellFormed_initial : initial.WellFormed where
  object_mem := by decide
  parent_mem := by decide
  parent_lt := by decide
  identities := rfl

namespace WellFormed

theorem identity_lt (h : p.WellFormed) (hc : c ∈ p.classes) : c.identity < p.classes.length := by
  have hmem := List.mem_map_of_mem (f := Class.identity) hc
  rw [h.identities] at hmem
  simpa using hmem

theorem nodup_identities (h : p.WellFormed) : (p.classes.map Class.identity).Nodup := by
  rw [h.identities, List.nodup_reverse]
  exact List.nodup_range

theorem eq_of_identity_eq (h : p.WellFormed) (hc : c ∈ p.classes) (hd : d ∈ p.classes)
    (heq : c.identity = d.identity) : c = d :=
  List.inj_on_of_nodup_map h.nodup_identities hc hd heq

/-- The number given to a new class is the count of the classes before it. -/
theorem identity_derive (h : p.WellFormed) (name : String) (parent : Class) :
    (p.derive name parent).1.identity = p.classes.length := by
  have := List.length_pos_of_mem h.object_mem
  simp only [derive, Class.identity]
  omega

theorem derive (h : p.WellFormed) (name : String) {parent : Class} (hparent : parent ∈ p.classes) :
    (p.derive name parent).2.WellFormed where
  object_mem := List.mem_cons_of_mem _ h.object_mem
  parent_mem := by
    intro c hc above habove
    rcases List.mem_cons.1 hc with rfl | hold
    · obtain rfl := Option.some.inj habove
      exact List.mem_cons_of_mem _ hparent
    · exact List.mem_cons_of_mem _ (h.parent_mem c hold above habove)
  parent_lt := by
    intro c hc above habove
    rcases List.mem_cons.1 hc with rfl | hold
    · obtain rfl := Option.some.inj habove
      exact Nat.lt_of_lt_of_eq (h.identity_lt hparent) (h.identity_derive name parent).symm
    · exact h.parent_lt c hold above habove
  identities := by
    have hnew := h.identity_derive name parent
    simp only [Population.derive, List.map_cons, List.length_cons] at hnew ⊢
    rw [hnew, h.identities, List.range_succ, List.reverse_concat]

end WellFormed

/-- The invariant is preserved by making a class. -/
theorem Next.wellFormed (hnext : p.Next q) (h : p.WellFormed) : q.WellFormed := by
  cases hnext with
  | make name => exact h.derive name h.object_mem
  | derive name hparent => exact h.derive name hparent

theorem wellFormed_of_path (hpath : Relation.ReflTransGen Next p q) (h : p.WellFormed) :
    q.WellFormed := by
  induction hpath with
  | refl => exact h
  | tail _ hnext ih => exact hnext.wellFormed ih

theorem Reachable.wellFormed (h : p.Reachable) : p.WellFormed :=
  wellFormed_of_path h wellFormed_initial

/-- Making a class puts it before the others. -/
theorem Next.suffix (hnext : p.Next q) : p.classes <:+ q.classes := by
  cases hnext <;> exact List.suffix_cons _ _

theorem suffix_of_path (hpath : Relation.ReflTransGen Next p q) : p.classes <:+ q.classes := by
  induction hpath with
  | refl => exact List.suffix_rfl
  | tail _ hnext ih => exact ih.trans hnext.suffix

/-! ### Links and walks -/

namespace WellFormed

theorem ancestry_subset (h : p.WellFormed) (hc : c ∈ p.classes) : c.ancestry ⊆ p.classes := by
  induction c with
  | object => simpa [Class.ancestry] using hc
  | derived serial name parent ih =>
    exact List.cons_subset.2 ⟨hc, ih (h.parent_mem _ hc parent rfl)⟩

theorem below_of_mem_ancestry (h : p.WellFormed) (hc : c ∈ p.classes) (hd : d ∈ c.ancestry) :
    p.Below c.identity d.identity := by
  induction c with
  | object =>
    obtain rfl := List.mem_singleton.1 hd
    exact .refl
  | derived serial name parent ih =>
    rcases List.mem_cons.1 hd with rfl | hparent
    · exact .refl
    · have hlink := mem_links_iff.2 ⟨_, hc, parent, rfl, rfl, rfl⟩
      exact .head hlink (ih (h.parent_mem _ hc parent rfl) hparent)

/-- What the links lead to from a class is on its line : a link leads on from the class that the
line has come to, since no other class has its identity. -/
theorem exists_mem_ancestry_of_below (h : p.WellFormed) (hc : c ∈ p.classes) {j : Nat}
    (hbelow : p.Below c.identity j) : ∃ d ∈ c.ancestry, d.identity = j := by
  induction hbelow with
  | refl => exact ⟨c, c.mem_ancestry_self, rfl⟩
  | tail _ hlink ih =>
    obtain ⟨d, hd, hdi⟩ := ih
    obtain ⟨e, he, parent, hparent, hei, rfl⟩ := mem_links_iff.1 hlink
    have hed : e = d := h.eq_of_identity_eq he (h.ancestry_subset hc hd) (hei.trans hdi.symm)
    have hmem := Class.parent_mem_ancestry hparent
    exact ⟨parent, (Class.ancestry_suffix_of_mem hd).subset (hed ▸ hmem), rfl⟩

theorem isSubclassOf_iff_below (h : p.WellFormed) (hc : c ∈ p.classes) (hd : d ∈ p.classes) :
    c.isSubclassOf d ↔ p.Below c.identity d.identity := by
  rw [Class.isSubclassOf_iff]
  refine ⟨h.below_of_mem_ancestry hc, fun hbelow => ?_⟩
  obtain ⟨e, he, heq⟩ := h.exists_mem_ancestry_of_below hc hbelow
  rwa [← h.eq_of_identity_eq (h.ancestry_subset hc he) hd heq]

theorem below_iff_of_path (h : p.WellFormed) (hpath : Relation.ReflTransGen Next p q)
    (hc : c ∈ p.classes) (hd : d ∈ p.classes) :
    q.Below c.identity d.identity ↔ p.Below c.identity d.identity := by
  have hold := suffix_of_path hpath
  rw [← h.isSubclassOf_iff_below hc hd,
    (wellFormed_of_path hpath h).isSubclassOf_iff_below (hold.subset hc) (hold.subset hd)]

theorem lt_of_mem_links (h : p.WellFormed) {i j : Nat} (hlink : (i, j) ∈ p.links) : j < i := by
  obtain ⟨c, hc, parent, hparent, rfl, rfl⟩ := mem_links_iff.1 hlink
  exact h.parent_lt c hc parent hparent

theorem wellFounded_links (h : p.WellFormed) : WellFounded fun j i => (i, j) ∈ p.links :=
  Subrelation.wf h.lt_of_mem_links Nat.lt_wfRel.wf

/-- Each step leads to a smaller identity, so there are no more steps than the identity says. -/
theorem climb_eq_none (h : p.WellFormed) {n : Nat} (hc : c ∈ p.classes) (hn : c.identity < n) :
    c.climb n = none := by
  induction n generalizing c with
  | zero => omega
  | succ n ih =>
    rw [Class.climb]
    cases hparent : c.parent? with
    | none => rfl
    | some parent =>
      have hlt := h.parent_lt c hc parent hparent
      exact ih (h.parent_mem c hc parent hparent) (by omega)

theorem climb_length_eq_none (h : p.WellFormed) (hc : c ∈ p.classes) {n : Nat}
    (hn : p.classes.length ≤ n) : c.climb n = none :=
  h.climb_eq_none hc (Nat.lt_of_lt_of_le (h.identity_lt hc) hn)

theorem isSubclassOf_iff_exists_climb (h : p.WellFormed) (hc : c ∈ p.classes) (d : Class) :
    c.isSubclassOf d ↔ ∃ n < p.classes.length, c.climb n = some d := by
  rw [Class.isSubclassOf_iff_exists_climb]
  constructor
  · rintro ⟨n, hn⟩
    refine ⟨n, ?_, hn⟩
    by_contra hle
    rw [h.climb_length_eq_none hc (Nat.le_of_not_lt hle)] at hn
    cases hn
  · rintro ⟨n, -, hn⟩
    exact ⟨n, hn⟩

/-! ### Names -/

/-- In two populations with the same links, whatever the names in them are, classes of the same
identities are related in the same way. -/
theorem isSubclassOf_eq_of_links_eq (hp : p.WellFormed) (hq : q.WellFormed)
    (hlinks : p.links = q.links) {c' d' : Class} (hc : c ∈ p.classes) (hd : d ∈ p.classes)
    (hc' : c' ∈ q.classes) (hd' : d' ∈ q.classes) (hci : c.identity = c'.identity)
    (hdi : d.identity = d'.identity) : c.isSubclassOf d = c'.isSubclassOf d' := by
  rw [Bool.eq_iff_iff, hp.isSubclassOf_iff_below hc hd, hq.isSubclassOf_iff_below hc' hd', Below,
    Below, hlinks, hci, hdi]

theorem rename (h : p.WellFormed) (f : Class → String) : (p.rename f).WellFormed where
  object_mem := List.mem_map.2 ⟨.object, h.object_mem, rfl⟩
  parent_mem := by
    intro _ hrenamed _ hparent
    obtain ⟨c, hc, rfl⟩ := List.mem_map.1 hrenamed
    obtain ⟨parent, habove, rfl⟩ := Option.map_eq_some_iff.1 (c.parent?_rename f ▸ hparent)
    exact List.mem_map_of_mem (h.parent_mem c hc parent habove)
  parent_lt := by
    intro _ hrenamed _ hparent
    obtain ⟨c, hc, rfl⟩ := List.mem_map.1 hrenamed
    obtain ⟨parent, habove, rfl⟩ := Option.map_eq_some_iff.1 (c.parent?_rename f ▸ hparent)
    simpa using h.parent_lt c hc parent habove
  identities := by
    simpa [Population.rename, Function.comp_def] using h.identities

theorem isSubclassOf_rename (h : p.WellFormed) (f : Class → String) (hc : c ∈ p.classes)
    (hd : d ∈ p.classes) : (c.rename f).isSubclassOf (d.rename f) = c.isSubclassOf d :=
  (h.rename f).isSubclassOf_eq_of_links_eq h (links_rename f p) (List.mem_map_of_mem hc)
    (List.mem_map_of_mem hd) hc hd (c.identity_rename f) (d.identity_rename f)

end WellFormed

theorem rename_derive (f : Class → String) (p : Population) (name : String) (parent : Class) :
    (p.derive name parent).2.rename f =
      ((p.rename f).derive (f (p.derive name parent).1) (parent.rename f)).2 := by
  simp [rename, derive, Class.rename]

/-- A class can be made under another name. -/
theorem Next.rename (f : Class → String) (hnext : p.Next q) :
    (p.rename f).Next (q.rename f) := by
  cases hnext with
  | make name =>
    rw [Population.make, rename_derive]
    exact .make _
  | derive name hparent =>
    rw [rename_derive]
    exact .derive _ (List.mem_map_of_mem hparent)

theorem Reachable.rename {f : Class → String} (hf : initial.rename f = initial)
    (h : p.Reachable) : (p.rename f).Reachable := by
  induction h with
  | refl =>
    rw [hf]
    exact .refl
  | tail _ hnext ih => exact .tail ih (hnext.rename f)

end Population

/-! ## Classes of values -/

namespace Value

/-- The values that belong to no class. -/
def isPrimitive : Value → Bool
  | undefined | null | bool _ | number _ | string _ | symbol _ => true
  | _ => false

theorem isInstanceOf_object (v : Value) : v.isInstanceOf .object = !v.isPrimitive := by
  cases v <;> simp [isInstanceOf, ownClass?, isPrimitive, Class.isSubclassOf_object]

variable {v : Value} {c d : Class}

theorem isInstanceOf_of_isSubclassOf (hcd : c.isSubclassOf d) (hc : v.isInstanceOf c) :
    v.isInstanceOf d := by
  rw [isInstanceOf_iff_exists] at hc ⊢
  obtain ⟨own, hown, hsub⟩ := hc
  exact ⟨own, hown, Class.isSubclassOf_trans hsub hcd⟩

theorem isSubclassOf_or_of_isInstanceOf (hc : v.isInstanceOf c) (hd : v.isInstanceOf d) :
    c.isSubclassOf d ∨ d.isSubclassOf c := by
  obtain ⟨own, hown, hsub⟩ := (isInstanceOf_iff_exists v c).1 hc
  obtain ⟨own', hown', hsub'⟩ := (isInstanceOf_iff_exists v d).1 hd
  obtain rfl := Option.some.inj (hown.symm.trans hown')
  exact Class.isSubclassOf_or_of_common hsub hsub'

/-- A value that belongs to any class belongs to `Object`, and no primitive value does. -/
theorem forall_isInstanceOf_eq_false_iff (v : Value) :
    (∀ c, v.isInstanceOf c = false) ↔ v.isPrimitive := by
  refine ⟨fun h => by simpa [isInstanceOf_object] using h .object, fun hv c => ?_⟩
  rw [Bool.eq_false_iff]
  intro hc
  have hobject := isInstanceOf_of_isSubclassOf c.isSubclassOf_object hc
  simp [isInstanceOf_object, hv] at hobject

/-- The classes that a value belongs to are a chain. -/
structure HasClassChain (v : Value) : Prop where
  /-- With a class it has the superclasses in it. -/
  of_isSubclassOf : ∀ c d, c.isSubclassOf d → v.isInstanceOf c → v.isInstanceOf d
  comparable : ∀ c d, v.isInstanceOf c → v.isInstanceOf d → c.isSubclassOf d ∨ d.isSubclassOf c
  empty_iff : (∀ c, v.isInstanceOf c = false) ↔ v.isPrimitive
  object_of_not_primitive : v.isPrimitive = false → v.isInstanceOf .object

theorem hasClassChain (v : Value) : v.HasClassChain where
  of_isSubclassOf _ _ := isInstanceOf_of_isSubclassOf
  comparable _ _ := isSubclassOf_or_of_isInstanceOf
  empty_iff := v.forall_isInstanceOf_eq_false_iff
  object_of_not_primitive hv := by rw [isInstanceOf_object, hv, Bool.not_false]

end Value

/-! ## The hierarchy -/

namespace Population

variable {p : Population}

/-- What there is to say of the classes of a population and their order. -/
structure IsHierarchy (p : Population) : Prop where
  /-- No identity is given twice. -/
  nodup_identities : (p.classes.map Class.identity).Nodup
  /-- No walk has as many steps as there are classes. -/
  walk_ends : ∀ c ∈ p.classes, ∀ n, p.classes.length ≤ n → c.climb n = none
  wellFounded_links : WellFounded fun j i => (i, j) ∈ p.links
  /-- The subclasses are those from which the walk meets the class. -/
  isSubclassOf_iff_climb : ∀ c ∈ p.classes, ∀ d,
    c.isSubclassOf d ↔ ∃ n < p.classes.length, c.climb n = some d
  /-- They are those from which the links lead to it. -/
  isSubclassOf_iff_below : ∀ c ∈ p.classes, ∀ d ∈ p.classes,
    c.isSubclassOf d ↔ p.Below c.identity d.identity
  refl : ∀ c ∈ p.classes, c.isSubclassOf c
  trans : ∀ c ∈ p.classes, ∀ d ∈ p.classes, ∀ e ∈ p.classes,
    c.isSubclassOf d → d.isSubclassOf e → c.isSubclassOf e
  antisymm : ∀ c ∈ p.classes, ∀ d ∈ p.classes,
    c.isSubclassOf d → d.isSubclassOf c → c = d
  object_mem : Class.object ∈ p.classes
  isSubclassOf_object : ∀ c ∈ p.classes, c.isSubclassOf .object
  comparable : ∀ c ∈ p.classes, ∀ d ∈ p.classes, ∀ e ∈ p.classes,
    c.isSubclassOf d → c.isSubclassOf e → d.isSubclassOf e ∨ e.isSubclassOf d
  /-- Classes made later change nothing between those that are there. -/
  stable : ∀ q, Relation.ReflTransGen Next p q →
    p.classes <:+ q.classes ∧ ∀ c ∈ p.classes, ∀ d ∈ p.classes,
      q.Below c.identity d.identity ↔ p.Below c.identity d.identity
  /-- In any other population with the same links it is the same, by identities. -/
  of_links_eq : ∀ q : Population, q.Reachable → p.links = q.links →
    ∀ c ∈ p.classes, ∀ d ∈ p.classes, ∀ c' ∈ q.classes, ∀ d' ∈ q.classes,
      c.identity = c'.identity → d.identity = d'.identity →
        c.isSubclassOf d = c'.isSubclassOf d'
  /-- The same classes can be made under any names, except that some are there from the start. -/
  rename_reachable : ∀ f : Class → String,
    initial.rename f = initial → (p.rename f).Reachable
  /-- Other names make no other links and no other subclasses. -/
  rename : ∀ f : Class → String, (p.rename f).links = p.links ∧
    ∀ c ∈ p.classes, ∀ d ∈ p.classes,
      (c.rename f).isSubclassOf (d.rename f) = c.isSubclassOf d

theorem Reachable.hierarchy (h : p.Reachable) : p.IsHierarchy where
  nodup_identities := h.wellFormed.nodup_identities
  walk_ends _ hc _ := h.wellFormed.climb_length_eq_none hc
  wellFounded_links := h.wellFormed.wellFounded_links
  isSubclassOf_iff_climb _ hc := h.wellFormed.isSubclassOf_iff_exists_climb hc
  isSubclassOf_iff_below _ hc _ hd := h.wellFormed.isSubclassOf_iff_below hc hd
  refl c _ := c.isSubclassOf_refl
  trans _ _ _ _ _ _ := Class.isSubclassOf_trans
  antisymm _ _ _ _ := Class.isSubclassOf_antisymm
  object_mem := h.wellFormed.object_mem
  isSubclassOf_object c _ := c.isSubclassOf_object
  comparable _ _ _ _ _ _ := Class.isSubclassOf_or_of_common
  stable _ hpath :=
    ⟨suffix_of_path hpath, fun _ hc _ hd => h.wellFormed.below_iff_of_path hpath hc hd⟩
  of_links_eq _ hq hlinks _ hc _ hd _ hc' _ hd' :=
    h.wellFormed.isSubclassOf_eq_of_links_eq hq.wellFormed hlinks hc hd hc' hd'
  rename_reachable _ hf := h.rename hf
  rename f := ⟨links_rename f p, fun _ hc _ hd => h.wellFormed.isSubclassOf_rename f hc hd⟩

/-- However classes are made, they are a hierarchy under `Object`, by identity and not by name,
and each value belongs to a chain of it. -/
theorem Reachable.isHierarchy (h : p.Reachable) :
    p.IsHierarchy ∧ ∀ v : Value, v.HasClassChain :=
  ⟨h.hierarchy, Value.hasClassChain⟩

/-- Two classes named as the class of dates, one made under the other. -/
theorem Reachable.isHierarchy_of_namesakes :
    let outer := Class.derived 4 "Date" .object
    let inner := Class.derived 5 "Date" outer
    let p := ((initial.make "Date").2.derive "Date" outer).2
    let v := Value.object (some inner) .empty
    p.Reachable ∧ p.Below inner.identity outer.identity ∧
      ¬ p.Below outer.identity Class.date.identity ∧
      v.isInstanceOf outer ∧ v.isInstanceOf .date = false := by
  intro outer inner p v
  have hp : p.Reachable := .tail (.single (.make "Date")) (.derive "Date" (by decide))
  obtain ⟨hierarchy, hv⟩ := hp.isHierarchy
  have hbelow := hierarchy.isSubclassOf_iff_below
  refine ⟨hp, ?_, ?_, ?_, by decide⟩
  · exact (hbelow inner (by decide) outer (by decide)).1 (by decide)
  · exact (hbelow outer (by decide) .date (by decide)).not.1 (by decide)
  · exact (hv v).of_isSubclassOf inner outer (by decide) (by decide)

end Population

end CallGuard
