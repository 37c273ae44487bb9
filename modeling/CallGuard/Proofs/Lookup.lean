import CallGuard.Properties
import Mathlib.Data.List.Perm.Subperm

/-!
# Looking properties up

The keys of properties are distinct, so a pair is on the list exactly if its value is
found under its key (`Properties.mem_toList_iff`), and what stands before a pair has
other keys. A map that is written from a list of pairs has under each key the last
value that the list has for it (`Properties.get?_ofList`). Pairs with new and distinct
keys are put behind what is there (`Properties.toList_insertAll`), so that a map is
written again by its own pairs (`Properties.ofList_toList`).

Two maps are compared key by key (`Properties.Rel`), whatever the orders of their keys.
If they are of the same size, it is enough to go through one of them and to look its
keys up in the other (`Properties.rel_iff`) : distinct keys among no more others leave
none over.
-/

namespace CallGuard

universe u v

variable {α : Type u} {β : Type v}

theorem lookup_eq_some_iff_mem {l : List (String × α)} (h : (l.map Prod.fst).Nodup) {key : String}
    {a : α} : l.lookup key = some a ↔ (key, a) ∈ l := by
  rw [List.lookup_eq_some_iff]
  constructor
  · rintro ⟨before, after, rfl, -⟩
    simp
  · intro hm
    obtain ⟨before, after, rfl⟩ := List.append_of_mem hm
    refine ⟨before, after, rfl, fun p hp => ?_⟩
    rw [List.map_append, List.nodup_append] at h
    have hne := h.2.2 p.1 (List.mem_map_of_mem hp) key (by simp)
    simpa using fun e => hne e.symm

namespace Properties

variable (p : Properties α)

theorem nodup_map_fst_toList : (p.toList.map Prod.fst).Nodup := by
  rw [map_fst_toList]
  exact p.nodup

/-- A pair is on the list if and only if its value is found under its key. -/
theorem mem_toList_iff {key : String} {a : α} : (key, a) ∈ p.toList ↔ p.get? key = some a :=
  (lookup_eq_some_iff_mem p.nodup_map_fst_toList).symm

theorem get?_insertAll (pairs : List (String × α)) (key : String) :
    (p.insertAll pairs).get? key = (pairs.reverse.lookup key).or (p.get? key) := by
  induction pairs generalizing p with
  | nil => rfl
  | cons pair pairs ih =>
    have h : p.insertAll (pair :: pairs) = (p.insert pair.1 pair.2).insertAll pairs := rfl
    rw [h, ih, get?_insert, List.reverse_cons, List.lookup_append, Option.or_assoc]
    congr 1
    by_cases hk : key = pair.1
    · subst hk
      rw [if_pos rfl, List.lookup_cons, beq_self_eq_true, Option.some_or]
    · have hb : (key == pair.1) = false := by simpa using hk
      rw [if_neg hk, List.lookup_cons, hb, List.lookup_nil, Option.none_or]

/-- A map written from pairs has the last value that the pairs have for a key. -/
theorem get?_ofList (pairs : List (String × α)) (key : String) :
    (ofList pairs).get? key = pairs.reverse.lookup key := by
  rw [ofList, get?_insertAll]
  exact Option.or_none

theorem mem_keys_iff {key : String} : key ∈ p.keys ↔ ∃ a, p.get? key = some a := by
  rw [← map_fst_toList, List.mem_map]
  constructor
  · rintro ⟨⟨_, a⟩, h, rfl⟩
    exact ⟨a, p.mem_toList_iff.1 h⟩
  · rintro ⟨a, h⟩
    exact ⟨(key, a), p.mem_toList_iff.2 h, rfl⟩

theorem get?_eq_none_iff {key : String} : p.get? key = none ↔ key ∉ p.keys := by
  rw [mem_keys_iff, ← Option.isSome_iff_exists, Option.not_isSome_iff_eq_none]

/-- The keys that are there are the ones that are written. -/
theorem mem_keys_ofList {pairs : List (String × α)} {key : String} :
    key ∈ (ofList pairs).keys ↔ key ∈ pairs.map Prod.fst := by
  rw [← not_iff_not, ← get?_eq_none_iff, get?_ofList, List.lookup_eq_none_iff]
  simp only [List.mem_reverse, bne_iff_ne, List.mem_map, not_exists, not_and]
  exact forall₂_congr fun pair _ => ne_comm

theorem place_of_lookup {l : List (String × α)} {key : String} {a : α}
    (h : l.lookup key = some a) : place key a l = l := by
  induction l with
  | nil => cases h
  | cons pair l ih =>
    obtain ⟨k, b⟩ := pair
    rw [List.lookup_cons] at h
    by_cases hk : k = key
    · subst hk
      rw [beq_self_eq_true] at h
      cases h
      exact if_pos rfl
    · have hb : (key == k) = false := by simpa using fun e => hk e.symm
      rw [hb] at h
      rw [place, if_neg hk, ih h]

/-- Writing what is there changes nothing. -/
theorem insert_of_get? {key : String} {a : α} (h : p.get? key = some a) : p.insert key a = p := by
  apply ext_toList
  rw [toList_insert]
  exact place_of_lookup h

/-! ## Writing pairs in order -/

theorem place_of_not_mem {key : String} {pairs : List (String × α)}
    (h : key ∉ pairs.map Prod.fst) (value : α) :
    place key value pairs = pairs ++ [(key, value)] := by
  induction pairs with
  | nil => rfl
  | cons pair pairs ih =>
    rw [List.map_cons, List.mem_cons, not_or] at h
    rw [place, if_neg fun e => h.1 e.symm, ih h.2]
    rfl

/-- Pairs with new and distinct keys are put behind what is there. -/
theorem toList_insertAll {pairs : List (String × α)} {p : Properties α}
    (h : (p.keys ++ pairs.map Prod.fst).Nodup) :
    (p.insertAll pairs).toList = p.toList ++ pairs := by
  induction pairs generalizing p with
  | nil => exact (List.append_nil _).symm
  | cons pair pairs ih =>
    have hnew : pair.1 ∉ p.keys := fun hmem =>
      (List.nodup_append.1 h).2.2 _ hmem _ List.mem_cons_self rfl
    have hinsert : (p.insert pair.1 pair.2).toList = p.toList ++ [pair] := by
      rw [toList_insert, place_of_not_mem (by rwa [map_fst_toList])]
    have hkeys : (p.insert pair.1 pair.2).keys = p.keys ++ [pair.1] := by
      rw [keys_insert, if_neg hnew]
    show ((p.insert pair.1 pair.2).insertAll pairs).toList = _
    rw [ih (by simpa [hkeys] using h), hinsert, List.append_assoc]
    rfl

/-- The pairs of a map, written in order, give that map. -/
theorem ofList_toList : ofList p.toList = p := by
  apply ext_toList
  rw [ofList, toList_insertAll]
  · rfl
  · rw [map_fst_toList]
    exact p.nodup

theorem insertAll_append (pairs more : List (String × α)) :
    p.insertAll (pairs ++ more) = (p.insertAll pairs).insertAll more :=
  List.foldl_append

/-! ## Maps with related values -/

/-- Two maps have the same keys, in whatever order, and related values under them. -/
structure Rel (R : α → β → Prop) (p : Properties α) (q : Properties β) : Prop where
  /-- The keys are the same. -/
  perm_keys : p.keys.Perm q.keys
  /-- The two values under a key are related. -/
  rel_get? : ∀ key a b, p.get? key = some a → q.get? key = some b → R a b

variable {p} {q : Properties β} {R : α → β → Prop}

theorem exists_get?_of_perm_keys (h : p.keys.Perm q.keys) {key : String} {a : α}
    (ha : p.get? key = some a) : ∃ b, q.get? key = some b :=
  q.mem_keys_iff.1 (h.subset (p.mem_keys_iff.2 ⟨a, ha⟩))

/-- Between maps of the same size it is enough to look the keys of one up in the other. -/
theorem rel_iff : p.Rel R q ↔
    p.size = q.size ∧ ∀ pair ∈ p.toList, ∃ b, q.get? pair.1 = some b ∧ R pair.2 b := by
  constructor
  · intro h
    refine ⟨h.perm_keys.length_eq, fun pair hpair => ?_⟩
    have ha := p.mem_toList_iff.1 hpair
    obtain ⟨b, hb⟩ := exists_get?_of_perm_keys h.perm_keys ha
    exact ⟨b, hb, h.rel_get? _ _ _ ha hb⟩
  · rintro ⟨hsize, h⟩
    have hsubset : p.keys ⊆ q.keys := by
      intro key hkey
      obtain ⟨a, ha⟩ := p.mem_keys_iff.1 hkey
      obtain ⟨b, hb, -⟩ := h (key, a) (p.mem_toList_iff.2 ha)
      exact q.mem_keys_iff.2 ⟨b, hb⟩
    -- Distinct keys among no more others are all of them.
    refine ⟨(p.nodup.subperm hsubset).perm_of_length_le (Nat.le_of_eq hsize.symm), ?_⟩
    intro key a b ha hb
    obtain ⟨b', hb', hab⟩ := h (key, a) (p.mem_toList_iff.2 ha)
    rw [hb, Option.some.injEq] at hb'
    exact hb' ▸ hab

theorem rel_map_left_iff {f : α → β} {R : β → α → Prop} :
    (p.map f).Rel R p ↔ ∀ pair ∈ p.toList, R (f pair.2) pair.2 := by
  constructor
  · intro h pair hpair
    have hget := p.mem_toList_iff.1 hpair
    exact h.rel_get? pair.1 _ _ (by rw [get?_map, hget, Option.map_some]) hget
  · refine fun h => ⟨List.Perm.refl _, fun key b a hb ha => ?_⟩
    rw [get?_map, ha, Option.map_some, Option.some.injEq] at hb
    exact hb ▸ h (key, a) (p.mem_toList_iff.2 ha)

/-- Maps have the same keys and related values if and only if what they have under each key is
related. -/
theorem rel_iff_forall_get? : p.Rel R q ↔ ∀ key, Option.Rel R (p.get? key) (q.get? key) := by
  constructor
  · intro h key
    cases ha : p.get? key with
    | none =>
      have hkey : key ∉ q.keys := fun hq => p.get?_eq_none_iff.1 ha (h.perm_keys.mem_iff.2 hq)
      rw [q.get?_eq_none_iff.2 hkey]
      exact .none
    | some a =>
      obtain ⟨b, hb⟩ := exists_get?_of_perm_keys h.perm_keys ha
      rw [hb]
      exact .some (h.rel_get? key a b ha hb)
  · intro h
    refine ⟨(List.perm_ext_iff_of_nodup p.nodup q.nodup).2 fun key => ?_, fun key a b ha hb => ?_⟩
    · have hrel := h key
      rw [← not_iff_not, ← get?_eq_none_iff, ← get?_eq_none_iff]
      generalize p.get? key = a?, q.get? key = b? at hrel
      cases hrel <;> simp
    · have hrel := h key
      rw [ha, hb] at hrel
      cases hrel
      assumption

end Properties

end CallGuard
