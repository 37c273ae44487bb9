import CallGuard.Proofs.Reflexivity
import Mathlib.Data.Finset.Card

/-!
# Objects by their histories

An object is built by writing into an empty one (`Object.build`) : one property after another,
with or without a look at what was there before, or many that are collected. However it is
built, it holds what was written (`Object.Holds`) : every key once, in the order in which keys
were first written, each with the value that was written last.

Whatever the way, writing comes to putting pairs into a map one by one
(`Write.properties_apply`), so that an object has the properties that the pairs of its history
make (`Object.properties_build`). What such a map holds is an induction over the pairs from the
last one back : the last pair leaves the order of the keys as it is, or its key is new and comes
behind all others, as it does among the pairs (`Properties.pairwise_keys_ofList`).

The order is all that is left of a history besides the values : two objects of one class are
equal if and only if they have values under the same keys that are alike, and hold no NaN
(`Object.strictEq_iff`).
-/

namespace CallGuard

universe u

/-! ## Maps by the pairs that are written -/

namespace Properties

variable {α : Type u} {pairs : List (String × α)} {key : String} {value : α}

theorem ofList_append_singleton (pairs : List (String × α)) (pair : String × α) :
    ofList (pairs ++ [pair]) = (ofList pairs).insert pair.1 pair.2 :=
  insertAll_append _ pairs [pair]

/-- The value under a key is the last one that is written there. -/
theorem get?_ofList_eq_some_iff : (ofList pairs).get? key = some value ↔
    ∃ before after, pairs = before ++ (key, value) :: after ∧ key ∉ after.map Prod.fst := by
  rw [get?_ofList, List.lookup_eq_some_iff]
  constructor
  · rintro ⟨after, before, heq, hafter⟩
    refine ⟨before.reverse, after.reverse, by simpa using congrArg List.reverse heq, ?_⟩
    intro h
    obtain ⟨pair, hpair, rfl⟩ := List.mem_map.1 h
    simpa using hafter pair (List.mem_reverse.1 hpair)
  · rintro ⟨before, after, rfl, hafter⟩
    refine ⟨after.reverse, before.reverse, by simp, fun pair hpair => ?_⟩
    rw [bne_iff_ne]
    rintro rfl
    exact hafter (List.mem_map_of_mem (List.mem_reverse.1 hpair))

/-- The keys are in the order in which they are first written. -/
theorem pairwise_keys_ofList (pairs : List (String × α)) :
    (ofList pairs).keys.Pairwise fun j k =>
      (pairs.map Prod.fst).idxOf j < (pairs.map Prod.fst).idxOf k := by
  induction pairs using List.reverseRecOn with
  | nil => exact .nil
  | append_singleton pairs pair ih =>
    have hfirst : ∀ k ∈ (ofList pairs).keys,
        ((pairs ++ [pair]).map Prod.fst).idxOf k = (pairs.map Prod.fst).idxOf k := fun k hk => by
      rw [List.map_append, List.idxOf_append_of_mem (mem_keys_ofList.1 hk)]
    have hkeys : (ofList pairs).keys.Pairwise fun j k =>
        ((pairs ++ [pair]).map Prod.fst).idxOf j < ((pairs ++ [pair]).map Prod.fst).idxOf k :=
      ih.imp_of_mem fun hj hk h => by rwa [hfirst _ hj, hfirst _ hk]
    rw [ofList_append_singleton, keys_insert]
    split
    · exact hkeys
    · rename_i hnew
      -- A new key stands behind all others, in the map as among the pairs.
      refine List.pairwise_append.2 ⟨hkeys, List.pairwise_singleton _ _, fun j hj k hk => ?_⟩
      rw [List.mem_singleton.1 hk, hfirst j hj, List.map_append,
        List.idxOf_append_of_notMem (mt mem_keys_ofList.2 hnew)]
      exact (List.idxOf_lt_length_iff.2 (mem_keys_ofList.1 hj)).trans_le (Nat.le_add_right _ _)

/-- There are as many keys as different ones are written. -/
theorem size_ofList (pairs : List (String × α)) :
    (ofList pairs).size = (pairs.map Prod.fst).toFinset.card := by
  rw [size, ← List.toFinset_card_of_nodup (ofList pairs).nodup]
  congr 1
  ext key
  rw [List.mem_toFinset, List.mem_toFinset, mem_keys_ofList]

theorem filter_place (key : String) (value : α) (pairs : List (String × α)) :
    (place key value pairs).filter (·.1 ≠ key) = pairs.filter (·.1 ≠ key) := by
  induction pairs with
  | nil => simp [place]
  | cons pair pairs ih =>
    rw [place]
    split
    · rename_i h
      simp [h]
    · rw [List.filter_cons, List.filter_cons, ih]

end Properties

/-! ## Writing into objects -/

namespace Object

/-- A way to write into an object. -/
inductive Write
  /-- One property. -/
  | insert (key : String) (value : Value)
  /-- One property, for what was there before. -/
  | exchange (key : String) (value : Value)
  /-- Pairs, collected behind those that are there into an object of no class. -/
  | collect (pairs : List (String × Value))

namespace Write

/-- The object after writing. -/
def apply : Write → Object → Object
  | insert key value, o => o.insert key value
  | exchange key value, o => (o.exchange key value).2
  | collect pairs, o => ofPairs (o.properties.toList ++ pairs)

/-- What is written, in order. -/
def pairs : Write → List (String × Value)
  | insert key value => [(key, value)]
  | exchange key value => [(key, value)]
  | collect pairs => pairs

/-- Whether an object of no class is made. -/
def collects : Write → Bool
  | collect _ => true
  | _ => false

/-- Whatever the way, the pairs are written one by one. -/
theorem properties_apply (w : Write) (o : Object) :
    (w.apply o).properties = o.properties.insertAll w.pairs := by
  cases w with
  | insert key value => rfl
  | exchange key value => rfl
  | collect pairs =>
    show Properties.ofList (o.properties.toList ++ pairs) = o.properties.insertAll pairs
    rw [Properties.ofList, Properties.insertAll_append]
    exact congrArg (·.insertAll pairs) o.properties.ofList_toList

theorem class?_apply (w : Write) (o : Object) :
    (w.apply o).class? = if w.collects then none else o.class? := by
  cases w <;> rfl

end Write

/-- The object that a history makes of an empty one. -/
def build (class? : Option Class) (history : List Write) : Object :=
  history.foldl (fun o w => w.apply o) (ofClass class?)

/-- All that a history writes, in order. -/
def written (history : List Write) : List (String × Value) := history.flatMap Write.pairs

theorem written_cons (w : Write) (history : List Write) :
    written (w :: history) = w.pairs ++ written history :=
  List.flatMap_cons

theorem properties_foldl_apply (history : List Write) (o : Object) :
    (history.foldl (fun o w => w.apply o) o).properties =
      o.properties.insertAll (written history) := by
  induction history generalizing o with
  | nil => rfl
  | cons w history ih =>
    rw [List.foldl_cons, ih, w.properties_apply, written_cons, Properties.insertAll_append]

theorem class?_foldl_apply (history : List Write) (o : Object) :
    (history.foldl (fun o w => w.apply o) o).class? =
      if history.any Write.collects then none else o.class? := by
  induction history generalizing o with
  | nil => rfl
  | cons w history ih =>
    rw [List.foldl_cons, ih, w.class?_apply, List.any_cons]
    cases w.collects <;> simp

/-- An object has the properties that the pairs of its history make. -/
theorem properties_build (class? : Option Class) (history : List Write) :
    (build class? history).properties = .ofList (written history) :=
  properties_foldl_apply history (ofClass class?)

/-- An object keeps the class it is given, unless its pairs are collected. -/
theorem class?_build (class? : Option Class) (history : List Write) :
    (build class? history).class? = if history.any Write.collects then none else class? :=
  class?_foldl_apply history (ofClass class?)

/-- An object holds what was written : the last value under every key, in the order in which keys
were first written. -/
structure Holds (o : Object) (written : List (String × Value)) : Prop where
  /-- Every key is there once. -/
  nodup_keys : o.keys.Nodup
  /-- The keys are in the order in which they were first written. -/
  pairwise_keys : o.keys.Pairwise fun j k =>
    (written.map Prod.fst).idxOf j < (written.map Prod.fst).idxOf k
  /-- The properties are the keys with what is found under them. -/
  mem_properties_iff : ∀ key value, (key, value) ∈ o.properties.toList ↔ o.get? key = some value
  /-- What is found under a key is the last value that was written there. -/
  get?_eq_some_iff : ∀ key value, o.get? key = some value ↔
    ∃ before after, written = before ++ (key, value) :: after ∧ key ∉ after.map Prod.fst
  /-- The keys that are there are the ones that were written. -/
  contains_iff : ∀ key, o.contains key ↔ key ∈ written.map Prod.fst
  /-- There are as many properties as different keys were written. -/
  size_eq : o.size = (written.map Prod.fst).toFinset.card

theorem holds_of_properties_eq {o : Object} {pairs : List (String × Value)}
    (h : o.properties = .ofList pairs) : o.Holds pairs where
  nodup_keys := o.properties.nodup
  pairwise_keys := by
    rw [keys, h]
    exact Properties.pairwise_keys_ofList pairs
  mem_properties_iff _ _ := o.properties.mem_toList_iff
  get?_eq_some_iff _ _ := by
    rw [get?, h]
    exact Properties.get?_ofList_eq_some_iff
  contains_iff _ := by
    rw [contains, Properties.contains, h, List.contains_iff_mem]
    exact Properties.mem_keys_ofList
  size_eq := by
    rw [size, h]
    exact Properties.size_ofList pairs

/-! ## One more property -/

/-- An object is another one with a property written into it. -/
structure Rewrites (o : Object) (key : String) (value : Value) (after : Object) : Prop where
  /-- The class is the same. -/
  class?_eq : after.class? = o.class?
  /-- The order of the keys is the same, and a new key comes last. -/
  keys_eq : after.keys = if key ∈ o.keys then o.keys else o.keys ++ [key]
  /-- The value is there. -/
  get?_eq : after.get? key = some value
  /-- All other properties are the same and in the same order. -/
  others_eq : after.properties.toList.filter (·.1 ≠ key) =
    o.properties.toList.filter (·.1 ≠ key)

theorem rewrites_exchange (o : Object) (key : String) (value : Value) :
    o.Rewrites key value (o.exchange key value).2 where
  class?_eq := rfl
  keys_eq := o.properties.keys_insert key value
  get?_eq := (o.properties.get?_insert key value key).trans (if_pos rfl)
  others_eq := by
    show (o.properties.insert key value).toList.filter _ = _
    rw [Properties.toList_insert, Properties.filter_place]

theorem exchange_fst_isSome_iff (o : Object) (key : String) (value : Value) :
    (o.exchange key value).1.isSome ↔ o.contains key := by
  show (o.properties.get? key).isSome ↔ o.properties.keys.contains key
  rw [List.contains_iff_mem, Properties.mem_keys_iff, Option.isSome_iff_exists]

/-! ## Equal objects -/

theorem rel_strictEq_iff {a? b? : Option Value} :
    Option.Rel (fun a b => a.strictEq b) a? b? ↔
      Option.Rel Value.Alike a? b? ∧ ∀ value, a? = some value → ¬value.HoldsNaN := by
  cases a? <;> cases b? <;> simp [Value.strictEq_iff_alike]

/-- Objects are equal if and only if they have one class and values under the same keys that are
alike, and hold no NaN. -/
theorem strictEq_iff (o p : Object) : o.strictEq p ↔ o.class? = p.class? ∧
    (∀ key, Option.Rel Value.Alike (o.get? key) (p.get? key)) ∧
      ∀ key value, o.get? key = some value → ¬value.HoldsNaN := by
  rw [strictEq, Value.ofObject, Value.ofObject, strictEq_object_iff,
    Properties.rel_iff_forall_get?, ← forall_and]
  exact and_congr_right fun _ => forall_congr' fun _ => rel_strictEq_iff

/-- However an object is built, it holds what was written, and keeps its class unless its pairs
are collected. Writing one more property gives back what was there before, which is something if
and only if the key had been written, and changes nothing else. Two objects are equal, whatever
their histories, if and only if they have one class and values under the same keys that are alike,
and hold no NaN. -/
theorem laws_of_history :
    (∀ (class? : Option Class) (history : List Write), let o := build class? history
      o.Holds (written history) ∧
      (o.class? = if history.any Write.collects then none else class?) ∧
      ∀ (key : String) (value : Value),
        (o.exchange key value).1 = o.get? key ∧
        ((o.exchange key value).1.isSome ↔ key ∈ (written history).map Prod.fst) ∧
        o.Rewrites key value (o.exchange key value).2) ∧
    ∀ (class? class?' : Option Class) (history history' : List Write),
      let o := build class? history
      let p := build class?' history'
      o.strictEq p ↔ o.class? = p.class? ∧
        (∀ key, Option.Rel Value.Alike (o.get? key) (p.get? key)) ∧
          ∀ key value, o.get? key = some value → ¬value.HoldsNaN := by
  refine ⟨fun class? history => ?_, fun _ _ _ _ => strictEq_iff _ _⟩
  have hholds := holds_of_properties_eq (properties_build class? history)
  refine ⟨hholds, class?_build class? history, fun key value => ⟨rfl, ?_, ?_⟩⟩
  · exact (exchange_fst_isSome_iff _ key value).trans (hholds.contains_iff key)
  · exact rewrites_exchange _ key value

/-- One object in two ways, with a NaN and a null that are overwritten. -/
theorem laws_of_history_in_two_ways :
    let list := Value.array [.null]
    let history : List Write :=
      [.insert "x" (.number .nan), .exchange "y" list, .insert "x" (.bool true)]
    let history' : List Write := [.collect [("y", .null), ("x", .bool true)], .insert "y" list]
    let o := build none history
    let p := build none history'
    o.Holds (written history) ∧ (o.exchange "x" .null).1 = some (.bool true) ∧
      o.Rewrites "z" .null (o.exchange "z" .null).2 ∧ o.strictEq p ∧
      (∀ key, Option.Rel Value.Alike (o.get? key) (p.get? key)) ∧
      ∀ key value, o.get? key = some value → ¬value.HoldsNaN := by
  intro list history history' o p
  obtain ⟨hhistory, hequal⟩ := laws_of_history
  obtain ⟨hholds, -, hexchange⟩ := hhistory none history
  have hlast : o.get? "x" = some (.bool true) :=
    (hholds.get?_eq_some_iff _ _).2 ⟨[("x", .number .nan), ("y", list)], [], rfl, by decide⟩
  have hstrict : o.strictEq p := by decide
  obtain ⟨-, halike, hnan⟩ := (hequal none none history history').1 hstrict
  exact ⟨hholds, (hexchange "x" .null).1.trans hlast, (hexchange "z" .null).2.2, hstrict, halike,
    hnan⟩

end Object

end CallGuard
