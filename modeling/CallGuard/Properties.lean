/-!
# Properties

A finite map from text keys that remembers the order in which keys first
came. Writing to a key that is there replaces its value and keeps its
place; writing to a new key puts it last.

Keys are distinct in the type : `Entries` lists its keys in its index, and a
`Properties` pairs entries with a proof that this index has no repeats. So
no statement about properties needs a side condition, and a value that holds
properties stays a plain inductive type.

`toList` is the view. `toList_insert` says what a write does to it,
`keys_insert` what it does to the order, `get?_insert` what it does to
look-ups, and `ext_toList` that the view determines the map.
-/

namespace CallGuard

universe u v

/-- Values listed under their keys, the keys in the type. -/
inductive Entries (α : Type u) : List String → Type u
  /-- No entries. -/
  | nil : Entries α []
  /-- An entry in front of others. -/
  | cons {keys : List String} (key : String) (value : α) (rest : Entries α keys) :
      Entries α (key :: keys)

namespace Entries

variable {α : Type u} {β : Type v}

/-- The entries as pairs. -/
def toList {keys : List String} : Entries α keys → List (String × α)
  | nil => []
  | cons key value rest => (key, value) :: rest.toList

/-- The entries that a list of pairs spells out, with their keys. -/
def ofList : List (String × α) → (keys : List String) × Entries α keys
  | [] => ⟨[], nil⟩
  | (key, value) :: rest =>
    let tail := ofList rest
    ⟨key :: tail.1, cons key value tail.2⟩

/-- The same keys with every value sent through `f`. -/
def map (f : α → β) {keys : List String} : Entries α keys → Entries β keys
  | nil => nil
  | cons key value rest => cons key (f value) (rest.map f)

@[simp] theorem map_fst_toList {keys : List String} (e : Entries α keys) :
    e.toList.map Prod.fst = keys := by
  induction e with
  | nil => rfl
  | cons key value rest ih => simp [toList, ih]

@[simp] theorem keys_ofList (pairs : List (String × α)) :
    (ofList pairs).1 = pairs.map Prod.fst := by
  induction pairs with
  | nil => rfl
  | cons pair rest ih => simp [ofList, ih]

@[simp] theorem toList_ofList (pairs : List (String × α)) : (ofList pairs).2.toList = pairs := by
  induction pairs with
  | nil => rfl
  | cons pair rest ih => simp [ofList, toList, ih]

@[simp] theorem toList_map (f : α → β) {keys : List String} (e : Entries α keys) :
    (e.map f).toList = e.toList.map fun pair => (pair.1, f pair.2) := by
  induction e with
  | nil => rfl
  | cons key value rest ih => simp [map, toList, ih]

/-- Entries with the same pairs are the same, once their keys are. -/
theorem eq_of_toList_eq {keys : List String} {d e : Entries α keys}
    (h : d.toList = e.toList) : d = e := by
  induction d with
  | nil => cases e; rfl
  | cons key value rest ih =>
    cases e with
    | cons _ value' rest' =>
      simp only [toList, List.cons.injEq, Prod.mk.injEq, true_and] at h
      rw [h.1, ih h.2]

end Entries

/-- Puts a value under a key of a list of pairs : in place of the pair that has
the key, or at the end if none has it. -/
def place {α : Type u} (key : String) (value : α) : List (String × α) → List (String × α)
  | [] => [(key, value)]
  | (k, v) :: rest => if k = key then (key, value) :: rest else (k, v) :: place key value rest

section Place

variable {α : Type u}

/-- Placing keeps the order of the keys and adds a new one last. -/
theorem map_fst_place (key : String) (value : α) (pairs : List (String × α)) :
    (place key value pairs).map Prod.fst =
      if key ∈ pairs.map Prod.fst then pairs.map Prod.fst else pairs.map Prod.fst ++ [key] := by
  induction pairs with
  | nil => rfl
  | cons pair rest ih =>
    obtain ⟨k, v⟩ := pair
    by_cases h : k = key
    · simp [place, h]
    · have h' : key ≠ k := fun e => h e.symm
      simp only [place, h, if_false, List.map_cons, ih, List.mem_cons, h', false_or]
      split <;> simp

/-- Placing never makes two pairs share a key. -/
theorem nodup_map_fst_place (key : String) (value : α) {pairs : List (String × α)}
    (h : (pairs.map Prod.fst).Nodup) : ((place key value pairs).map Prod.fst).Nodup := by
  rw [map_fst_place]
  split
  · exact h
  · rename_i hk
    refine List.nodup_append.2 ⟨h, by simp, ?_⟩
    intro a ha b hb e
    rw [List.mem_singleton] at hb
    exact hk (hb ▸ e ▸ ha)

/-- Looking a key up after placing. -/
theorem lookup_place (key : String) (value : α) (pairs : List (String × α)) (k : String) :
    (place key value pairs).lookup k = if k = key then some value else pairs.lookup k := by
  induction pairs with
  | nil =>
    by_cases h : k = key
    · simp [place, h]
    · have : (k == key) = false := by simpa using h
      simp [place, List.lookup_cons, h, this]
  | cons pair rest ih =>
    obtain ⟨k', v⟩ := pair
    by_cases h : k' = key
    · subst h
      by_cases hk : k = k'
      · simp [place, hk]
      · have : (k == k') = false := by simpa using hk
        simp [place, List.lookup_cons, hk, this]
    · by_cases hk : k = k'
      · subst hk
        simp [place, h]
      · have : (k == k') = false := by simpa using hk
        simp [place, List.lookup_cons, h, this, ih]

end Place

/-- Looking a key up where every value has been sent through `f`. -/
theorem lookup_map {α : Type u} {β : Type v} (f : α → β) (pairs : List (String × α))
    (key : String) :
    (pairs.map fun pair => (pair.1, f pair.2)).lookup key = (pairs.lookup key).map f := by
  induction pairs with
  | nil => rfl
  | cons pair rest ih =>
    obtain ⟨k, a⟩ := pair
    simp only [List.map_cons, List.lookup_cons]
    cases key == k <;> simp [ih]

/-- A map from text to values in the order in which keys first came. -/
structure Properties (α : Type u) where
  /-- The keys in order. -/
  {keys : List String}
  /-- The values under them. -/
  entries : Entries α keys
  /-- Every key is there once. -/
  nodup : keys.Nodup

namespace Properties

variable {α : Type u} {β : Type v}

/-- No properties. -/
def empty : Properties α := ⟨.nil, List.nodup_nil⟩

instance : Inhabited (Properties α) := ⟨empty⟩

/-- The properties in order. -/
def toList (p : Properties α) : List (String × α) := p.entries.toList

/-- The properties that a list of pairs with distinct keys spells out. -/
def ofDistinct (pairs : List (String × α)) (nodup : (pairs.map Prod.fst).Nodup) : Properties α :=
  ⟨(Entries.ofList pairs).2, by rw [Entries.keys_ofList]; exact nodup⟩

/-- The value under a key. -/
def get? (p : Properties α) (key : String) : Option α := p.toList.lookup key

/-- Whether a key is there. -/
def contains (p : Properties α) (key : String) : Bool := p.keys.contains key

/-- How many properties there are. -/
def size (p : Properties α) : Nat := p.keys.length

/-- Whether there are no properties. -/
def isEmpty (p : Properties α) : Bool := p.keys.isEmpty

/-- Writes a value under a key : in place if the key is there, last if it is not. -/
def insert (p : Properties α) (key : String) (value : α) : Properties α :=
  ofDistinct (place key value p.toList)
    (nodup_map_fst_place key value (by rw [toList, p.entries.map_fst_toList]; exact p.nodup))

/-- Writes pairs one after another, the first to come first. -/
def insertAll (p : Properties α) (pairs : List (String × α)) : Properties α :=
  pairs.foldl (fun q pair => q.insert pair.1 pair.2) p

/-- Properties from pairs : a repeated key keeps its first place and its last value. -/
def ofList (pairs : List (String × α)) : Properties α := empty.insertAll pairs

/-- The same keys with every value sent through `f`. -/
def map (f : α → β) (p : Properties α) : Properties β := ⟨p.entries.map f, p.nodup⟩

/-! ## Laws of the view -/

@[simp] theorem toList_empty : (empty : Properties α).toList = [] := rfl

@[simp] theorem toList_ofDistinct (pairs : List (String × α)) (h : (pairs.map Prod.fst).Nodup) :
    (ofDistinct pairs h).toList = pairs :=
  Entries.toList_ofList pairs

@[simp] theorem map_fst_toList (p : Properties α) : p.toList.map Prod.fst = p.keys :=
  p.entries.map_fst_toList

@[simp] theorem length_toList (p : Properties α) : p.toList.length = p.size := by
  rw [← List.length_map (f := Prod.fst), map_fst_toList, size]

@[simp] theorem toList_map (f : α → β) (p : Properties α) :
    (p.map f).toList = p.toList.map fun pair => (pair.1, f pair.2) :=
  p.entries.toList_map f

@[simp] theorem get?_map (f : α → β) (p : Properties α) (key : String) :
    (p.map f).get? key = (p.get? key).map f := by
  rw [get?, toList_map, lookup_map, get?]

/-- The view determines the map. -/
theorem ext_toList {p q : Properties α} (h : p.toList = q.toList) : p = q := by
  obtain ⟨d, hd⟩ := p
  obtain ⟨e, he⟩ := q
  have hk := congrArg (List.map Prod.fst) h
  rw [map_fst_toList, map_fst_toList] at hk
  dsimp only at hk
  subst hk
  congr 1
  exact Entries.eq_of_toList_eq h

theorem map_map {γ : Type v} (f : α → β) (g : β → γ) (p : Properties α) :
    (p.map f).map g = p.map fun a => g (f a) := by
  apply ext_toList
  rw [toList_map, toList_map, toList_map, List.map_map]
  rfl

theorem map_congr {f g : α → β} {p : Properties α}
    (h : ∀ pair ∈ p.toList, f pair.2 = g pair.2) : p.map f = p.map g := by
  apply ext_toList
  rw [toList_map, toList_map]
  exact List.map_congr_left fun pair hpair => by rw [h pair hpair]

/-- What a write does to the view. -/
@[simp] theorem toList_insert (p : Properties α) (key : String) (value : α) :
    (p.insert key value).toList = place key value p.toList :=
  toList_ofDistinct _ _

/-- A write keeps the order of the keys and puts a new one last. -/
theorem keys_insert (p : Properties α) (key : String) (value : α) :
    (p.insert key value).keys = if key ∈ p.keys then p.keys else p.keys ++ [key] := by
  rw [← map_fst_toList, toList_insert, map_fst_place, map_fst_toList]

/-- What a write does to look-ups. -/
theorem get?_insert (p : Properties α) (key : String) (value : α) (k : String) :
    (p.insert key value).get? k = if k = key then some value else p.get? k := by
  rw [get?, toList_insert, lookup_place, get?]

end Properties

end CallGuard
