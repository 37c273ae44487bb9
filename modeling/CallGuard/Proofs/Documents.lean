import CallGuard.Json.Text
import CallGuard.Proofs.Lookup

/-!
# Documents and their tokens

The tokens of a document make up that document, if it is nested no deeper than a reader goes
(`Json.ofTokens?_tokens`), and nothing deeper is ever read
(`Json.depth_le_of_ofTokens?_eq_some`).

A reading takes the tokens one by one. From where a document is due, the tokens of a document lead
to where it is complete, whatever is open around it (`Json.run_tokens`) : an array or object goes
through its parts, each of which leaves it open with one more element or member. The members have
distinct names, so that each is put behind the ones before it.

Every step keeps what is held within the bounds on depth (`Reading.Fits.step`) : a document in an
open array or object is at least one level less deep than the reader goes for each that is open.
-/

namespace CallGuard

/-! ## Induction over documents -/

namespace Json

/-- Whether a document is neither an array nor an object. -/
def isLeaf : Json → Bool
  | array _ | object _ => false
  | _ => true

/-- The statements that an induction over documents starts from. -/
structure Cases (P : Json → Prop) : Prop where
  /-- A document that has no parts. -/
  leaf : ∀ j : Json, j.isLeaf → P j
  /-- An array, whose elements satisfy the statement. -/
  array : ∀ items, (∀ j ∈ items, P j) → P (array items)
  /-- An object, whose members satisfy the statement. -/
  object : ∀ p : Properties Json, (∀ pair ∈ p.toList, P pair.2) → P (object p)

variable {P : Json → Prop}

mutual

/-- Induction over the parts of documents. -/
theorem induct (cases : Cases P) : (j : Json) → P j
  | .array items => cases.array items (induct_items cases items)
  | .object ⟨entries, nodup⟩ => cases.object ⟨entries, nodup⟩ (induct_entries cases entries)
  | .null => cases.leaf _ rfl
  | .bool _ => cases.leaf _ rfl
  | .number _ => cases.leaf _ rfl
  | .string _ => cases.leaf _ rfl

/-- Every element of an array satisfies the statement. -/
theorem induct_items (cases : Cases P) : (items : List Json) → ∀ j ∈ items, P j
  | [], _, h => absurd h List.not_mem_nil
  | i :: rest, j, h => by
    rcases List.mem_cons.1 h with e | h
    · rw [e]
      exact induct cases i
    · exact induct_items cases rest j h

/-- Every member of an object satisfies the statement. -/
theorem induct_entries (cases : Cases P) {keys : List String} :
    (entries : Entries Json keys) → ∀ pair ∈ entries.toList, P pair.2
  | .nil, _, h => absurd h List.not_mem_nil
  | .cons _ j rest, pair, h => by
    rcases List.mem_cons.1 h with e | h
    · rw [e]
      exact induct cases j
    · exact induct_entries cases rest pair h

end

end Json

/-! ## Depth -/

mutual

/-- How many arrays and objects of a document are inside one another at most. -/
def Json.depth : Json → Nat
  | .array items => itemsDepth items + 1
  | .object ⟨entries, _⟩ => membersDepth entries + 1
  | _ => 0

/-- The depth of the deepest element of an array. -/
def itemsDepth : List Json → Nat
  | [] => 0
  | j :: rest => max j.depth (itemsDepth rest)

/-- The depth of the deepest member of an object. -/
def membersDepth : {keys : List String} → Entries Json keys → Nat
  | _, .nil => 0
  | _, .cons _ j rest => max j.depth (membersDepth rest)

end

theorem itemsDepth_le_iff {items : List Json} {n : Nat} :
    itemsDepth items ≤ n ↔ ∀ j ∈ items, j.depth ≤ n := by
  induction items with
  | nil => simp [itemsDepth]
  | cons j items ih => rw [itemsDepth, Nat.max_le, ih, List.forall_mem_cons]

theorem membersDepth_le_iff {keys : List String} {entries : Entries Json keys} {n : Nat} :
    membersDepth entries ≤ n ↔ ∀ pair ∈ entries.toList, pair.2.depth ≤ n := by
  induction entries with
  | nil => simp [membersDepth, Entries.toList]
  | cons name j entries ih =>
    rw [membersDepth, Nat.max_le, ih, Entries.toList, List.forall_mem_cons]

namespace Json

theorem depth_of_isLeaf {j : Json} (h : j.isLeaf) : j.depth = 0 := by
  cases j with
  | array => cases h
  | object => cases h
  | _ => simp [depth]

/-- An array is nested deeper than its elements. -/
theorem depth_array_le_iff {items : List Json} {n : Nat} :
    (array items).depth ≤ n ↔ 0 < n ∧ ∀ j ∈ items, j.depth < n := by
  cases n with
  | zero => simp [depth]
  | succ n =>
    rw [depth, Nat.add_le_add_iff_right, itemsDepth_le_iff]
    exact ⟨fun h => ⟨Nat.succ_pos n, fun j hj => Nat.lt_succ_of_le (h j hj)⟩,
      fun h j hj => Nat.le_of_lt_succ (h.2 j hj)⟩

/-- An object is nested deeper than its members. -/
theorem depth_object_le_iff {p : Properties Json} {n : Nat} :
    (object p).depth ≤ n ↔ 0 < n ∧ ∀ pair ∈ p.toList, pair.2.depth < n := by
  obtain ⟨entries, nodup⟩ := p
  cases n with
  | zero => simp [depth]
  | succ n =>
    rw [depth, Nat.add_le_add_iff_right, membersDepth_le_iff]
    exact ⟨fun h => ⟨Nat.succ_pos n, fun pair hpair => Nat.lt_succ_of_le (h pair hpair)⟩,
      fun h pair hpair => Nat.le_of_lt_succ (h.2 pair hpair)⟩

end Json

/-! ## From tokens to documents -/

namespace Reading

theorem run_cons {r next : Reading} {token : Token} (h : r.step token = some next)
    (tail : List Token) : r.run (token :: tail) = next.run tail := by
  rw [run, h, Option.bind_some]

end Reading

namespace Json

open Reading

/-- The tokens of a document lead from where a document is due to where it is complete. -/
def IsRead (j : Json) : Prop :=
  ∀ (opened : Bool) (stack : List Frame) (tail : List Token), stack.length + j.depth ≤ maxDepth →
    (due opened stack).run (j.tokens ++ tail) = (complete j stack).run tail

/-- Where a document is due, a token other than the end of an array is the first of one. -/
theorem step_due {token : Token} (h : token ≠ .closeArray) (opened : Bool) (stack : List Frame) :
    (due opened stack).step token = document stack token := by
  unfold step
  split <;> simp_all

theorem isRead_of_isLeaf {j : Json} (h : j.isLeaf) : j.IsRead := by
  intro opened stack tail _
  cases j with
  | array => cases h
  | object => cases h
  | null => exact run_cons (step_due (by decide) opened stack) tail
  | bool b => exact run_cons (step_due (by simp) opened stack) tail
  | number n => exact run_cons (step_due (by simp) opened stack) tail
  | string s => exact run_cons (step_due (by simp) opened stack) tail

theorem itemTokens_cons_cons (j k : Json) (rest : List Json) :
    itemTokens (j :: k :: rest) = j.tokens ++ .comma :: itemTokens (k :: rest) := by
  rw [itemTokens]
  simp

theorem memberTokens_cons_cons {keys : List String} (name next : String) (j k : Json)
    (rest : Entries Json keys) :
    memberTokens (.cons name j (.cons next k rest)) =
      .string name :: .colon :: j.tokens ++ .comma :: memberTokens (.cons next k rest) := by
  rw [memberTokens]
  intro _ h
  cases h

/-- The elements of an array are read behind the ones before them. -/
theorem run_itemTokens {stack : List Frame} (tail : List Token) {items : List Json}
    (hread : ∀ j ∈ items, j.IsRead)
    (hdepth : ∀ j ∈ items, stack.length + 1 + j.depth ≤ maxDepth) (hne : items ≠ [])
    (opened : Bool) (done : List Json) :
    (due opened (.array done :: stack)).run (itemTokens items ++ .closeArray :: tail) =
      (complete (.array (done.reverse ++ items)) stack).run tail := by
  induction items generalizing opened done with
  | nil => exact absurd rfl hne
  | cons j rest ih =>
    have hj := hread j List.mem_cons_self
    have hdeep := hdepth j List.mem_cons_self
    cases rest with
    | nil =>
      rw [itemTokens, hj opened _ _ (by simpa using hdeep), run_cons rfl, List.reverse_cons]
    | cons k rest =>
      rw [itemTokens_cons_cons, List.append_assoc, hj opened _ _ (by simpa using hdeep),
        List.cons_append, run_cons rfl, ih (fun i hi => hread i (List.mem_cons_of_mem j hi))
          (fun i hi => hdepth i (List.mem_cons_of_mem j hi)) (by simp), List.reverse_cons,
        List.append_assoc]
      rfl

/-- The members of an object are read behind the ones before them. -/
theorem run_memberTokens {stack : List Frame} (tail : List Token) {keys : List String}
    {entries : Entries Json keys} (hread : ∀ pair ∈ entries.toList, pair.2.IsRead)
    (hdepth : ∀ pair ∈ entries.toList, stack.length + 1 + pair.2.depth ≤ maxDepth)
    (hne : entries.toList ≠ []) (opened : Bool) (members : Properties Json) :
    (name opened members stack).run (memberTokens entries ++ .closeObject :: tail) =
      (complete (.object (members.insertAll entries.toList)) stack).run tail := by
  induction entries generalizing opened members with
  | nil => exact absurd rfl hne
  | cons key j rest ih =>
    have hj := hread (key, j) List.mem_cons_self
    have hdeep : stack.length + 1 + j.depth ≤ maxDepth := hdepth (key, j) List.mem_cons_self
    have hkey : ∀ tail, (name opened members stack).run (.string key :: .colon :: tail) =
        (due false (.object members key :: stack)).run tail := by
      intro tail
      have hname : (name opened members stack).step (.string key) =
          some (colon members key stack) := by cases opened <;> rfl
      rw [run_cons hname, run_cons rfl]
    cases rest with
    | nil =>
      rw [memberTokens, List.cons_append, List.cons_append, hkey,
        hj false _ _ (by simpa using hdeep), run_cons rfl]
      rfl
    | cons next k rest =>
      rw [memberTokens_cons_cons, List.append_assoc, List.cons_append, List.cons_append, hkey,
        hj false _ _ (by simpa using hdeep), List.cons_append, run_cons rfl,
        ih (fun pair hpair => hread pair (List.mem_cons_of_mem _ hpair))
          (fun pair hpair => hdepth pair (List.mem_cons_of_mem _ hpair)) (by simp [Entries.toList])]
      rfl

theorem isRead_array {items : List Json} (hread : ∀ j ∈ items, j.IsRead) :
    (array items).IsRead := by
  intro opened stack tail hdeep
  obtain ⟨hpos, hless⟩ := depth_array_le_iff.1 (Nat.le_refl (array items).depth)
  have hitems : ∀ j ∈ items, stack.length + 1 + j.depth ≤ maxDepth := by
    intro j hj
    have := hless j hj
    omega
  have hopen : (due opened stack).step .openArray = some (due true (.array [] :: stack)) := by
    rw [step_due (by decide), document, if_pos (by omega)]
  rw [tokens, List.cons_append, List.cons_append, run_cons hopen, List.append_assoc]
  by_cases hne : items = []
  · subst hne
    exact run_cons rfl tail
  · exact run_itemTokens tail hread hitems hne true []

theorem isRead_object {p : Properties Json} (hread : ∀ pair ∈ p.toList, pair.2.IsRead) :
    (object p).IsRead := by
  intro opened stack tail hdeep
  obtain ⟨hpos, hless⟩ := depth_object_le_iff.1 (Nat.le_refl (object p).depth)
  have hmembers : ∀ pair ∈ p.toList, stack.length + 1 + pair.2.depth ≤ maxDepth := by
    intro pair hpair
    have := hless pair hpair
    omega
  have hopen : (due opened stack).step .openObject = some (name true .empty stack) := by
    rw [step_due (by decide), document, if_pos (by omega)]
  have hwhole := p.ofList_toList
  obtain ⟨entries, nodup⟩ := p
  rw [tokens, List.cons_append, List.cons_append, run_cons hopen, List.append_assoc]
  cases entries with
  | nil => exact run_cons rfl tail
  | cons key j rest =>
    rw [← hwhole]
    exact run_memberTokens tail hread hmembers (by simp [Entries.toList]) true .empty

/-- From where a document is due, its tokens lead to where it is complete. -/
theorem run_tokens (j : Json) : j.IsRead :=
  induct ⟨fun _ => isRead_of_isLeaf, fun _ => isRead_array, fun _ => isRead_object⟩ j

/-- The tokens of a document make it up, if it is nested no deeper than a reader goes. -/
theorem ofTokens?_tokens {j : Json} (h : j.depth ≤ maxDepth) : ofTokens? j.tokens = some j := by
  have hrun := j.run_tokens false [] [] (by simpa using h)
  rw [List.append_nil] at hrun
  rw [ofTokens?, hrun]
  rfl

end Json

/-! ## What is read is not too deep -/

/-- The documents in an array or object that is open. -/
def Frame.documents : Frame → List Json
  | array items => items
  | object members _ => members.toList.map Prod.snd

/-- No more is open than a reader goes deep, and every document in what is open leaves room for
all that is open around it. -/
def StackFits : List Frame → Prop
  | [] => True
  | frame :: stack =>
    stack.length < maxDepth ∧ (∀ j ∈ frame.documents, stack.length + 1 + j.depth ≤ maxDepth) ∧
      StackFits stack

theorem mem_place {α : Type} {key : String} {value : α} {pairs : List (String × α)}
    {pair : String × α} (h : pair ∈ place key value pairs) :
    pair = (key, value) ∨ pair ∈ pairs := by
  induction pairs with
  | nil => exact Or.inl (List.mem_singleton.1 h)
  | cons first pairs ih =>
    obtain ⟨k, v⟩ := first
    rw [place] at h
    split at h
    · exact (List.mem_cons.1 h).imp_right (List.mem_cons_of_mem _)
    · rcases List.mem_cons.1 h with rfl | h
      · exact Or.inr List.mem_cons_self
      · exact (ih h).imp_right (List.mem_cons_of_mem _)

namespace StackFits

variable {stack : List Frame} {items : List Json} {members : Properties Json} {key : String}
  {j : Json}

theorem length_le (h : StackFits stack) : stack.length ≤ maxDepth := by
  cases stack with
  | nil => exact Nat.zero_le _
  | cons frame stack => exact h.1

theorem reverse (h : StackFits (.array items :: stack)) :
    StackFits (.array items.reverse :: stack) :=
  ⟨h.1, fun j hj => h.2.1 j (List.mem_reverse.1 hj), h.2.2⟩

theorem depth_array_le (h : StackFits (.array items :: stack)) :
    stack.length + (Json.array items).depth ≤ maxDepth := by
  obtain ⟨hlength, hitems, -⟩ := h
  have hdepth : (Json.array items).depth ≤ maxDepth - stack.length :=
    Json.depth_array_le_iff.2 ⟨by omega, fun j hj => by
      have := hitems j hj
      omega⟩
  omega

theorem depth_object_le (h : StackFits (.object members key :: stack)) :
    stack.length + (Json.object members).depth ≤ maxDepth := by
  obtain ⟨hlength, hmembers, -⟩ := h
  have hdepth : (Json.object members).depth ≤ maxDepth - stack.length :=
    Json.depth_object_le_iff.2 ⟨by omega, fun pair hpair => by
      have := hmembers pair.2 (List.mem_map_of_mem hpair)
      omega⟩
  omega

theorem cons_item (h : StackFits (.array items :: stack))
    (hj : stack.length + 1 + j.depth ≤ maxDepth) : StackFits (.array (j :: items) :: stack) :=
  ⟨h.1, List.forall_mem_cons.2 ⟨hj, h.2.1⟩, h.2.2⟩

theorem insert_member (h : StackFits (.object members key :: stack))
    (hj : stack.length + 1 + j.depth ≤ maxDepth) (name next : String) :
    StackFits (.object (members.insert name j) next :: stack) := by
  refine ⟨h.1, fun i hi => ?_, h.2.2⟩
  obtain ⟨pair, hpair, rfl⟩ := List.mem_map.1 hi
  rw [Properties.toList_insert] at hpair
  rcases mem_place hpair with rfl | hpair
  · exact hj
  · exact h.2.1 _ (List.mem_map_of_mem hpair)

end StackFits

namespace Reading

/-- What has been read is within the bounds on depth. -/
def Fits : Reading → Prop
  | due _ stack => StackFits stack
  | name _ members stack => StackFits (.object members "" :: stack)
  | colon members key stack => StackFits (.object members key :: stack)
  | complete j stack => stack.length + j.depth ≤ maxDepth ∧ StackFits stack

variable {r next : Reading}

theorem fits_of_document {stack : List Frame} {token : Token} (hstack : StackFits stack)
    (h : document stack token = some next) : next.Fits := by
  have hleaf : ∀ {j : Json}, j.isLeaf → (complete j stack).Fits := fun hj =>
    ⟨by rw [Json.depth_of_isLeaf hj]; exact hstack.length_le, hstack⟩
  unfold document at h
  split at h
  -- The start of an array or of an object.
  case h_5 | h_6 =>
    split at h
    · rename_i hlength
      cases h
      exact ⟨hlength, by simp [Frame.documents], hstack⟩
    · cases h
  case h_7 => cases h
  all_goals
    cases h
    exact hleaf rfl

/-- A step keeps what has been read within the bounds. -/
theorem Fits.step {token : Token} (hr : r.Fits) (h : r.step token = some next) : next.Fits := by
  unfold Reading.step at h
  split at h
  -- Where a document is due.
  · cases h
    exact ⟨hr.depth_array_le, hr.2.2⟩
  · exact fits_of_document hr h
  -- Where a name or a colon is due.
  · cases h
    exact ⟨hr.depth_object_le, hr.2.2⟩
  · cases h
    exact hr
  · cases h
    exact hr
  -- Where a document in an array is complete.
  · cases h
    exact hr.2.cons_item hr.1
  · cases h
    have hitems := (hr.2.cons_item hr.1).reverse
    exact ⟨hitems.depth_array_le, hr.2.2.2⟩
  -- Where a document in an object is complete.
  · cases h
    exact hr.2.insert_member hr.1 _ _
  · cases h
    exact ⟨(hr.2.insert_member hr.1 _ "").depth_object_le, hr.2.2.2⟩
  · cases h

theorem Fits.run {tokens : List Token} (hr : r.Fits) (h : r.run tokens = some next) :
    next.Fits := by
  induction tokens generalizing r with
  | nil =>
    cases h
    exact hr
  | cons token tokens ih =>
    obtain ⟨s, hs, h⟩ := Option.bind_eq_some_iff.1 h
    exact ih (hr.step hs) h

end Reading

/-- A document that tokens make up is nested no deeper than a reader goes. -/
theorem Json.depth_le_of_ofTokens?_eq_some {tokens : List Token} {j : Json}
    (h : ofTokens? tokens = some j) : j.depth ≤ maxDepth := by
  obtain ⟨r, hr, h⟩ := Option.bind_eq_some_iff.1 h
  have hstart : (Reading.due false []).Fits := trivial
  have hfits := hstart.run hr
  unfold Reading.result? at h
  split at h
  · cases h
    simpa using hfits.1
  · cases h

end CallGuard
