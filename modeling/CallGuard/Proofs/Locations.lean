import CallGuard.Location
import Mathlib.Data.List.Infix
import Std.Data.String.ToNat

/-!
# Reading locations

A location is written as its steps, the last one first, and the position of the argument,
with ` of ` between them. Keys are written as they are, and so a key that holds ` of ` itself
can be taken for two steps. Without such keys (`Location.Clear`) two locations that are
written alike are the same (`Location.text_eq_iff_of_clear`).

What is written is read from the left. An ordinal ends where its digits and two letters end
(`ordinal_append_inj`), and it begins with a digit, whereas a property begins with a letter.
The key of a property ends at the first separator, although the key and the separator may
overlap, as in `a of of 0th` : the separator would have to begin inside the key and end
behind it, and then what follows would begin with an `o`, which no location does
(`append_separator_inj`).
-/

namespace CallGuard

/-! ## Ordinals -/

theorem isDigit_of_mem_repr {n : Nat} {c : Char} (h : c ∈ n.repr.toList) : c.isDigit := by
  rw [Nat.toList_repr] at h
  exact Nat.isDigit_of_mem_toDigits (by decide) (by decide) h

theorem exists_toList_ordinal_eq_cons (n : Nat) :
    ∃ c r, (ordinal n).toList = c :: r ∧ c.isDigit := by
  rw [ordinal, String.toList_append]
  cases h : n.repr.toList with
  | nil => exact absurd (Nat.toList_repr ▸ h) Nat.toDigits_ne_nil
  | cons c r => exact ⟨c, _, rfl, isDigit_of_mem_repr (h ▸ List.mem_cons_self)⟩

theorem takeWhile_isDigit_ordinal (n : Nat) (r : List Char) :
    ((ordinal n).toList ++ r).takeWhile Char.isDigit = n.repr.toList := by
  have hending : ((ordinalEnding n).toList ++ r).takeWhile Char.isDigit = [] := by
    unfold ordinalEnding
    repeat' split
    all_goals rfl
  rw [ordinal, String.toList_append, List.append_assoc,
    List.takeWhile_append_of_pos fun c hc => isDigit_of_mem_repr hc, hending, List.append_nil]

/-- What begins with an ordinal begins with no other one. -/
theorem ordinal_append_inj {n m : Nat} {r r' : List Char}
    (h : (ordinal n).toList ++ r = (ordinal m).toList ++ r') : n = m ∧ r = r' := by
  have hrepr : n.repr.toList = m.repr.toList := by
    rw [← takeWhile_isDigit_ordinal n r, h, takeWhile_isDigit_ordinal]
  obtain rfl : n = m := Nat.repr_injective (String.toList_inj.1 hrepr)
  exact ⟨rfl, List.append_cancel_left h⟩

/-! ## Separators -/

/-- The characters between the steps of a location. -/
def separator : List Char := " of ".toList

theorem separator_eq : separator = [' ', 'o', 'f', ' '] := rfl

/-- A text without separators that runs into one is empty, unless what stands behind the
separator begins with an `o`. -/
theorem eq_nil_of_separator_append {k r r' : List Char} (hk : ¬separator <:+: k)
    (hr : r.head? ≠ some 'o') (h : separator ++ r = k ++ (separator ++ r')) : k = [] := by
  rw [separator_eq] at h hk
  match k, h with
  | [], _ => rfl
  | [_], h => simp at h
  | [_, _], h => simp at h
  | [_, _, _], h =>
    simp only [List.cons_append, List.nil_append, List.cons.injEq] at h
    obtain ⟨-, -, -, -, rfl⟩ := h
    exact absurd rfl hr
  | a :: b :: c :: d :: k, h =>
    simp only [List.cons_append, List.nil_append, List.cons.injEq] at h
    obtain ⟨rfl, rfl, rfl, rfl, -⟩ := h
    exact absurd (List.prefix_append _ k).isInfix hk

/-- A text without separators ends at the first one. -/
theorem append_separator_inj {k k' r r' : List Char} (hk : ¬separator <:+: k)
    (hk' : ¬separator <:+: k') (hr : r.head? ≠ some 'o') (hr' : r'.head? ≠ some 'o')
    (h : k ++ (separator ++ r) = k' ++ (separator ++ r')) : k = k' ∧ r = r' := by
  induction k generalizing k' with
  | nil =>
    obtain rfl := eq_nil_of_separator_append hk' hr h
    exact ⟨rfl, List.append_cancel_left h⟩
  | cons c k ih =>
    cases k' with
    | nil => cases eq_nil_of_separator_append hk hr' h.symm
    | cons c' k' =>
      obtain ⟨rfl, htail⟩ := List.cons.inj h
      obtain ⟨rfl, hrest⟩ := ih (fun hi => hk (List.infix_cons hi))
        (fun hi => hk' (List.infix_cons hi)) htail
      exact ⟨rfl, hrest⟩

/-! ## Steps -/

/-- The separator is not in the key of the step. -/
def Step.Clear : Step → Prop
  | element _ => True
  | property key => ¬separator <:+: key.toList

instance : DecidablePred Step.Clear
  | .element _ => .isTrue trivial
  | .property key => inferInstanceAs (Decidable (¬separator <:+: key.toList))

theorem toList_text_element (i : Nat) :
    (Step.element i).text.toList = (ordinal i).toList ++ " element".toList :=
  String.toList_append

theorem toList_text_property (key : String) :
    (Step.property key).text.toList = "property ".toList ++ key.toList :=
  String.toList_append

/-- What begins with an ordinal does not begin with a property. -/
theorem ordinal_append_ne_property (n : Nat) (r r' : List Char) :
    (ordinal n).toList ++ r ≠ "property ".toList ++ r' := by
  obtain ⟨c, tail, htail, hc⟩ := exists_toList_ordinal_eq_cons n
  intro h
  rw [htail] at h
  obtain ⟨rfl, -⟩ := List.cons.inj h
  exact absurd hc (by decide)

/-- What begins with a step and a separator begins with no other step. -/
theorem Step.text_append_inj {step step' : Step} (hs : step.Clear) (hs' : step'.Clear)
    {r r' : List Char} (hr : r.head? ≠ some 'o') (hr' : r'.head? ≠ some 'o')
    (h : step.text.toList ++ (separator ++ r) = step'.text.toList ++ (separator ++ r')) :
    step = step' ∧ r = r' := by
  cases step with
  | element i =>
    rw [toList_text_element, List.append_assoc] at h
    cases step' with
    | element j =>
      rw [toList_text_element, List.append_assoc] at h
      obtain ⟨rfl, hrest⟩ := ordinal_append_inj h
      exact ⟨rfl, List.append_cancel_left (List.append_cancel_left hrest)⟩
    | property key =>
      rw [toList_text_property, List.append_assoc] at h
      exact absurd h (ordinal_append_ne_property _ _ _)
  | property key =>
    rw [toList_text_property, List.append_assoc] at h
    cases step' with
    | element j =>
      rw [toList_text_element, List.append_assoc] at h
      exact absurd h.symm (ordinal_append_ne_property _ _ _)
    | property key' =>
      rw [toList_text_property, List.append_assoc] at h
      obtain ⟨hkey, hrest⟩ :=
        append_separator_inj hs hs' hr hr' (List.append_cancel_left h)
      exact ⟨congrArg Step.property (String.toList_inj.1 hkey), hrest⟩

/-- An ordinal is not the beginning of a longer path. -/
theorem Step.text_append_ne_ordinal (step : Step) (r : List Char) (n : Nat) :
    step.text.toList ++ (separator ++ r) ≠ (ordinal n).toList := by
  intro h
  rw [← List.append_nil (ordinal n).toList] at h
  cases step with
  | element i =>
    rw [toList_text_element, List.append_assoc] at h
    obtain ⟨-, h⟩ := ordinal_append_inj h
    cases h
  | property key =>
    rw [toList_text_property, List.append_assoc] at h
    exact absurd h.symm (ordinal_append_ne_property _ _ _)

/-! ## Paths -/

namespace Location

theorem toList_pathText_cons (position : Nat) (step : Step) (path : List Step) :
    (pathText position (step :: path)).toList =
      step.text.toList ++ (separator ++ (pathText position path).toList) := by
  rw [pathText, String.toList_append, String.toList_append, List.append_assoc]
  rfl

/-- A location begins with a digit or with the first letter of a property. -/
theorem head?_pathText_ne (position : Nat) (path : List Step) :
    (pathText position path).toList.head? ≠ some 'o' := by
  have hordinal : ∀ n r, ((ordinal n).toList ++ r).head? ≠ some 'o' := by
    intro n r h
    obtain ⟨c, tail, htail, hc⟩ := exists_toList_ordinal_eq_cons n
    rw [htail] at h
    cases h
    exact absurd hc (by decide)
  cases path with
  | nil => simpa [pathText] using hordinal position []
  | cons step path =>
    rw [toList_pathText_cons]
    cases step with
    | element i =>
      rw [toList_text_element, List.append_assoc]
      exact hordinal i _
    | property key =>
      rw [toList_text_property]
      intro h
      cases h

/-- Paths without separators in their keys that are written alike are the same, and so are
the positions they start from. -/
theorem pathText_inj {position position' : Nat} {path path' : List Step}
    (hpath : ∀ step ∈ path, step.Clear) (hpath' : ∀ step ∈ path', step.Clear)
    (h : (pathText position path).toList = (pathText position' path').toList) :
    path = path' ∧ position = position' := by
  induction path generalizing path' with
  | nil =>
    cases path' with
    | nil =>
      obtain ⟨hposition, -⟩ := ordinal_append_inj (congrArg (· ++ []) h)
      exact ⟨rfl, hposition⟩
    | cons step' path' =>
      rw [toList_pathText_cons] at h
      exact absurd h.symm (Step.text_append_ne_ordinal _ _ _)
  | cons step path ih =>
    rw [toList_pathText_cons] at h
    cases path' with
    | nil => exact absurd h (Step.text_append_ne_ordinal _ _ _)
    | cons step' path' =>
      rw [toList_pathText_cons] at h
      obtain ⟨hstep, hlater⟩ := List.forall_mem_cons.1 hpath
      obtain ⟨hstep', hlater'⟩ := List.forall_mem_cons.1 hpath'
      obtain ⟨rfl, hrest⟩ := Step.text_append_inj hstep hstep' (head?_pathText_ne _ _)
        (head?_pathText_ne _ _) h
      obtain ⟨rfl, rfl⟩ := ih hlater hlater' hrest
      exact ⟨rfl, rfl⟩

/-- The separator is in no key of the location. -/
def Clear (l : Location) : Prop := ∀ step ∈ l.path, step.Clear

instance (l : Location) : Decidable l.Clear :=
  inferInstanceAs (Decidable (∀ step ∈ l.path, step.Clear))

/-- Locations whose keys do not hold ` of ` are written alike only if they are the same : they
have the same path and start from the same argument. -/
theorem text_eq_iff_of_clear {l l' : Location} (h : l.Clear) (h' : l'.Clear) :
    l.text = l'.text ↔ l.path = l'.path ∧ l.position = l'.position := by
  constructor
  · intro htext
    exact pathText_inj h h' (String.toList_inj.2 htext)
  · rintro ⟨hpath, hposition⟩
    rw [text, text, hpath, hposition]

/-- Keys that overlap with the separators around them are told apart. -/
theorem text_ne_of_overlapping_keys :
    let l : Location := ⟨[.property "a of", .property ""], 3⟩
    let l' : Location := ⟨[.property "a", .property "of property "], 3⟩
    l.Clear ∧ l'.Clear ∧ l.text = "property a of of property  of 3rd" ∧
      l'.text = "property a of property of property  of 3rd" ∧ l.text ≠ l'.text := by
  intro l l'
  have h : l.Clear := by decide
  have h' : l'.Clear := by decide
  exact ⟨h, h', by decide, by decide, fun htext => absurd ((text_eq_iff_of_clear h h').1 htext)
    (by decide)⟩

/-- A key that holds the separator is taken for two steps. -/
example : (⟨[.property "a of property b"], 0⟩ : Location).text =
    (⟨[.property "a", .property "b"], 0⟩ : Location).text := by decide

end Location

end CallGuard
